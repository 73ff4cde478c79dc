import RingAgreement.Proofs.Hierarchy.Delivery
/-!
Runs of a hierarchy in a simulated world. Nodes are started one by one, and in between the network
delivers what it likes next; whatever the order, the invariant of the hierarchy holds.
-/

namespace RingAgreement.Simulation

variable {K : Kem}

namespace World

/-- What can happen next: a node is started, or the next packet is delivered. -/
inductive Move where
  | start (id : Nat)
  | step
deriving DecidableEq, Repr

/-- The node that a move starts. -/
def Move.node? : Move → Option Nat
  | start id => some id
  | step => none

/-- The world after a move. Nothing happens where nothing is on its way. -/
def play (K : Kem) (w : World) : Move → World
  | .start id => w.start K id
  | .step => (w.step K id).getD w

def after (K : Kem) (w : World) (moves : List Move) : World := moves.foldl (play K) w

theorem after_append (K : Kem) (w : World) (moves more : List Move) :
    w.after K (moves ++ more) = (w.after K moves).after K more := List.foldl_append

end World

namespace Hierarchy

variable {H : Hierarchy K} {cast : H.Cast} {post : H.Post} {packets : List Packet}
  {due : List (Packet × Nat × Level)} {w : World} {started : List Nat}

/-! ## Starts -/

section Start

variable {r : Fin (H.clusters + 1)} {p : Fin (H.ring r).roster.size}

theorem absorb_append (n : SimNode) {first : NodeOutcome StreamSource}
    (ok : first.result = .ok first.actions) (more : List NodeAction) (node : Node)
    (source : StreamSource) : n.absorb ⟨.ok (first.actions ++ more), node, source⟩ =
      (n.absorb first).absorb ⟨.ok more, node, source⟩ := by
  simp only [SimNode.absorb, ok, List.foldl_append]

/-- A party that has not begun begins. -/
theorem Invariant.opens (correct : K.Correct) (inv : H.Invariant cast post packets due)
    (fresh : (H.view cast r p).progress.initiated = false) :
    HonestRing.Flows (H.view cast r) (post r) p (H.answer cast r p .start) ∧
      (H.view (H.moved cast r p .start) r p).progress.initiated = true := by
  rw [inv.view_moved, Function.update_self, Function.update_self]
  exact (inv.steady r).sound.start correct ((inv.steady r).coherent p) fresh _

theorem reaction_home (home : H.level r p = .cluster) :
    (cast (H.member r p)).node.handleSession K .cluster (cast (H.member r p)).node.cluster .start
      (cast (H.member r p)).source = H.reaction cast r p .start := by
  rw [reaction, view, home]
  rfl

/-- The session in the ring of the leaders, after the other one has started. -/
theorem Invariant.leader_kept (inv : H.Invariant cast post packets due)
    (home : H.level r p = .cluster) (event : SessionEvent) :
    (H.reaction cast r p event).node.leader = (cast (H.member r p)).node.leader := by
  have kept := congrFun (inv.applied r p event).session?_eq .leader
  rwa [Function.update_of_ne (by simp [home])] at kept

/-- A leader starts its session in its cluster and then the one in the ring of the leaders. -/
theorem Invariant.outcome_start (later : H.Invariant (H.moved cast r p .start) post packets due)
    (home : H.level r p = .cluster)
    (ok : (H.reaction cast r p .start).result = .ok (H.reaction cast r p .start).actions)
    {q : Fin (H.ring 0).roster.size} (mine : H.member 0 q = H.member r p)
    (leading : H.level 0 q = .leader) {last : NodeOutcome StreamSource}
    (second : H.reaction (H.moved cast r p .start) 0 q .start = last)
    (ok' : last.result = .ok last.actions) : H.outcome cast (H.member r p) .start =
      ⟨.ok ((H.reaction cast r p .start).actions ++ last.actions), last.node, last.source⟩ := by
  have here : H.moved cast r p .start (H.member 0 q) =
      (cast (H.member r p)).absorb (H.reaction cast r p .start) := by
    rw [mine, Hierarchy.moved, Function.update_self]
  have led := later.session 0 q
  rw [reaction] at second
  rw [leading, here] at led second
  exact Node.start_eq_second (reaction_home home) ok led second ok'

/-- The start of a leader is the start of its two sessions. -/
theorem Invariant.start_both (later : H.Invariant (H.moved cast r p .start) post packets due)
    (home : H.level r p = .cluster)
    (ok : (H.reaction cast r p .start).result = .ok (H.reaction cast r p .start).actions)
    {q : Fin (H.ring 0).roster.size} (mine : H.member 0 q = H.member r p)
    (leading : H.level 0 q = .leader) {last : NodeOutcome StreamSource}
    (second : H.reaction (H.moved cast r p .start) 0 q .start = last)
    (ok' : last.result = .ok last.actions) :
    H.handed cast (H.member r p) .start = H.moved (H.moved cast r p .start) 0 q .start ∧
      sent (H.member r p) (H.outcome cast (H.member r p) .start).actions =
        sent (H.member r p) (H.reaction cast r p .start).actions ++
          sent (H.member r p) last.actions := by
  have outcome := later.outcome_start home ok mine leading second ok'
  have here : H.moved cast r p .start (H.member r p) =
      (cast (H.member r p)).absorb (H.reaction cast r p .start) := Function.update_self _ _ _
  constructor
  · change _ = Function.update (Function.update cast _ _) (H.member 0 q)
      ((H.moved cast r p .start (H.member 0 q)).absorb _)
    rw [mine, here, Function.update_idem, second, handed, outcome, absorb_append _ ok, ← ok']
  · rw [outcome]
    exact sent_append _ _ _

/-- The start of a node that leads nobody is the start of its only session. -/
theorem Invariant.start_single (inv : H.Invariant cast post packets due)
    (home : H.level r p = .cluster) (alone : (H.place (H.member r p)).leaderRing = none) :
    H.outcome cast (H.member r p) .start = H.reaction cast r p .start := by
  have orderly := inv.orderly (H.member r p)
  have single : (cast (H.member r p)).node.leader = none := by
    refine Option.not_isSome_iff_eq_none.1 fun present => ?_
    have leading := orderly.coherent.led.1 present
    rw [orderly.role] at leading
    rw [leads_of_role leading] at alone
    cases alone
  exact Node.start_eq_first (reaction_home home) ((inv.leader_kept home .start).trans single)

/-- The seats of a node begin with its start. -/
theorem Invariant.start (correct : K.Correct) (inv : H.Invariant cast post packets due)
    (id : Fin H.nodes)
    (fresh : ∀ r p, H.member r p = id → (H.view cast r p).progress.initiated = false) :
    (∃ post', H.Invariant (H.handed cast id .start) post'
      (packets ++ sent id (H.outcome cast id .start).actions) due) ∧
        ∀ r p, H.member r p = id →
          (H.view (H.handed cast id .start) r p).progress.initiated = true := by
  obtain ⟨r, p, rfl, home⟩ := exists_home_seat id
  obtain ⟨flows, begun⟩ := inv.opens correct (fresh r p rfl)
  have first := inv.moved flows
  have homely : ∀ {r' p'}, H.member r' p' = H.member r p → H.level r' p' = .cluster →
      (H.view (H.moved cast r p .start) r' p').progress.initiated = true := by
    intro r' p' mine own
    obtain rfl := ring_eq_of_seat mine (own.trans home.symm)
    obtain rfl := H.injective r' mine
    exact begun
  cases leads : (H.place (H.member r p)).leaderRing with
  | none =>
    rw [handed, inv.start_single home leads]
    refine ⟨⟨_, first⟩, fun r' p' mine => homely mine ?_⟩
    cases seat : H.level r' p' with
    | cluster => rfl
    | leader =>
      have root := level_eq_leader.1 seat
      rw [mine, leads] at root
      cases root
  | some root =>
    -- The two sessions start one after the other: the invariant is carried over the first start
    -- before the ring of the leaders takes the second one.
    obtain ⟨rfl, _⟩ := H.leaderRing _ root leads
    obtain ⟨q, mine, leading⟩ := exists_root_seat leads
    have apart : H.view (H.moved cast r p .start) 0 q = H.view cast 0 q :=
      view_update_elsewhere (inv.applied r p .start).session?_eq fun same => by
        simp [same.2, home] at leading
    have fresh' : (H.view (H.moved cast r p .start) 0 q).progress.initiated = false := by
      rw [apart]
      exact fresh 0 q mine
    obtain ⟨flows', begun'⟩ := first.opens correct fresh'
    have second := first.moved flows'
    obtain ⟨both, mail⟩ := first.start_both home (inv.relays flows).ok mine leading rfl
      (first.relays flows').ok
    rw [mine, List.append_assoc] at second
    rw [both, mail]
    refine ⟨⟨_, second⟩, fun r' p' mine' => ?_⟩
    cases seat : H.level r' p' with
    | cluster => exact (first.grown_moved flows' r' p').initiated (homely mine' seat)
    | leader =>
      obtain rfl := ring_eq_of_seat (mine'.trans mine.symm) (seat.trans leading.symm)
      obtain rfl := H.injective 0 (mine'.trans mine.symm)
      exact begun'

end Start

theorem view_handed_of_ne {r : Fin (H.clusters + 1)} {p : Fin (H.ring r).roster.size}
    {id : Fin H.nodes} {event : NodeEvent} (other : H.member r p ≠ id) :
    H.view (H.handed cast id event) r p = H.view cast r p := by
  rw [view, view, handed, Function.update_of_ne other]

/-! ## Worlds -/

/-- A world in which a hierarchy runs as it should: its invariant holds, and the parties that have
begun are those of the nodes that were started. -/
structure Runs (H : Hierarchy K) (w : World) (started : List Nat) (cast : H.Cast) (post : H.Post)
    (due : List (Packet × Nat × Level)) : Prop where
  shows : H.Shows w cast
  invariant : H.Invariant cast post w.network.packets due
  begun : ∀ r p, (H.view cast r p).progress.initiated = true ↔ (H.member r p).val ∈ started

theorem Runs.topology (runs : H.Runs w started cast post due) : w.topology = H.topology := by
  have places : w.nodes.map (·.place) = List.ofFn H.place := by
    rw [runs.shows.nodes, List.map_ofFn]
    exact congrArg List.ofFn (funext fun id => (runs.invariant.orderly id).place_eq)
  rw [World.topology, places, runs.shows.members]
  rfl

theorem Runs.start (correct : K.Correct) (runs : H.Runs w started cast post []) {id : Nat}
    (unstarted : id ∉ started) :
    ∃ cast' post', H.Runs (w.start K id) (id :: started) cast' post' [] := by
  -- The start of a number that no node has changes nothing.
  by_cases known : id < H.nodes
  · obtain ⟨id, rfl⟩ : ∃ i : Fin H.nodes, i.val = id := ⟨⟨id, known⟩, rfl⟩
    obtain ⟨⟨post', invariant⟩, begun⟩ := runs.invariant.start correct id fun r p mine => by
      rw [← Bool.not_eq_true, runs.begun, mine]
      exact unstarted
    obtain ⟨shows, packets⟩ := runs.shows.hand id .start
    refine ⟨_, post', shows, ?_, fun r p => ?_⟩
    · rwa [World.start, packets]
    · by_cases mine : H.member r p = id
      · simp [begun r p mine, mine]
      · rw [view_handed_of_ne mine, runs.begun, List.mem_cons]
        simp [Fin.ext_iff.ne.1 mine]
  · have absent : w.nodes[id]? = none := by
      rw [runs.shows.nodes, List.getElem?_ofFn, dif_neg known]
    have same : w.start K id = w := by
      simp only [World.start, World.hand, absent]
    rw [same]
    refine ⟨cast, post, runs.shows, runs.invariant, fun r p => ?_⟩
    have other : (H.member r p).val ≠ id := fun here => known (here ▸ (H.member r p).isLt)
    rw [runs.begun, List.mem_cons]
    simp [other]

/-- Messages do not make parties begin. -/
theorem Invariant.initiated_moved (inv : H.Invariant cast post packets due)
    (r : Fin (H.clusters + 1)) (p : Fin (H.ring r).roster.size) (e : Envelope)
    (r' : Fin (H.clusters + 1)) (p' : Fin (H.ring r').roster.size) :
    (H.view (H.moved cast r p (.received e)) r' p').progress.initiated =
      (H.view cast r' p').progress.initiated := by
  have follows := (H.view cast r p).follows_received K e (cast (H.member r p)).source
  rw [inv.view_moved]
  by_cases ring : r' = r
  · subst ring
    rw [Function.update_self]
    by_cases seat : p' = p
    · subst seat
      rw [Function.update_self]
      exact follows.initiated
    · rw [Function.update_of_ne seat]
  · rw [Function.update_of_ne ring]

/-- One of those who hear a packet takes it. -/
theorem Runs.hear (correct : K.Correct) {packet : Packet} {hearer : Nat × Level}
    (runs : H.Runs w started cast post ((packet, hearer) :: due))
    (honest : H.Honest cast post packet)
    (listening : hearer ∈ H.topology.hearers packet.origin packet.level) :
    ∃ cast' post', H.Honest cast' post' packet ∧
      H.Runs (w.hand K hearer.1 (.received hearer.2 packet.envelope)) started cast' post' due := by
  have inv := runs.invariant
  cases honest with
  | @letter r m known =>
    obtain ⟨q, other, rfl⟩ := mem_hearers.1 listening
    obtain ⟨shows, packets⟩ := runs.shows.hand (H.member r q) (.received (H.level r q) m.envelope)
    have delivered := inv.deliver_letter correct known other
    dsimp only at delivered
    rw [← packets] at delivered
    refine ⟨_, _, .letter (subset_posted r known), shows, delivered, fun r' p' => ?_⟩
    have same := inv.initiated_moved r q m.envelope r' p'
    rw [Hierarchy.moved, ← inv.outcome_letter known] at same
    rw [← runs.begun, ← same]
    rfl
  | @parcel r p wrapped leads genuine =>
    obtain ⟨q, other, rfl⟩ := mem_hearers.1 listening
    obtain ⟨shows, packets⟩ := runs.shows.hand (H.member r q)
      (.received (H.level r q) (H.parcel r p wrapped).envelope)
    have later := inv.later_handed (H.member r q)
      (.received (H.level r q) (H.parcel r p wrapped).envelope)
    refine ⟨_, post, .parcel leads (genuine.later later), shows, ?_, fun r' p' => ?_⟩
    · rw [packets]
      exact inv.deliver_parcel leads genuine other
    · rw [handed, view_update_of_kept (inv.stores leads genuine other).kept]
      exact runs.begun r' p'

/-- Everyone who hears a packet takes it. -/
theorem Runs.hear_all (correct : K.Correct) {packet : Packet} (hearers : List (Nat × Level))
    (runs : H.Runs w started cast post (hearers.map fun hearer => (packet, hearer)))
    (honest : H.Honest cast post packet)
    (listening : ∀ hearer ∈ hearers, hearer ∈ H.topology.hearers packet.origin packet.level) :
    ∃ cast' post', H.Runs (hearers.foldl
      (fun w hearer => w.hand K hearer.1 (.received hearer.2 packet.envelope)) w)
        started cast' post' [] := by
  induction hearers generalizing w cast post with
  | nil => exact ⟨cast, post, runs⟩
  | cons hearer rest ih =>
    obtain ⟨cast', post', honest', runs'⟩ :=
      Runs.hear correct runs honest (listening hearer List.mem_cons_self)
    exact ih runs' honest' fun other member => listening other (List.mem_cons_of_mem _ member)

/-- The invariant when a packet has been taken out of the network and is still to be heard. -/
theorem Invariant.take (inv : H.Invariant cast post packets []) {packet : Packet}
    {rest : List Packet} (fewer : ∀ other ∈ rest, other ∈ packets)
    (kept : ∀ other ∈ packets, other = packet ∨ other ∈ rest) :
    H.Invariant cast post rest
      ((H.topology.hearers packet.origin packet.level).map fun hearer => (packet, hearer)) := by
  have outstanding : ∀ other hearer, hearer ∈ H.topology.hearers other.origin other.level →
      Outstanding packets [] other hearer → Outstanding rest
        ((H.topology.hearers packet.origin packet.level).map fun hearer => (packet, hearer))
        other hearer := by
    rintro other hearer listening (waiting | late)
    · rcases kept other waiting with rfl | left
      · exact .inr (List.mem_map_of_mem listening)
      · exact .inl left
    · cases late
  exact {
    orderly := inv.orderly
    steady := inv.steady
    honest := fun other left => inv.honest other (fewer other left)
    letters := by
      intro r p known q other
      refine (inv.letters r p known q other).imp_right fun waiting => ?_
      exact outstanding _ _ (mem_hearers.2 ⟨q, other, rfl⟩) waiting
    parcels := by
      intro r p leads installed q other
      refine (inv.parcels r p leads installed q other).imp_right fun ⟨wrapped, waiting⟩ => ?_
      exact ⟨wrapped, outstanding _ _ (mem_hearers.2 ⟨q, other, rfl⟩) waiting⟩ }

theorem Runs.step (correct : K.Correct) (runs : H.Runs w started cast post []) {w' : World}
    (stepped : w.step K id = some w') :
    ∃ cast' post', H.Runs w' started cast' post' [] := by
  rw [World.step] at stepped
  split at stepped
  next => cases stepped
  next flight rest taken =>
    obtain rfl := Option.some.inj stepped
    obtain ⟨present, fewer, kept⟩ := Network.packets_of_take taken
    have topology := runs.topology
    rw [World.topology] at topology
    simp only [World.deliver, World.topology, topology, id]
    refine Runs.hear_all correct _ ⟨⟨runs.shows.nodes, runs.shows.members⟩, ?_, runs.begun⟩
      (runs.invariant.honest _ present) fun _ listening => listening
    exact runs.invariant.take fewer kept

/-- Whatever the network delivers and whoever is started next, a hierarchy runs as it should, as
long as no node is started twice. -/
theorem Runs.after (correct : K.Correct) (moves : List World.Move)
    (runs : H.Runs w started cast post [])
    (once : ((moves.filterMap (·.node?)).reverse ++ started).Nodup) :
    ∃ cast' post', H.Runs (w.after K moves) ((moves.filterMap (·.node?)).reverse ++ started)
      cast' post' [] := by
  induction moves generalizing w started cast post with
  | nil => exact ⟨cast, post, runs⟩
  | cons move rest ih =>
    cases move with
    | start id =>
      have shifted : ((World.Move.start id :: rest).filterMap (·.node?)).reverse ++ started =
          (rest.filterMap (·.node?)).reverse ++ id :: started := by
        simp [World.Move.node?]
      rw [shifted] at once ⊢
      have unstarted := (List.nodup_cons.1 (List.nodup_append.1 once).2.1).1
      obtain ⟨cast', post', runs'⟩ := runs.start correct unstarted
      exact ih runs' once
    | step =>
      change ∃ cast' post', H.Runs (((w.step K id).getD w).after K rest) _ cast' post' []
      cases stepped : w.step K id with
      | none => exact ih runs once
      | some w' =>
        obtain ⟨cast', post', runs'⟩ := runs.step correct stepped
        exact ih runs' once

end Hierarchy

end RingAgreement.Simulation

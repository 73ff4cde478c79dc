import RingAgreement.Proofs.Hierarchy.Carrier
/-!
The invariant of a hierarchy in an honest world: every ring is in order, every node has come to its
keys without a failure, everything on its way is what a node of the hierarchy has sent, and nothing
gets lost that somebody is still to hear.
-/

namespace RingAgreement.Simulation

variable {K : Kem}

/-- A node to which nothing has happened that should not happen. -/
structure Orderly (K : Kem) (genuine : WrappedKey → Prop) (place : Place) (n : SimNode) : Prop where
  place_eq : n.place = place
  role : n.node.role = place.role
  coherent : n.node.Coherent K genuine
  alive : n.node.distributor.aborted = false
  errors : n.log.errors = []
  announced : n.log.clusterKeys = n.node.clusterKey.toList

theorem Orderly.mono {genuine genuine' : WrappedKey → Prop} {place : Place} {n : SimNode}
    (orderly : Orderly K genuine place n) (more : ∀ wrapped, genuine wrapped → genuine' wrapped) :
    Orderly K genuine' place n :=
  { orderly with coherent := orderly.coherent.mono more }

/-- A node after a step that reports no failure. -/
theorem Orderly.absorb {genuine : WrappedKey → Prop} {place : Place} {n : SimNode}
    (orderly : Orderly K genuine place n) {outcome : NodeOutcome StreamSource}
    (ok : outcome.result = .ok outcome.actions)
    (unfailing : outcome.actions.filterMap (·.error?) = [])
    (keeps : n.node.Keeps K genuine outcome) (alive : outcome.node.distributor.aborted = false) :
    Orderly K genuine place (n.absorb outcome) where
  place_eq := orderly.place_eq
  role := keeps.continues.role.trans orderly.role
  coherent := keeps.coherent
  alive := alive
  errors := by
    simp only [SimNode.absorb, ok]
    rw [NodeLog.errors_foldl_record, orderly.errors, unfailing]
    rfl
  announced := by
    simp only [SimNode.absorb, ok]
    rw [NodeLog.clusterKeys_foldl_record, orderly.announced]
    exact keeps.continues.clusterKey

/-- A packet that somebody is still to hear: it is on its way, or it is being handed out. -/
def Outstanding (packets : List Packet) (due : List (Packet × Nat × Level)) (packet : Packet)
    (hearer : Nat × Level) : Prop :=
  packet ∈ packets ∨ (packet, hearer) ∈ due

theorem Outstanding.append {packets : List Packet} {due : List (Packet × Nat × Level)}
    {packet : Packet} {hearer : Nat × Level} (outstanding : Outstanding packets due packet hearer)
    (more : List Packet) : Outstanding (packets ++ more) due packet hearer :=
  outstanding.imp_left (List.mem_append_left more)

namespace Hierarchy

variable {H : Hierarchy K}

/-- All messages that the rings have sent. -/
abbrev Post (H : Hierarchy K) :=
  (r : Fin (H.clusters + 1)) → List (Posted (H.ring r).roster.size)

/-- A message of a ring as a packet. -/
def letter (H : Hierarchy K) (r : Fin (H.clusters + 1)) (p : Posted (H.ring r).roster.size) :
    Packet :=
  ⟨H.member r p.origin, H.level r p.origin, p.envelope⟩

/-- The broadcast of a wrapped key as a packet. -/
def parcel (H : Hierarchy K) (r : Fin (H.clusters + 1)) (p : Fin (H.ring r).roster.size)
    (wrapped : WrappedKey) : Packet :=
  ⟨H.member r p, H.level r p, (Payload.wrappedKey wrapped).toEnvelope (.ofNat p) .everyone⟩

/-- What nodes of the hierarchy send. -/
inductive Honest (H : Hierarchy K) (cast : H.Cast) (post : H.Post) : Packet → Prop
  | letter {r : Fin (H.clusters + 1)} {p : Posted (H.ring r).roster.size} (posted : p ∈ post r) :
      Honest H cast post (H.letter r p)
  | parcel {r : Fin (H.clusters + 1)} {p : Fin (H.ring r).roster.size} {wrapped : WrappedKey}
      (leads : H.place (H.member r p) = ⟨r, some 0⟩) (genuine : H.Genuine cast r wrapped) :
      Honest H cast post (H.parcel r p wrapped)

/-- What holds in a hierarchy between any two steps of a node. -/
structure Invariant (H : Hierarchy K) (cast : H.Cast) (post : H.Post) (packets : List Packet)
    (due : List (Packet × Nat × Level)) : Prop where
  orderly : ∀ id, Orderly K (H.Genuine cast (H.place id).clusterRing) (H.place id) (cast id)
  steady : ∀ r, (H.ring r).Steady (H.view cast r) (post r)
  honest : ∀ packet ∈ packets, H.Honest cast post packet
  letters : ∀ r, ∀ p ∈ post r, ∀ q, q ≠ p.origin →
    HonestRing.Taken p.origin q p.envelope.kind (H.view cast r q) ∨
      Outstanding packets due (H.letter r p) (H.member r q, H.level r q)
  parcels : ∀ r p, H.place (H.member r p) = ⟨r, some 0⟩ →
    (cast (H.member r p)).node.clusterKey.isSome → ∀ q, q ≠ p →
      (cast (H.member r q)).node.distributor.Supplied ∨
        ∃ wrapped, Outstanding packets due (H.parcel r p wrapped) (H.member r q, H.level r q)

/-- The nodes at a later time: no group key is lost. -/
def Later (H : Hierarchy K) (cast cast' : H.Cast) : Prop :=
  ∀ id level key, (cast id).node.groupKey level = some key →
    (cast' id).node.groupKey level = some key

variable {cast cast' : H.Cast} {post post' : H.Post} {packets : List Packet}
  {due : List (Packet × Nat × Level)}

theorem Genuine.later (later : H.Later cast cast') {r : Nat} {wrapped : WrappedKey}
    (genuine : H.Genuine cast r wrapped) : H.Genuine cast' r wrapped := by
  obtain ⟨id, g, k, leads, clusterKey, leaderKey, wraps⟩ := genuine
  exact ⟨id, g, k, leads, later id _ g clusterKey, later id _ k leaderKey, wraps⟩

theorem Honest.later (later : H.Later cast cast') (kept : ∀ r, post r ⊆ post' r) {packet : Packet}
    (honest : H.Honest cast post packet) : H.Honest cast' post' packet := by
  cases honest with
  | letter posted => exact .letter (kept _ posted)
  | parcel leads genuine => exact .parcel leads (genuine.later later)

theorem later_update {id : Fin H.nodes} {n : SimNode} {actions : List NodeAction}
    (continues : (cast id).node.Continues actions n.node) :
    H.Later cast (Function.update cast id n) := by
  intro other level key held
  by_cases here : other = id
  · subst here
    rw [Function.update_self]
    exact continues.groupKey_eq held
  · rwa [Function.update_of_ne here]

/-- Whatever happens to a node, no group key is lost. -/
theorem Invariant.later_handed (inv : H.Invariant cast post packets due) (id : Fin H.nodes)
    (event : NodeEvent) : H.Later cast (H.handed cast id event) := by
  have credulous : (cast id).node.Coherent K fun _ => True :=
    (inv.orderly id).coherent.mono fun _ _ => trivial
  exact later_update (credulous.handle (fun _ _ => trivial) (cast id).source).continues

/-- The node at a seat has a session there. -/
theorem Invariant.session (inv : H.Invariant cast post packets due) (r : Fin (H.clusters + 1))
    (p : Fin (H.ring r).roster.size) :
    (cast (H.member r p)).node.session? (H.level r p) = some (H.view cast r p) := by
  have orderly := inv.orderly (H.member r p)
  have present : ((cast (H.member r p)).node.session? (H.level r p)).isSome := by
    cases seat : H.level r p with
    | cluster => rfl
    | leader =>
      rw [orderly.coherent.led, orderly.role, Place.role, level_eq_leader.1 seat]
      rfl
  obtain ⟨s, here⟩ := Option.isSome_iff_exists.1 present
  rw [view_of_session here, here]

/-- A session of a node belongs to one of its seats. -/
theorem Invariant.exists_seat (inv : H.Invariant cast post packets due) {id : Fin H.nodes}
    {level : Level} {s : Session} (here : (cast id).node.session? level = some s) :
    ∃ r p, H.member r p = id ∧ H.level r p = level := by
  cases level with
  | cluster => exact exists_home_seat id
  | leader =>
    have orderly := inv.orderly id
    have leading := orderly.coherent.led.1 (by rw [here]; rfl)
    rw [orderly.role] at leading
    obtain ⟨p, seat⟩ := exists_root_seat (congrArg (·.leaderRing) (leads_of_role leading))
    exact ⟨0, p, seat⟩

end Hierarchy

end RingAgreement.Simulation

import RingAgreement.Proofs.Hierarchy.Step
/-!
Deliveries in a hierarchy. A message of a ring is taken by the session that hears it, and a wrapped
key by the distributor that hears it; either way the invariant is kept, and the message need not be
heard again.
-/

namespace RingAgreement.Simulation.Hierarchy

variable {K : Kem} {H : Hierarchy K} {cast : H.Cast} {post : H.Post} {packets : List Packet}
  {due : List (Packet × Nat × Level)} {r r' : Fin (H.clusters + 1)}

/-! ## Packets and hearers -/

/-- A seat as it stands in the list of hearers. -/
def hearer (H : Hierarchy K) (r : Fin (H.clusters + 1)) (p : Fin (H.ring r).roster.size) :
    Nat × Level :=
  (H.member r p, H.level r p)

theorem ring_eq_of_hearer {p : Fin (H.ring r).roster.size} {p' : Fin (H.ring r').roster.size}
    (same : H.hearer r p = H.hearer r' p') : r = r' :=
  ring_eq_of_seat (Fin.ext (congrArg (·.1) same)) (congrArg (·.2) same)

theorem hearer_injective (r : Fin (H.clusters + 1)) : Function.Injective (H.hearer r) :=
  fun _ _ same => H.injective r (Fin.ext (congrArg (·.1) same))

/-- What a hearer has of a packet once it has taken it. -/
structure Heard (H : Hierarchy K) (cast : H.Cast) (post : H.Post) (packet : Packet)
    (hearer : Nat × Level) : Prop where
  letter : ∀ r, ∀ p ∈ post r, H.letter r p = packet → ∀ q, H.hearer r q = hearer →
    HonestRing.Taken p.origin q p.envelope.kind (H.view cast r q)
  parcel : ∀ r p wrapped, H.parcel r p wrapped = packet → ∀ q, H.hearer r q = hearer →
    (cast (H.member r q)).node.distributor.Supplied

/-- What has been heard is due no more. -/
theorem Invariant.settle {packet : Packet} {hearer : Nat × Level}
    (inv : H.Invariant cast post packets ((packet, hearer) :: due))
    (heard : H.Heard cast post packet hearer) : H.Invariant cast post packets due := by
  have settled : ∀ packet' hearer', Outstanding packets ((packet, hearer) :: due) packet' hearer' →
      Outstanding packets due packet' hearer' ∨ packet' = packet ∧ hearer' = hearer := by
    rintro packet' hearer' (waiting | late)
    · exact .inl (.inl waiting)
    · rcases List.mem_cons.1 late with now | later
      · exact .inr (Prod.mk.inj now)
      · exact .inl (.inr later)
  exact {
    orderly := inv.orderly
    steady := inv.steady
    honest := inv.honest
    letters := by
      intro r p sent q other
      rcases inv.letters r p sent q other with taken | outstanding
      · exact .inl taken
      · rcases settled _ _ outstanding with later | ⟨here, mine⟩
        · exact .inr later
        · exact .inl (heard.letter r p sent here q mine)
    parcels := by
      intro r p leads installed q other
      rcases inv.parcels r p leads installed q other with supplied | ⟨wrapped, outstanding⟩
      · exact .inl supplied
      · rcases settled _ _ outstanding with later | ⟨here, mine⟩
        · exact .inr ⟨wrapped, later⟩
        · exact .inl (heard.parcel r p wrapped here q mine) }

theorem letter_ne_parcel {posted : List (Posted (H.ring r).roster.size)}
    {session : Fin (H.ring r).roster.size → Session}
    (steady : (H.ring r).Steady session posted) {m : Posted (H.ring r).roster.size}
    (sent : m ∈ posted) {p : Fin (H.ring r').roster.size} {wrapped : WrappedKey} :
    H.letter r m ≠ H.parcel r' p wrapped := fun same =>
  (steady.not_cluster_kind sent).1 (congrArg (·.envelope.kind) same)

/-! ## Messages of a ring -/

/-- A node hands a message of a ring to its session there. -/
theorem Invariant.outcome_letter (inv : H.Invariant cast post packets due)
    {m : Posted (H.ring r).roster.size} (known : m ∈ post r) (q : Fin (H.ring r).roster.size) :
    H.outcome cast (H.member r q) (.received (H.level r q) m.envelope) =
      H.reaction cast r q (.received m.envelope) := by
  have ringKind := (inv.steady r).not_cluster_kind known
  have here := inv.session r q
  rw [outcome, Node.handle, Node.receive, here]
  split
  next => rfl
  next => rfl
  next => rfl
  next kind => exact absurd kind ringKind.1
  next kind => exact absurd kind ringKind.2

theorem Invariant.deliver_letter (correct : K.Correct) {q : Fin (H.ring r).roster.size}
    {m : Posted (H.ring r).roster.size}
    (inv : H.Invariant cast post packets ((H.letter r m, H.hearer r q) :: due))
    (known : m ∈ post r) (other : q ≠ m.origin) :
    let event := NodeEvent.received (H.level r q) m.envelope
    H.Invariant (H.handed cast (H.member r q) event)
      (H.posted cast post r q (.received m.envelope))
      (packets ++ sent (H.member r q) (H.outcome cast (H.member r q) event).actions) due := by
  intro event
  have ⟨flows, taken⟩ := (inv.steady r).deliver correct known (Ne.symm other)
    (cast (H.member r q)).source
  rw [handed, inv.outcome_letter known]
  refine (inv.moved flows).settle ⟨?_, ?_⟩
  · intro r' m' _ same q' mine
    obtain rfl := ring_eq_of_hearer mine
    obtain rfl := hearer_injective r' mine
    have origin : m'.origin = m.origin :=
      H.injective r' (Fin.ext (congrArg (·.origin) same))
    have envelope : m'.envelope = m.envelope := congrArg (·.envelope) same
    rw [origin, envelope, inv.view_moved, Function.update_self, Function.update_self]
    exact taken
  · intro r' p wrapped same
    exact absurd same.symm (letter_ne_parcel (inv.steady r) known)

/-! ## Wrapped keys -/

section Parcel

variable {p q : Fin (H.ring r).roster.size} {wrapped : WrappedKey}

theorem level_of_led (leads : H.place (H.member r p) = ⟨r, some 0⟩) (other : q ≠ p) :
    H.level r q = .cluster := by
  have member := role_of_led leads other
  cases seat : H.level r q with
  | cluster => rfl
  | leader =>
    rw [Place.role, level_eq_leader.1 seat] at member
    cases member

/-- A node hands the wrapped key of its cluster to its distributor. -/
theorem Invariant.outcome_parcel (inv : H.Invariant cast post packets due)
    (leads : H.place (H.member r p) = ⟨r, some 0⟩) (other : q ≠ p) :
    let n := cast (H.member r q)
    H.outcome cast (H.member r q) (.received (H.level r q) (H.parcel r p wrapped).envelope) =
      ⟨(n.node.receiveWrapped wrapped).1, (n.node.receiveWrapped wrapped).2, n.source⟩ := by
  intro n
  have own := level_of_led leads other
  have seat : H.view cast r q = n.node.cluster := by
    rw [view, own]
    rfl
  have sound := (inv.steady r).sound
  have position := sound.own_eq q
  have roster := HonestRing.roster_of_member (sound.member q)
  rw [seat] at position roster
  have inside : p.val < n.node.cluster.roster.size := by
    rw [roster]
    exact p.isLt
  have foreign : p.val ≠ n.node.cluster.own := by
    rw [position]
    exact fun same => other (Fin.ext same.symm)
  let sender : Fin n.node.cluster.roster.size := ⟨p.val, inside⟩
  have apart : (sender : Nat) ≠ n.node.cluster.own := foreign
  rw [own]
  exact Node.handle_wrapped apart wrapped n.source

/-- A member takes the wrapped key of its cluster without trouble. -/
theorem Invariant.stores (inv : H.Invariant cast post packets due)
    (leads : H.place (H.member r p) = ⟨r, some 0⟩) (genuine : H.Genuine cast r wrapped)
    (other : q ≠ p) : (cast (H.member r q)).node.Stores
      (H.outcome cast (H.member r q)
        (.received (H.level r q) (H.parcel r p wrapped).envelope)) := by
  have orderly := inv.orderly (H.member r q)
  rw [inv.outcome_parcel leads other]
  refine Node.stores_of_member (orderly.role.trans (role_of_led leads other)) orderly.alive ?_ _
  intro cluster keyed
  have held : (H.view cast r q).groupKey = some cluster := by
    rw [groupKey_view, level_of_led leads other, ← orderly.coherent.known]
    exact keyed
  obtain ⟨k, _, wraps⟩ := genuine.wraps (inv.steady r) held
  exact ⟨k.key, wraps⟩

theorem Invariant.keeps_parcel (inv : H.Invariant cast post packets due)
    (leads : H.place (H.member r p) = ⟨r, some 0⟩) (genuine : H.Genuine cast r wrapped)
    (other : q ≠ p) : (cast (H.member r q)).node.Keeps K (H.Genuine cast r)
      (H.outcome cast (H.member r q)
        (.received (H.level r q) (H.parcel r p wrapped).envelope)) := by
  have orderly := inv.orderly (H.member r q)
  rw [level_eq_cluster.1 (level_of_led leads other)] at orderly
  rw [inv.outcome_parcel leads other]
  exact orderly.coherent.receiveWrapped genuine _

theorem Invariant.orderly_parcel (inv : H.Invariant cast post packets due)
    (leads : H.place (H.member r p) = ⟨r, some 0⟩) (genuine : H.Genuine cast r wrapped)
    (other : q ≠ p) (id : Fin H.nodes) :
    let event := NodeEvent.received (H.level r q) (H.parcel r p wrapped).envelope
    Orderly K (H.Genuine (H.handed cast (H.member r q) event) (H.place id).clusterRing)
      (H.place id) (H.handed cast (H.member r q) event id) := by
  intro event
  refine Orderly.mono ?_ fun _ => Genuine.later (inv.later_handed (H.member r q) event)
  by_cases here : id = H.member r q
  · subst here
    have stores := inv.stores leads genuine other
    rw [handed, Function.update_self]
    refine (inv.orderly _).absorb stores.ok stores.unfailing ?_
      (stores.alive.trans (inv.orderly _).alive)
    rw [level_eq_cluster.1 (level_of_led leads other)]
    exact inv.keeps_parcel leads genuine other
  · rw [handed, Function.update_of_ne here]
    exact inv.orderly id

theorem Invariant.deliver_parcel
    (inv : H.Invariant cast post packets ((H.parcel r p wrapped, H.hearer r q) :: due))
    (leads : H.place (H.member r p) = ⟨r, some 0⟩) (genuine : H.Genuine cast r wrapped)
    (other : q ≠ p) :
    let event := NodeEvent.received (H.level r q) (H.parcel r p wrapped).envelope
    H.Invariant (H.handed cast (H.member r q) event) post
      (packets ++ sent (H.member r q) (H.outcome cast (H.member r q) event).actions) due := by
  intro event
  have stores := inv.stores leads genuine other
  have follower := role_of_led leads other
  have quiet : sent (H.member r q) (H.outcome cast (H.member r q) event).actions = [] :=
    List.eq_nil_iff_forall_not_mem.2 fun packet member =>
      stores.silent _ _ (mem_sent.1 member).2
  have later := inv.later_handed (H.member r q) event
  have same : H.view (H.handed cast (H.member r q) event) = H.view cast :=
    view_update_of_kept stores.kept
  rw [quiet, List.append_nil]
  -- What is due shrinks last: up to then the parcel counts as still to be heard, and it may only
  -- be struck off once its hearer is supplied.
  have given : H.Invariant (H.handed cast (H.member r q) event) post packets
      ((H.parcel r p wrapped, H.hearer r q) :: due) := {
    orderly := inv.orderly_parcel leads genuine other
    steady := by
      rw [same]
      exact inv.steady
    honest := fun packet member =>
      (inv.honest packet member).later later fun _ => List.Subset.refl _
    letters := by
      rw [same]
      exact inv.letters
    parcels := by
      intro r' p' leads' installed q' other'
      have elsewhere : H.member r' p' ≠ H.member r q := by
        intro here
        rw [← here, role_of_leads leads'] at follower
        cases follower
      rw [handed, Function.update_of_ne elsewhere] at installed
      refine (inv.parcels r' p' leads' installed q' other').imp_left fun supplied => ?_
      by_cases here : H.member r' q' = H.member r q
      · rw [here, handed, Function.update_self]
        exact stores.supplied
      · rw [handed, Function.update_of_ne here]
        exact supplied }
  refine given.settle ⟨?_, ?_⟩
  · intro r' m known here
    exact absurd here (letter_ne_parcel (given.steady r') known)
  · intro r' _ _ _ q' mine
    obtain rfl := ring_eq_of_hearer mine
    obtain rfl := hearer_injective r' mine
    rw [handed, Function.update_self]
    exact stores.supplied

end Parcel

end RingAgreement.Simulation.Hierarchy

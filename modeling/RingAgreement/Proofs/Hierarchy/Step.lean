import RingAgreement.Proofs.Hierarchy.Invariant
/-!
Steps in a hierarchy. What a node does with an event for one of its seats keeps the invariant, as
long as the ring of the seat takes the event well.
-/

namespace RingAgreement.Simulation.Hierarchy

variable {K : Kem} {H : Hierarchy K} {cast : H.Cast} {post : H.Post} {packets : List Packet}
  {due : List (Packet × Nat × Level)}

section Seat

variable {r : Fin (H.clusters + 1)} {p : Fin (H.ring r).roster.size} {event : SessionEvent}

/-- The answer of the session at a seat to an event. -/
def answer (H : Hierarchy K) (cast : H.Cast) (r : Fin (H.clusters + 1))
    (p : Fin (H.ring r).roster.size) (event : SessionEvent) : SessionOutcome StreamSource :=
  (H.view cast r p).handle K event (cast (H.member r p)).source

/-- The answer of the node at a seat to an event for that seat. -/
def reaction (H : Hierarchy K) (cast : H.Cast) (r : Fin (H.clusters + 1))
    (p : Fin (H.ring r).roster.size) (event : SessionEvent) : NodeOutcome StreamSource :=
  (cast (H.member r p)).node.handleSession K (H.level r p) (H.view cast r p) event
    (cast (H.member r p)).source

/-- The nodes after an event for a seat. -/
def moved (H : Hierarchy K) (cast : H.Cast) (r : Fin (H.clusters + 1))
    (p : Fin (H.ring r).roster.size) (event : SessionEvent) : H.Cast :=
  Function.update cast (H.member r p) ((cast (H.member r p)).absorb (H.reaction cast r p event))

def posted (H : Hierarchy K) (cast : H.Cast) (post : H.Post) (r : Fin (H.clusters + 1))
    (p : Fin (H.ring r).roster.size) (event : SessionEvent) : H.Post :=
  Function.update post r (post r ++ HonestRing.mail p (H.answer cast r p event).actions)

theorem subset_posted (r' : Fin (H.clusters + 1)) : post r' ⊆ H.posted cast post r p event r' := by
  rw [posted]
  by_cases here : r' = r
  · subst here
    rw [Function.update_self]
    exact List.subset_append_left _ _
  · rw [Function.update_of_ne here]
    exact fun _ => id

variable (inv : H.Invariant cast post packets due)
include inv

theorem Invariant.applied (r : Fin (H.clusters + 1)) (p : Fin (H.ring r).roster.size)
    (event : SessionEvent) : (cast (H.member r p)).node.Applied (H.level r p) (H.view cast r p)
      (H.answer cast r p event) (H.reaction cast r p event) :=
  Node.handleSession_cases _ ((inv.steady r).coherent p) _ event _

theorem Invariant.view_moved : H.view (H.moved cast r p event) = Function.update (H.view cast) r
    (Function.update (H.view cast r) p (H.answer cast r p event).session) :=
  view_update (inv.applied r p event).session?_eq

theorem Invariant.keeps : (cast (H.member r p)).node.Keeps K
    (H.Genuine cast (H.place (H.member r p)).clusterRing) (H.reaction cast r p event) := by
  have coherent := (inv.steady r).coherent p
  exact (inv.applied r p event).keeps (inv.orderly _).coherent (inv.session r p)
    (coherent.handle event _) ((H.view cast r p).sameParty_handle K event _)

theorem Invariant.later_moved : H.Later cast (H.moved cast r p event) :=
  later_update inv.keeps.continues

variable (flows : HonestRing.Flows (H.view cast r) (post r) p (H.answer cast r p event))
include flows

theorem Invariant.steady_moved (r' : Fin (H.clusters + 1)) :
    (H.ring r').Steady (H.view (H.moved cast r p event) r') (H.posted cast post r p event r') := by
  rw [inv.view_moved, posted]
  by_cases here : r' = r
  · subst here
    rw [Function.update_self, Function.update_self]
    exact (inv.steady r').step flows
  · rw [Function.update_of_ne here, Function.update_of_ne here]
    exact inv.steady r'

theorem Invariant.relays : (cast (H.member r p)).node.Relays (H.level r p)
    (H.answer cast r p event) (H.reaction cast r p event) := by
  have coherent := (inv.steady r).coherent p
  refine (inv.applied r p event).relays (inv.orderly _).coherent (inv.session r p)
    (coherent.handle event _) ((H.view cast r p).sameParty_handle K event _) flows.unfailing ?_
  intro own key made wrapped kept
  -- The wrapped key that was kept is the one of this cluster, so the new group key opens it.
  have genuine := ((inv.orderly _).coherent.distributor.pending wrapped kept).2.2
  rw [level_eq_cluster.1 own] at genuine
  have held : (H.view (H.moved cast r p event) r p).groupKey = some key := by
    rw [inv.view_moved, Function.update_self, Function.update_self]
    exact made
  obtain ⟨k, _, wraps⟩ := (genuine.later inv.later_moved).wraps (inv.steady_moved flows r) held
  exact ⟨k.key, wraps⟩

theorem Invariant.orderly_moved (id : Fin H.nodes) :
    Orderly K (H.Genuine (H.moved cast r p event) (H.place id).clusterRing) (H.place id)
      (H.moved cast r p event id) := by
  have later : H.Later cast (H.moved cast r p event) := inv.later_moved
  refine Orderly.mono ?_ fun _ => Genuine.later later
  by_cases here : id = H.member r p
  · subst here
    rw [moved, Function.update_self]
    have relays := inv.relays flows
    exact (inv.orderly _).absorb relays.ok relays.unfailing inv.keeps
      (relays.alive.trans (inv.orderly _).alive)
  · rw [moved, Function.update_of_ne here]
    exact inv.orderly id

theorem Invariant.grown_moved (r' : Fin (H.clusters + 1)) (q : Fin (H.ring r').roster.size) :
    (H.view cast r' q).Grown (H.view (H.moved cast r p event) r' q) := by
  rw [inv.view_moved]
  by_cases ring : r' = r
  · subst ring
    rw [Function.update_self]
    by_cases seat : q = p
    · subst seat
      rw [Function.update_self]
      exact flows.grown
    · rw [Function.update_of_ne seat]
      exact .refl _
  · rw [Function.update_of_ne ring]
    exact .refl _

theorem Invariant.supplied_moved {id : Fin H.nodes}
    (supplied : (cast id).node.distributor.Supplied) :
    (H.moved cast r p event id).node.distributor.Supplied := by
  by_cases here : id = H.member r p
  · subst here
    rw [moved, Function.update_self]
    exact (inv.relays flows).supplied supplied
  · rw [moved, Function.update_of_ne here]
    exact supplied

omit inv flows in
/-- What a leader broadcasts is a parcel of its seat in its cluster. -/
theorem parcel_eq {post : List (Posted (H.ring r).roster.size)}
    (steady : (H.ring r).Steady (H.view cast r) post) (own : H.level r p = .cluster)
    (wrapped : WrappedKey) : H.parcel r p wrapped =
      ⟨H.member r p, .cluster, (cast (H.member r p)).node.parcel wrapped⟩ := by
  have seat : H.view cast r p = (cast (H.member r p)).node.cluster := by
    rw [view, own]
    rfl
  have index : (cast (H.member r p)).node.clusterIndex = .ofNat p := by
    have position := steady.sound.own_eq p
    rw [seat] at position
    exact congrArg UInt32.ofNat position
  rw [parcel, own, Node.parcel, index]

theorem Invariant.honest_moved {packet : Packet}
    (member : packet ∈ packets ++ sent (H.member r p) (H.reaction cast r p event).actions) :
    H.Honest (H.moved cast r p event) (H.posted cast post r p event) packet := by
  rcases List.mem_append.1 member with old | new
  · exact (inv.honest packet old).later inv.later_moved subset_posted
  obtain ⟨origin, shown⟩ := mem_sent.1 new
  obtain ⟨_, level, envelope⟩ := packet
  obtain rfl : _ = (H.member r p).val := origin
  rcases (inv.relays flows).sent level envelope shown with ⟨rfl, relayed⟩ | broadcast
  · refine .letter (p := ⟨p, envelope⟩) ?_
    rw [posted, Function.update_self]
    exact List.mem_append_right _ (List.mem_map_of_mem relayed)
  · obtain ⟨rfl, leading, g, k, clusterKey, leaderKey, rfl⟩ := broadcast
    rw [(inv.orderly _).role] at leading
    have leads := leads_of_role leading
    obtain ⟨home, seat, here, own⟩ := exists_home_seat (H.member r p)
    have after : (H.moved cast r p event (H.member r p)).node =
        (H.reaction cast r p event).node := by
      rw [moved, Function.update_self]
      rfl
    have broadcast := parcel_eq (inv.steady_moved flows _) own
      ((WrappingKey.derive g).wrap k.key)
    rw [here, after] at broadcast
    rw [← broadcast]
    rw [← here, level_eq_cluster.1 own] at leads
    refine .parcel leads ⟨H.member home seat, g, k, leads, ?_, ?_, rfl⟩
    · rw [here, after, clusterKey]
    · rw [here, after, leaderKey]

theorem Invariant.letters_moved (r' : Fin (H.clusters + 1)) {m : Posted (H.ring r').roster.size}
    (member : m ∈ H.posted cast post r p event r') {q : Fin (H.ring r').roster.size}
    (other : q ≠ m.origin) :
    HonestRing.Taken m.origin q m.envelope.kind (H.view (H.moved cast r p event) r' q) ∨
      Outstanding (packets ++ sent (H.member r p) (H.reaction cast r p event).actions) due
        (H.letter r' m) (H.member r' q, H.level r' q) := by
  have old : m ∈ post r' → _ := fun known =>
    (inv.letters r' m known q other).imp (fun taken => taken.grown (inv.grown_moved flows r' q))
      (fun outstanding => outstanding.append
        (sent (H.member r p) (H.reaction cast r p event).actions))
  rw [posted] at member
  by_cases here : r' = r
  · subst here
    rw [Function.update_self] at member
    rcases List.mem_append.1 member with known | new
    · exact old known
    · obtain ⟨e, relayed, rfl⟩ := List.mem_map.1 new
      exact .inr (.inl (List.mem_append_right _
        (mem_sent.2 ⟨rfl, (inv.relays flows).relayed e relayed⟩)))
  · rw [Function.update_of_ne here] at member
    exact old member

theorem Invariant.parcels_moved (r' : Fin (H.clusters + 1)) (p' : Fin (H.ring r').roster.size)
    (leads : H.place (H.member r' p') = ⟨r', some 0⟩)
    (installed : (H.moved cast r p event (H.member r' p')).node.clusterKey.isSome)
    {q : Fin (H.ring r').roster.size} (other : q ≠ p') :
    (H.moved cast r p event (H.member r' q)).node.distributor.Supplied ∨
      ∃ wrapped, Outstanding (packets ++ sent (H.member r p) (H.reaction cast r p event).actions)
        due (H.parcel r' p' wrapped) (H.member r' q, H.level r' q) := by
  by_cases before : (cast (H.member r' p')).node.clusterKey.isSome
  · refine (inv.parcels r' p' leads before q other).imp (inv.supplied_moved flows) ?_
    rintro ⟨wrapped, outstanding⟩
    exact ⟨wrapped, outstanding.append _⟩
  · have here : H.member r' p' = H.member r p := by
      by_contra elsewhere
      rw [moved, Function.update_of_ne elsewhere] at installed
      exact before installed
    have own : H.level r' p' = .cluster := level_eq_cluster.2 (by rw [leads])
    have broadcast := parcel_eq (inv.steady_moved flows _) own
    rw [here] at broadcast leads before installed
    rw [moved, Function.update_self] at installed
    have leading := (inv.orderly (H.member r p)).role.trans (role_of_leads leads)
    obtain ⟨wrapped, shown⟩ := (inv.relays flows).broadcast leading
      (Option.not_isSome_iff_eq_none.1 before) installed
    refine .inr ⟨wrapped, .inl (List.mem_append_right _ (mem_sent.2 ?_))⟩
    rw [broadcast, moved, Function.update_self]
    exact ⟨rfl, shown⟩

/-- An event that the ring of a seat takes well keeps the invariant. -/
theorem Invariant.moved : H.Invariant (H.moved cast r p event) (H.posted cast post r p event)
    (packets ++ sent (H.member r p) (H.reaction cast r p event).actions) due where
  orderly := inv.orderly_moved flows
  steady := inv.steady_moved flows
  honest := fun _ => inv.honest_moved flows
  letters := fun r' _ member _ => inv.letters_moved flows r' member
  parcels := fun r' p' leads installed _ => inv.parcels_moved flows r' p' leads installed

end Seat

end RingAgreement.Simulation.Hierarchy

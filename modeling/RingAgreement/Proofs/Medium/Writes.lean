import RingAgreement.Proofs.Medium.Sound
/-!
The writes of honest parties. Each one keeps the invariant of the ring when what it writes fits
what the neighbours hold.
-/

namespace RingAgreement

namespace Session

/-- The end of a step: a state is named, and a group key may be stored. -/
def settled (s : Session) (state : SessionState) (key : Option GroupKey) : Session :=
  { s with state := state, progress := { s.progress with groupKey := key } }

end Session

namespace HonestRing.Sound

variable {K : Kem} {ring : HonestRing K} {session : Fin ring.roster.size → Session}
  {posted : List (Posted ring.roster.size)}

theorem own_eq (sound : ring.Sound session posted) (i : Fin ring.roster.size) :
    ((session i).own : Nat) = i := (sound.member i).own_eq

theorem opened (sound : ring.Sound session posted) {i : Fin ring.roster.size}
    {offer : Handshake.Offer} {transcript : Handshake.Transcript} {seed : Bytes 32}
    (fresh : (session i).progress.initiated = false)
    (made : Handshake.initiate K (ring.pair (ring.roster.right i)).publicKey seed =
      .ok (offer, transcript)) :
    ring.Change session i ((session i).opened transcript) [.akeInit offer] where
  member := (sound.member i).trans ⟨_, _, rfl⟩
  alive := sound.alive i
  grown := ⟨fun _ => rfl, fun _ => id, fun _ => id, fun _ _ => id, fun _ _ => .inr fresh⟩
  pending := fun _ => .inl rfl
  answered := sound.answered i
  linked := sound.linked i
  owned := sound.owned i
  copied := fun j _ => sound.copied i j
  backed := by
    intro p member
    obtain rfl := List.mem_singleton.1 member
    refine .offer ?_ made fun t kept => ?_
    · rw [Function.update_self]
      rfl
    · rw [Function.update_self] at kept
      exact (Option.some.inj kept).symm
  counted := by
    intro kind
    cases kind with
    | akeInit => simp [Session.tally, Session.opened, Payload.kind, fresh]
    | _ => rfl

theorem answered_with (sound : ring.Sound session posted) {i : Fin ring.roster.size}
    {response : Handshake.Response} {key : SharedSecret}
    (fresh : (session i).progress.keyLeft = none)
    (begun : (session (ring.roster.left i)).progress.initiated = true)
    (fits : ∀ t, (session (ring.roster.left i)).progress.transcript = some t →
      Handshake.finalize K response t (ring.pair (ring.roster.left i)).secretKey = .ok key) :
    ring.Change session i ((session i).answered key) [.akeRespond response] where
  member := (sound.member i).trans ⟨_, _, rfl⟩
  alive := sound.alive i
  grown := by
    refine ⟨id, fun key' held => ?_, fun _ => id, fun _ _ => id, fun _ => .inl⟩
    rw [fresh] at held
    cases held
  pending := sound.pending i
  answered := fun _ => begun
  linked := sound.linked i
  owned := by
    intro c stored
    obtain ⟨_, _, _, held, _⟩ := sound.owned i c stored
    rw [fresh] at held
    cases held
  copied := fun j _ => sound.copied i j
  backed := by
    intro p member
    obtain rfl := List.mem_singleton.1 member
    have held : (Function.update session i ((session i).answered key) i).progress.keyLeft =
        some key := by
      rw [Function.update_self]
      rfl
    refine .response held ?_
    rw [Function.update_of_ne (ring.roster.left_ne i)]
    exact fits
  counted := by
    intro kind
    cases kind with
    | akeRespond => simp [Session.tally, Session.answered, Payload.kind, fresh]
    | _ => rfl

theorem confirmed (sound : ring.Sound session posted) {i : Fin ring.roster.size}
    {key : SharedSecret} (fresh : (session i).progress.keyRight = none)
    (linked : (session (ring.roster.right i)).progress.keyLeft = some key) :
    ring.Change session i ((session i).confirmed key) [] where
  member := (sound.member i).trans ⟨_, _, rfl⟩
  alive := sound.alive i
  grown := by
    refine ⟨id, fun _ => id, fun key' held => ?_, fun _ _ => id, fun t kept => ?_⟩
    · rw [fresh] at held
      cases held
    · cases kept
  pending := fun _ => .inr rfl
  answered := sound.answered i
  linked := by
    intro key' held
    rw [linked]
    exact held
  owned := by
    intro c stored
    obtain ⟨_, _, held, _⟩ := sound.owned i c stored
    rw [fresh] at held
    cases held
  copied := fun j _ => sound.copied i j
  backed := by simp
  counted := by
    intro kind
    cases kind
    all_goals rfl

theorem stored (sound : ring.Sound session posted) {i j : Fin ring.roster.size} (foreign : j ≠ i)
    {sender : Fin (session i).roster.size} (same : (sender : Nat) = j) {c : Contribution}
    (fresh : (session i).slot sender = none) (theirs : (session j).slot j = some c) :
    ring.Change session i ((session i).withContribution sender c) [] := by
  have elsewhere : ∀ k : Fin ring.roster.size, k ≠ j →
      ((session i).withContribution sender c).slot k = (session i).slot k := by
    intro k other
    rw [Session.slot_withContribution, if_neg]
    exact fun hit => other (Fin.ext (hit.symm.trans same))
  exact {
    member := (sound.member i).trans ⟨_, _, rfl⟩
    alive := sound.alive i
    grown := Session.grown_withContribution fresh c
    pending := sound.pending i
    answered := sound.answered i
    linked := sound.linked i
    owned := by
      intro d held
      rw [elsewhere i foreign.symm] at held
      exact sound.owned i d held
    copied := by
      intro k _ d held
      by_cases hit : k = j
      · subst hit
        rw [Session.slot_withContribution, if_pos same] at held
        rw [theirs]
        exact held
      · rw [elsewhere k hit] at held
        exact sound.copied i k d held
    backed := by simp
    counted := by
      intro kind
      have own := elsewhere i foreign.symm
      rw [← sound.own_eq i] at own
      cases kind with
      | shareBroadcast => exact congrArg (·.isSome.toNat) own.symm
      | _ => rfl }

theorem contributed (sound : ring.Sound session posted) {i : Fin ring.roster.size}
    {right left : SharedSecret} {c : Contribution}
    (due : (session i).slot (session i).own = none)
    (rightKey : (session i).progress.keyRight = some right)
    (leftKey : (session i).progress.keyLeft = some left)
    (share : c.share = .ofNeighborKeys right left)
    (opens : c.OpensAt K (ring.roster.party i).publicKey i) :
    ring.Change session i ((session i).withContribution (session i).own c) [.shareBroadcast c] := by
  have own := sound.own_eq i
  have here : ((session i).withContribution (session i).own c).slot i = some c := by
    rw [Session.slot_withContribution, if_pos own]
  exact {
    member := (sound.member i).trans ⟨_, _, rfl⟩
    alive := sound.alive i
    grown := Session.grown_withContribution due c
    pending := sound.pending i
    answered := sound.answered i
    linked := sound.linked i
    owned := by
      intro d held
      obtain rfl := Option.some.inj (here.symm.trans held)
      exact ⟨right, left, rightKey, leftKey, share, opens⟩
    copied := by
      intro k other d held
      rw [Session.slot_withContribution, if_neg] at held
      · exact sound.copied i k d held
      · exact fun hit => other (Fin.ext (hit.symm.trans own))
    backed := by
      intro p member
      obtain rfl := List.mem_singleton.1 member
      refine .share ?_
      rw [Function.update_self]
      exact here
    counted := by
      intro kind
      rw [← own] at here
      cases kind with
      | shareBroadcast =>
        have stored : ((session i).withContribution (session i).own c).tally .shareBroadcast = 1 :=
          congrArg (·.isSome.toNat) here
        rw [stored]
        simp [Session.tally, Payload.kind, due]
      | _ => rfl }

theorem settled (sound : ring.Sound session posted) (i : Fin ring.roster.size)
    {state : SessionState} (alive : state ≠ .aborted) (key : Option GroupKey) :
    ring.Change session i ((session i).settled state key) [] where
  member := (sound.member i).trans ⟨_, _, rfl⟩
  alive := alive
  grown := ⟨id, fun _ => id, fun _ => id, fun _ _ => id, fun _ => .inl⟩
  pending := sound.pending i
  answered := sound.answered i
  linked := sound.linked i
  owned := sound.owned i
  copied := fun j _ => sound.copied i j
  backed := by simp
  counted := by
    intro kind
    cases kind
    all_goals rfl

end HonestRing.Sound

end RingAgreement

import RingAgreement.Proofs.Medium.Writes
/-!
The links of a ring of honest parties. A party that has all contributions has the shares that the
links make, so its checks pass, and the key it derives is the one that all links amount to.
-/

namespace RingAgreement.HonestRing

variable {K : Kem} (ring : HonestRing K) (session : Fin ring.roster.size → Session)

/-- The keys of the links by the party on their right, once these parties have them. -/
def links (i : Fin ring.roster.size) : SharedSecret := ((session i).progress.keyLeft).getD default

/-- The one group key that a ring can end with. -/
def linkedKey : GroupKey := .derive (List.ofFn (ring.links session)) ring.roster.ids

variable {ring session} {posted : List (Posted ring.roster.size)}

theorem links_of_keyLeft {i : Fin ring.roster.size} {left : SharedSecret}
    (leftKey : (session i).progress.keyLeft = some left) : ring.links session i = left := by
  rw [links, leftKey, Option.getD_some]

/-- A contribution that is anywhere in the ring is its party's own, with the share that the links
on its two sides make. -/
theorem Sound.share_of_slot (sound : ring.Sound session posted) {i j : Fin ring.roster.size}
    {c : Contribution} (stored : (session i).slot j = some c) :
    c.share = .ofNeighborKeys (ring.links session (ring.roster.right j)) (ring.links session j) ∧
      c.OpensAt K (ring.roster.party j).publicKey j := by
  obtain ⟨right, left, rightKey, leftKey, share, opens⟩ :=
    sound.owned j c (sound.copied i j c stored)
  rw [links_of_keyLeft (sound.linked j right rightKey), links_of_keyLeft leftKey]
  exact ⟨share, opens⟩

variable {s : Session} {i : Fin ring.roster.size}

/-- The checks of a party pass on shares that the links make. -/
theorem verified_of_links (member : (ring.fresh i).SameParty s)
    (links : Fin ring.roster.size → SharedSecret)
    (shares : ∀ j : Fin ring.roster.size, ∃ c, s.slot j = some c ∧
      c.share = .ofNeighborKeys (links (ring.roster.right j)) (links j) ∧
        c.OpensAt K (ring.roster.party j).publicKey j) : ∃ c, s.Verified K c := by
  obtain ⟨state, progress, rfl⟩ := member
  choose c filled made opens using shares
  refine ⟨c, filled, ?_, opens⟩
  have listed : (List.ofFn fun j => (c j).share) = Share.ofLinks (List.ofFn links) := by
    rw [Share.ofLinks_ofFn]
    exact congrArg List.ofFn (funext made)
  have closed := Share.isClosed_ofLinks (List.ofFn links)
  rw [← listed] at closed
  exact of_decide_eq_true closed

/-- The group key that a party derives from shares that the links make. -/
theorem keyFrom_of_links (member : (ring.fresh i).SameParty s)
    {c : Fin s.roster.size → Contribution}
    (filled : ∀ j : Fin s.roster.size, s.slot j = some (c j))
    (links : Fin ring.roster.size → SharedSecret)
    (made : ∀ (j : Fin ring.roster.size) (d : Contribution), s.slot j = some d →
      d.share = .ofNeighborKeys (links (ring.roster.right j)) (links j)) :
    s.keyFrom (links i) c = .derive (List.ofFn links) ring.roster.ids := by
  obtain ⟨state, progress, rfl⟩ := member
  have listed : (List.ofFn fun j => (c j).share) = Share.ofLinks (List.ofFn links) := by
    rw [Share.ofLinks_ofFn]
    exact congrArg List.ofFn (funext fun j => made j (c j) (filled j))
  have inside : i.val < (List.ofFn links).length := by simp
  have walked := Share.leftKeys_ofLinks (List.ofFn links) i inside
  rw [List.getElem_ofFn] at walked
  rw [Session.keyFrom, listed]
  exact congrArg (GroupKey.derive · ring.roster.ids) walked

theorem Sound.verified (sound : ring.Sound session posted) (i : Fin ring.roster.size)
    (filled : ∀ j : Fin ring.roster.size, ((session i).slot j).isSome) :
    ∃ c, (session i).Verified K c := by
  refine verified_of_links (sound.member i) (ring.links session) fun j => ?_
  obtain ⟨c, stored⟩ := Option.isSome_iff_exists.1 (filled j)
  exact ⟨c, stored, sound.share_of_slot stored⟩

theorem Sound.keyFrom (sound : ring.Sound session posted) {i : Fin ring.roster.size}
    {c : Fin (session i).roster.size → Contribution} (verified : (session i).Verified K c)
    {left : SharedSecret} (leftKey : (session i).progress.keyLeft = some left) :
    (session i).keyFrom left c = ring.linkedKey session := by
  rw [← links_of_keyLeft leftKey]
  exact keyFrom_of_links (sound.member i) verified.filled _ fun j d stored =>
    (sound.share_of_slot stored).1

end RingAgreement.HonestRing

import RingAgreement.Proofs.Ring.Walk
import RingAgreement.Ring.GroupKey
/-!
Left keys by position. Around a ring whose shares cancel out, every share leads from the left key at
its position to the left key at the next one, the last share back to the first position; so it does
not matter at which party a walk starts.
-/

namespace RingAgreement

/-! ## Positions -/

variable {n : Nat}

/-- The position after `i` around a ring. -/
def nextPosition (i : Fin n) : Fin n := ⟨(i + 1) % n, Nat.mod_lt _ i.pos⟩

/-- The position before `i` around a ring. -/
def previousPosition (i : Fin n) : Fin n := ⟨(i + n - 1) % n, Nat.mod_lt _ i.pos⟩

theorem previous_next (i : Fin n) : previousPosition (nextPosition i) = i := by
  have here := i.isLt
  apply Fin.ext
  simp only [previousPosition, nextPosition]
  rcases Nat.lt_or_ge (i + 1) n with inside | last
  · rw [Nat.mod_eq_of_lt inside, show i.val + 1 + n - 1 = i + n by omega, Nat.add_mod_right,
      Nat.mod_eq_of_lt here]
  · rw [show i.val + 1 = n by omega, Nat.mod_self, Nat.zero_add, Nat.mod_eq_of_lt (by omega)]
    omega

/-- Turning a ring by one position. -/
theorem rotate_ofFn {α : Type} (f : Fin n → α) :
    (List.ofFn f).rotate 1 = List.ofFn fun i => f (nextPosition i) := by
  apply List.ext_getElem
  · simp
  · intro i _ _
    simp only [List.getElem_rotate, List.getElem_ofFn, List.length_ofFn]
    rfl

namespace Share

theorem ofLinks_ofFn_next (links : Fin n → SharedSecret) :
    ofLinks (List.ofFn links) =
      List.ofFn fun i => ofNeighborKeys (links (nextPosition i)) (links i) := by
  rw [ofLinks, rotate_ofFn]
  apply List.ext_getElem
  · simp
  · intro i _ _
    simp

/-! ## Left keys -/

theorem total_take_succ {shares : List Share} {i : Nat} (inside : i < shares.length) :
    total (shares.take (i + 1)) = total (shares.take i) ^^^ shares[i].bytes := by
  rw [List.take_succ_eq_append_getElem inside, total_append, total_cons]
  simp [total]

section Closed

variable {shares : List Share} {own : Nat} {left : SharedSecret}

theorem length_leftKeys (inside : own < shares.length) (closed : total shares = Bytes.zero 32) :
    (leftKeys own left shares).length = shares.length := by
  rw [leftKeys_eq_walk inside closed, length_walk]

/-- The left key at a position: what is met after the shares before it were crossed. -/
theorem getElem?_leftKeys (inside : own < shares.length) (closed : total shares = Bytes.zero 32)
    {i : Nat} (here : i < shares.length) :
    (leftKeys own left shares)[i]? =
      some ⟨left.bytes ^^^ total (shares.take own) ^^^ total (shares.take i)⟩ := by
  rw [leftKeys_eq_walk inside closed, getElem?_walk here]

theorem leftKeys_own (inside : own < shares.length) (closed : total shares = Bytes.zero 32) :
    (leftKeys own left shares)[own]? = some left := by
  rw [getElem?_leftKeys inside closed inside, Bytes.xor_xor_cancel_right]

/-- A share leads from its left key to the next one, also from the last position to the first. -/
theorem leftKeys_next (inside : own < shares.length) (closed : total shares = Bytes.zero 32)
    {i : Nat} (here : i < shares.length) :
    (leftKeys own left shares)[(i + 1) % shares.length]? =
      (leftKeys own left shares)[i]?.map fun key => ⟨key.bytes ^^^ shares[i].bytes⟩ := by
  have crossed := total_take_succ here
  rw [getElem?_leftKeys inside closed here, Option.map_some, Bytes.xor_assoc, ← crossed]
  rcases Nat.lt_or_ge (i + 1) shares.length with within | last
  · rw [Nat.mod_eq_of_lt within, getElem?_leftKeys inside closed within]
  · -- The walk does not cross the last share; that it leads back is what closure says.
    have whole : total (shares.take (i + 1)) = Bytes.zero 32 := by
      rw [List.take_of_length_le last, closed]
    have first : (i + 1) % shares.length = 0 := by
      rw [show i + 1 = shares.length by omega, Nat.mod_self]
    rw [first, getElem?_leftKeys inside closed (Nat.zero_lt_of_lt inside), whole]
    simp [total]

/-- A walk from any other position meets the same left keys. -/
theorem leftKeys_of_met (inside : own < shares.length) (closed : total shares = Bytes.zero 32)
    {other : Nat} {key : SharedSecret} (met : (leftKeys own left shares)[other]? = some key) :
    leftKeys other key shares = leftKeys own left shares := by
  have inside' : other < shares.length := by
    obtain ⟨here, _⟩ := List.getElem?_eq_some_iff.1 met
    rwa [length_leftKeys inside closed] at here
  exact ((leftKeys_eq_iff inside inside' closed closed).2 ⟨rfl, met⟩).symm

end Closed

/-- The secret that a party shares with its left neighbour. -/
def leftSecret (secrets : Fin n → SharedSecret) (i : Fin n) : SharedSecret :=
  secrets (previousPosition i)

/-- The shares of a ring in which every two neighbours share a secret; the secret at a position is
that of its party and the next one. -/
def ofSecrets (secrets : Fin n → SharedSecret) : List Share :=
  List.ofFn fun i => ofNeighborKeys (secrets i) (leftSecret secrets i)

theorem ofSecrets_eq (secrets : Fin n → SharedSecret) :
    ofSecrets secrets = ofLinks (List.ofFn (leftSecret secrets)) := by
  rw [ofLinks_ofFn_next]
  simp only [ofSecrets, leftSecret, previous_next]

theorem leftKeys_ofSecrets (secrets : Fin n → SharedSecret) (own : Fin n) :
    leftKeys own (leftSecret secrets own) (ofSecrets secrets) =
      List.ofFn (leftSecret secrets) := by
  have found := leftKeys_ofLinks (List.ofFn (leftSecret secrets)) own (by simp)
  rw [ofSecrets_eq]
  simpa using found

/-- From shares that cancel out, the walk of any party finds a left key for every position, its own
where it starts, each of which leads across the share at its position to the next one; a walk that
starts with any of these keys at its position finds the same ones. Around a ring of neighbours that
share secrets, all parties find the secrets of the left neighbours, and derive one group key. -/
theorem left_keys_go_round :
    (∀ (shares : List Share) (own : Nat) (left : SharedSecret),
      isClosed shares = true → own < shares.length →
      (leftKeys own left shares).length = shares.length ∧
      (leftKeys own left shares)[own]? = some left ∧
      (∀ i (_ : i < shares.length), (leftKeys own left shares)[(i + 1) % shares.length]? =
        (leftKeys own left shares)[i]?.map fun key => ⟨key.bytes ^^^ shares[i].bytes⟩) ∧
      ∀ other key, (leftKeys own left shares)[other]? = some key →
        leftKeys other key shares = leftKeys own left shares) ∧
    ∀ (n : Nat) (secrets : Fin n → SharedSecret) (own : Fin n),
      isClosed (ofSecrets secrets) = true ∧
      leftKeys own (leftSecret secrets own) (ofSecrets secrets) =
        List.ofFn (leftSecret secrets) ∧
      ∀ (other : Fin n) (ids : List PartyId),
        GroupKey.derive (leftKeys own (leftSecret secrets own) (ofSecrets secrets)) ids =
          GroupKey.derive (leftKeys other (leftSecret secrets other) (ofSecrets secrets)) ids := by
  constructor
  · intro shares own left closed inside
    have total_eq : total shares = Bytes.zero 32 := by simpa [isClosed] using closed
    refine ⟨length_leftKeys inside total_eq, leftKeys_own inside total_eq,
      fun i here => leftKeys_next inside total_eq here,
      fun other key met => leftKeys_of_met inside total_eq met⟩
  · intro n secrets own
    refine ⟨?_, leftKeys_ofSecrets secrets own, fun other ids => ?_⟩
    · rw [ofSecrets_eq]
      exact isClosed_ofLinks _
    · rw [leftKeys_ofSecrets, leftKeys_ofSecrets]

/-- Three parties, of which the last and the first walk around the ring. -/
theorem three_shares_go_round :
    let shares : List Share := [⟨.replicate 32 1⟩, ⟨.replicate 32 2⟩, ⟨.replicate 32 3⟩]
    isClosed shares = true ∧
      leftKeys 2 ⟨.replicate 32 7⟩ shares =
        [⟨.replicate 32 4⟩, ⟨.replicate 32 5⟩, ⟨.replicate 32 7⟩] ∧
      leftKeys 0 ⟨.replicate 32 4⟩ shares = leftKeys 2 ⟨.replicate 32 7⟩ shares := by
  intro shares
  have closed : isClosed shares = true := by decide
  have found : leftKeys 2 ⟨.replicate 32 7⟩ shares =
      [⟨.replicate 32 4⟩, ⟨.replicate 32 5⟩, ⟨.replicate 32 7⟩] := by decide
  have ⟨_, _, _, same⟩ := left_keys_go_round.1 shares 2 ⟨.replicate 32 7⟩ closed (by decide)
  exact ⟨closed, found, same 0 _ (by rw [found]; rfl)⟩

end Share

end RingAgreement

import RingAgreement.Proofs.Ring.Circle
/-!
What the closure check detects. The total of the shares does not depend on their order; it is what
the links of the ring disagree by, and a change of a single share never goes unnoticed.
-/

namespace RingAgreement.Share

variable {n : Nat}

theorem total_perm {shares shares' : List Share} (order : shares.Perm shares') :
    total shares = total shares' := by
  rw [total_eq_sum, total_eq_sum, Bytes.sum_perm (order.map _)]

/-- Every party has a left and a right key, so the total can be read link by link. -/
theorem total_ofNeighborKeys (rights lefts : Fin n → SharedSecret) :
    total (List.ofFn fun i => ofNeighborKeys (rights i) (lefts i)) =
      Bytes.sum (List.ofFn fun i => (rights i).bytes ^^^ (lefts (nextPosition i)).bytes) := by
  have turned : Bytes.sum (List.ofFn fun i => (lefts (nextPosition i)).bytes) =
      Bytes.sum (List.ofFn fun i => (lefts i).bytes) := by
    rw [← rotate_ofFn fun i => (lefts i).bytes]
    exact Bytes.sum_perm (List.rotate_perm _ 1)
  calc total (List.ofFn fun i => ofNeighborKeys (rights i) (lefts i))
      = Bytes.sum (List.ofFn fun i => (rights i).bytes ^^^ (lefts i).bytes) := by
        rw [total_eq_sum, List.map_ofFn]
        rfl
    _ = Bytes.sum (List.ofFn fun i => (rights i).bytes) ^^^
          Bytes.sum (List.ofFn fun i => (lefts i).bytes) := Bytes.sum_ofFn_xor _ _
    _ = Bytes.sum (List.ofFn fun i => (rights i).bytes ^^^ (lefts (nextPosition i)).bytes) := by
        rw [← turned, ← Bytes.sum_ofFn_xor]

theorem isClosed_of_links {rights lefts : Fin n → SharedSecret}
    (agree : ∀ i, rights i = lefts (nextPosition i)) :
    isClosed (List.ofFn fun i => ofNeighborKeys (rights i) (lefts i)) = true := by
  simp only [agree, ← ofLinks_ofFn_next]
  exact isClosed_ofLinks _

/-- A list is what it was but for one position. -/
def OneChanged (shares changed : List Share) : Prop :=
  changed.length = shares.length ∧ ∃! i : Nat, changed[i]? ≠ shares[i]?

theorem OneChanged.exists_parts {shares changed : List Share} (differ : OneChanged shares changed) :
    ∃ front share share' rest, share ≠ share' ∧
      shares = front ++ share :: rest ∧ changed = front ++ share' :: rest := by
  obtain ⟨same, i, here, elsewhere⟩ := differ
  have inside : i < shares.length := by
    by_contra outside
    exact here (by simp [same, Nat.not_lt.1 outside])
  have inside' : i < changed.length := same ▸ inside
  have others : ∀ j, j ≠ i → changed[j]? = shares[j]? := fun j other =>
    not_not.1 fun differs => other (elsewhere j differs)
  have front : changed.take i = shares.take i := by
    apply List.ext_getElem?
    intro j
    rw [List.getElem?_take, List.getElem?_take]
    split
    next before => exact others j (by omega)
    next => rfl
  have rest : changed.drop (i + 1) = shares.drop (i + 1) := by
    apply List.ext_getElem?
    intro j
    rw [List.getElem?_drop, List.getElem?_drop]
    exact others _ (by omega)
  refine ⟨shares.take i, shares[i], changed[i], shares.drop (i + 1), fun equal => here ?_, ?_, ?_⟩
  · rw [List.getElem?_eq_getElem inside, List.getElem?_eq_getElem inside', equal]
  · simp
  · rw [← front, ← rest]
    simp

theorem total_ne_of_oneChanged {shares changed : List Share} (differ : OneChanged shares changed) :
    total changed ≠ total shares := by
  obtain ⟨front, share, share', rest, distinct, rfl, rfl⟩ := differ.exists_parts
  rw [total_append, total_append, total_cons, total_cons]
  intro same
  have crossed := Bytes.xor_right_cancel (Bytes.xor_left_cancel same)
  exact distinct (congrArg Share.mk crossed.symm)

theorem isClosed_of_oneChanged {shares changed : List Share} (closed : isClosed shares = true)
    (differ : OneChanged shares changed) : isClosed changed = false := by
  have differs := total_ne_of_oneChanged differ
  have total_eq : total shares = Bytes.zero 32 := by simpa [isClosed] using closed
  rw [total_eq] at differs
  simpa [isClosed] using differs

theorem oneChanged_ofFn {shares changed : Fin n → Share} {i : Fin n} (here : changed i ≠ shares i)
    (elsewhere : ∀ k, k ≠ i → changed k = shares k) :
    OneChanged (List.ofFn shares) (List.ofFn changed) := by
  refine ⟨by simp, i, ?_, fun j differs => ?_⟩
  · simpa using here
  · simp only [List.getElem?_ofFn] at differs
    split at differs
    next inside =>
      by_contra other
      rw [elsewhere ⟨j, inside⟩ fun same => other (congrArg Fin.val same)] at differs
      exact differs rfl
    next => exact absurd rfl differs

/-- With the right key that its link asks for, the party at the only broken link would have made
another share. -/
theorem oneChanged_of_link {rights lefts : Fin n → SharedSecret}
    (broken : ∃! i, rights i ≠ lefts (nextPosition i)) :
    OneChanged (List.ofFn fun i => ofNeighborKeys (lefts (nextPosition i)) (lefts i))
      (List.ofFn fun i => ofNeighborKeys (rights i) (lefts i)) := by
  obtain ⟨i, here, elsewhere⟩ := broken
  refine oneChanged_ofFn (i := i) (fun same => here ?_) fun k other => ?_
  · exact congrArg SharedSecret.mk (Bytes.xor_right_cancel (congrArg Share.bytes same))
  · have agrees : rights k = lefts (nextPosition k) := not_not.1 fun differs =>
      other (elsewhere k differs)
    rw [agrees]

/-- In whatever order the shares of a ring come, their total is what the two ends of its links
differ by; they pass the check if all links agree, and fail it if one of them alone does not. A list
that differs in one share from a list that passes the check does not pass it. -/
theorem closure_detects_one_fault :
    (∀ (n : Nat) (rights lefts : Fin n → SharedSecret) (shares : List Share),
      shares.Perm (List.ofFn fun i => ofNeighborKeys (rights i) (lefts i)) →
      total shares =
        Bytes.sum (List.ofFn fun i => (rights i).bytes ^^^ (lefts (nextPosition i)).bytes) ∧
      ((∀ i, rights i = lefts (nextPosition i)) → isClosed shares = true) ∧
      ((∃! i, rights i ≠ lefts (nextPosition i)) → isClosed shares = false)) ∧
    ∀ shares changed : List Share, isClosed shares = true → OneChanged shares changed →
      isClosed changed = false := by
  refine ⟨fun n rights lefts shares order => ⟨?_, fun agree => ?_, fun broken => ?_⟩,
    fun _ _ => isClosed_of_oneChanged⟩
  · rw [total_perm order, total_ofNeighborKeys]
  · rw [isClosed, total_perm order]
    exact isClosed_of_links agree
  · have whole : isClosed
        (List.ofFn fun i => ofNeighborKeys (lefts (nextPosition i)) (lefts i)) = true :=
      isClosed_of_links fun _ => rfl
    rw [isClosed, total_perm order]
    exact isClosed_of_oneChanged whole (oneChanged_of_link broken)

/-- Three parties with their shares in reverse order; then the first one has a wrong right key. -/
theorem three_shares_checked :
    let lefts : Fin 3 → SharedSecret := fun i => ⟨.replicate 32 (.ofNat i)⟩
    let rights : Fin 3 → SharedSecret := fun i => lefts (nextPosition i)
    let skewed : Fin 3 → SharedSecret := fun i => if i = 0 then ⟨.replicate 32 7⟩ else rights i
    let shares := List.ofFn fun i => ofNeighborKeys (rights i) (lefts i)
    let changed := List.ofFn fun i => ofNeighborKeys (skewed i) (lefts i)
    isClosed shares.reverse = true ∧ isClosed changed.reverse = false ∧
      OneChanged shares changed ∧ isClosed changed = false := by
  intro lefts rights skewed shares changed
  have broken : ∃! i, skewed i ≠ lefts (nextPosition i) := ⟨0, by decide, by decide⟩
  have ⟨_, passes, _⟩ :=
    closure_detects_one_fault.1 3 rights lefts shares.reverse (List.reverse_perm _)
  have ⟨_, _, fails⟩ :=
    closure_detects_one_fault.1 3 skewed lefts changed.reverse (List.reverse_perm _)
  have differ : OneChanged shares changed := oneChanged_of_link broken
  exact ⟨passes fun _ => rfl, fails broken, differ,
    closure_detects_one_fault.2 shares changed (by decide) differ⟩

end RingAgreement.Share

import Mathlib.Data.List.Rotate
import RingAgreement.Proofs.Bytes.Xor
import RingAgreement.Ring.Share
/-!
Walks around a ring. When the right key of every party is the left key of the next one, the shares
cancel out, and the walk of every party meets the left keys of all parties in ring order.
-/

namespace RingAgreement.Share

/-- The shares of a ring in which the parties have the given left keys, each of them being the
right key of the party before. -/
def ofLinks (links : List SharedSecret) : List Share :=
  List.zipWith ofNeighborKeys (links.rotate 1) links

@[simp] theorem length_ofLinks (links : List SharedSecret) :
    (ofLinks links).length = links.length := by
  simp [ofLinks]

theorem ofLinks_rotate (links : List SharedSecret) (k : Nat) :
    (ofLinks links).rotate k = ofLinks (links.rotate k) := by
  rw [ofLinks, ofLinks, List.zipWith_rotate_distrib _ _ _ _ (by simp), List.rotate_rotate,
    List.rotate_rotate, Nat.add_comm]

theorem total_eq_sum (shares : List Share) : total shares = Bytes.sum (shares.map (·.bytes)) := by
  rw [total, Bytes.sum, List.foldl_map]

/-- The sum of shares is the sum of all right keys and of all left keys. -/
theorem total_zipWith_ofNeighborKeys (rights lefts : List SharedSecret)
    (same : rights.length = lefts.length) :
    total (List.zipWith ofNeighborKeys rights lefts) =
      Bytes.sum (rights.map (·.bytes)) ^^^ Bytes.sum (lefts.map (·.bytes)) := by
  rw [total_eq_sum]
  induction rights generalizing lefts with
  | nil =>
    obtain rfl := List.eq_nil_of_length_eq_zero same.symm
    simp
  | cons right rights ih =>
    cases lefts with
    | nil => simp at same
    | cons left lefts =>
      simp only [List.zipWith_cons_cons, List.map_cons, Bytes.sum_cons, ofNeighborKeys]
      rw [ih lefts (by simpa using same)]
      ac_rfl

theorem isClosed_ofLinks (links : List SharedSecret) : isClosed (ofLinks links) = true := by
  have rotated : Bytes.sum ((links.rotate 1).map (·.bytes)) = Bytes.sum (links.map (·.bytes)) :=
    Bytes.sum_perm ((List.rotate_perm links 1).map _)
  rw [isClosed, ofLinks, total_zipWith_ofNeighborKeys _ _ (by simp), rotated]
  simp

theorem rotateLeft_eq_rotate {α : Type} (xs : List α) (k : Nat) :
    xs.rotateLeft k = xs.rotate k := by
  rw [List.rotate_eq_drop_append_take_mod, List.rotateLeft]
  split
  next short =>
    match xs, short with
    | [], _ => simp
    | [x], _ => simp [Nat.mod_one]
  next => rfl

theorem rotateRight_rotate {α : Type} (xs : List α) (k : Nat) (h : k < xs.length) :
    (xs.rotate k).rotateRight k = xs := by
  rw [List.rotateRight]
  split
  next short =>
    obtain rfl : k = 0 := by rw [List.length_rotate] at short; omega
    simp
  next =>
    simp only [List.length_rotate, Nat.mod_eq_of_lt h]
    rw [← List.rotate_eq_drop_append_take (by simp), List.rotate_rotate,
      Nat.add_sub_cancel' (Nat.le_of_lt h), List.rotate_length]

/-- Crossing a share that both neighbour keys made leads from the left key to the right one. -/
theorem cross_ofNeighborKeys (right left : SharedSecret) :
    left.bytes ^^^ (ofNeighborKeys right left).bytes = right.bytes := by
  rw [ofNeighborKeys, Bytes.xor_comm right.bytes, Bytes.xor_xor_cancel_left]

theorem walk_chain (first last : SharedSecret) (rest : List SharedSecret) :
    walk first (List.zipWith ofNeighborKeys (rest ++ [last]) (first :: rest)) = first :: rest := by
  induction rest generalizing first with
  | nil => simp [walk]
  | cons next rest ih =>
    simp only [List.cons_append, List.zipWith_cons_cons, walk, cross_ofNeighborKeys]
    rw [ih next]

theorem walk_ofLinks (first : SharedSecret) (rest : List SharedSecret) :
    walk first (ofLinks (first :: rest)) = first :: rest := by
  have turned : (first :: rest).rotate 1 = rest ++ [first] := by simp
  rw [ofLinks, turned, walk_chain]

/-- Every party of a ring finds the left keys of all parties. -/
theorem leftKeys_ofLinks (links : List SharedSecret) (own : Nat) (h : own < links.length) :
    leftKeys own links[own] (ofLinks links) = links := by
  have seen : links.rotate own = links[own] :: (links.rotate own).tail := by
    have nonempty : 0 < (links.rotate own).length := by simp; omega
    rw [← List.cons_head_tail (List.ne_nil_of_length_pos nonempty), List.tail_cons]
    simp [List.head_eq_getElem, Nat.mod_eq_of_lt h]
  rw [leftKeys, rotateLeft_eq_rotate, ofLinks_rotate]
  have walked : walk links[own] (ofLinks (links.rotate own)) = links.rotate own := by
    rw [seen]
    exact walk_ofLinks _ _
  rw [walked, rotateRight_rotate _ _ h]

/-! ## Walks over any shares -/

theorem total_cons (share : Share) (shares : List Share) :
    total (share :: shares) = share.bytes ^^^ total shares := by
  rw [total_eq_sum, total_eq_sum, List.map_cons, Bytes.sum_cons]

theorem total_append (shares more : List Share) :
    total (shares ++ more) = total shares ^^^ total more := by
  induction shares with
  | nil => simp [total]
  | cons share shares ih => rw [List.cons_append, total_cons, total_cons, ih, Bytes.xor_assoc]

@[simp] theorem length_walk (left : SharedSecret) (shares : List Share) :
    (walk left shares).length = shares.length := by
  induction shares generalizing left with
  | nil => rfl
  | cons share shares ih => simp [walk, ih]

theorem walk_append (left : SharedSecret) (shares more : List Share) :
    walk left (shares ++ more) = walk left shares ++ walk ⟨left.bytes ^^^ total shares⟩ more := by
  induction shares generalizing left with
  | nil => simp [walk, total]
  | cons share shares ih =>
    rw [List.cons_append, walk, walk, ih, total_cons, Bytes.xor_assoc, List.cons_append]

/-- The left key met after some of the shares were crossed. -/
theorem getElem?_walk {left : SharedSecret} {shares : List Share} {k : Nat}
    (inside : k < shares.length) :
    (walk left shares)[k]? = some ⟨left.bytes ^^^ total (shares.take k)⟩ := by
  induction shares generalizing left k with
  | nil => cases inside
  | cons share shares ih =>
    cases k with
    | zero => simp [walk, total]
    | succ k =>
      rw [walk, List.getElem?_cons_succ, ih (Nat.lt_of_succ_lt_succ inside), List.take_succ_cons,
        total_cons, Bytes.xor_assoc]

/-- Walks that meet the same left keys and end at the same one have crossed the same shares. -/
theorem walk_injective {first first' : SharedSecret} {shares shares' : List Share}
    (same : walk first shares = walk first' shares')
    (last : first.bytes ^^^ total shares = first'.bytes ^^^ total shares') : shares = shares' := by
  induction shares generalizing first first' shares' with
  | nil =>
    have length := congrArg List.length same
    simp only [length_walk] at length
    exact (List.eq_nil_of_length_eq_zero length.symm).symm
  | cons share shares ih =>
    cases shares' with
    | nil => cases same
    | cons share' shares' =>
      obtain ⟨rfl, rest⟩ := List.cons.inj same
      rw [total_cons, total_cons, ← Bytes.xor_assoc, ← Bytes.xor_assoc] at last
      obtain rfl := ih rest last
      have crossed := Bytes.xor_left_cancel (Bytes.xor_right_cancel last)
      rw [show share = share' from congrArg Share.mk crossed]

/-- Around a ring whose shares cancel out, a walk from any position is a walk from the first. -/
theorem leftKeys_eq_walk {own : Nat} {left : SharedSecret} {shares : List Share}
    (inside : own < shares.length) (closed : total shares = Bytes.zero 32) :
    leftKeys own left shares = walk ⟨left.bytes ^^^ total (shares.take own)⟩ shares := by
  have before : own ≤ shares.length := Nat.le_of_lt inside
  have halves : total (shares.drop own) = total (shares.take own) := by
    rw [← List.take_append_drop own shares, total_append] at closed
    rw [← Bytes.xor_xor_cancel_left (total (shares.take own)) (total (shares.drop own)), closed,
      Bytes.xor_zero]
  have whole := walk_append ⟨left.bytes ^^^ total (shares.take own)⟩ (shares.take own)
    (shares.drop own)
  simp only [List.take_append_drop, Bytes.xor_xor_cancel_right] at whole
  have turned : walk left (shares.rotate own) =
      (walk ⟨left.bytes ^^^ total (shares.take own)⟩ shares).rotate own := by
    rw [List.rotate_eq_drop_append_take before, walk_append, halves,
      List.rotate_eq_drop_append_take (by simpa using before), whole,
      List.drop_left' (by simp [before]), List.take_left' (by simp [before])]
  rw [leftKeys, rotateLeft_eq_rotate, turned, rotateRight_rotate _ _ (by simpa using inside)]

/-- Two walks around a ring find the same left keys exactly when they cross the same shares and the
first one meets the left key with which the second one starts. -/
theorem leftKeys_eq_iff {own own' : Nat} {left left' : SharedSecret} {shares shares' : List Share}
    (inside : own < shares.length) (inside' : own' < shares'.length)
    (closed : total shares = Bytes.zero 32) (closed' : total shares' = Bytes.zero 32) :
    leftKeys own left shares = leftKeys own' left' shares' ↔
      shares = shares' ∧ (leftKeys own left shares)[own']? = some left' := by
  have start : (leftKeys own' left' shares')[own']? = some left' := by
    rw [leftKeys_eq_walk inside' closed', getElem?_walk inside', Bytes.xor_xor_cancel_right]
  constructor
  · intro same
    refine ⟨?_, by rw [same, start]⟩
    rw [leftKeys_eq_walk inside closed, leftKeys_eq_walk inside' closed'] at same
    have heads : left.bytes ^^^ total (shares.take own) =
        left'.bytes ^^^ total (shares'.take own') := by
      have first := congrArg (·[0]?) same
      simp only [getElem?_walk (Nat.zero_lt_of_lt inside),
        getElem?_walk (Nat.zero_lt_of_lt inside'), List.take_zero, Option.some.injEq,
        SharedSecret.mk.injEq] at first
      exact Bytes.xor_right_cancel first
    exact walk_injective same (by rw [closed, closed', heads])
  · rintro ⟨rfl, meets⟩
    rw [leftKeys_eq_walk inside closed] at meets ⊢
    rw [leftKeys_eq_walk inside' closed]
    rw [getElem?_walk inside', Option.some.injEq] at meets
    rw [← meets, Bytes.xor_xor_cancel_right]

end RingAgreement.Share

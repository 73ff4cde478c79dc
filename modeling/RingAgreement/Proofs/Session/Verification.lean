import Mathlib.Tactic.Choose
import RingAgreement.Session.Basic
/-!
What the checks at the end of a run establish. Contributions are verified when none is missing,
their shares cancel out and every commitment opens; the checks of a session pass exactly then.
-/

namespace RingAgreement

/-- Repeating the commitment to the share at a position gives the stored one. -/
def Contribution.OpensAt (K : Kem) (key : PublicKey) (index : Nat) (c : Contribution) : Prop :=
  Commitment.make K key (c.share.commitmentMessage index) c.coin = .ok c.commitment

namespace Session

/-- The contribution of the party at a position, if it is there. -/
def slot (s : Session) (i : Nat) : Option Contribution := (s.progress.contributions[i]?).join

theorem getElem_contributions (s : Session) (i : Fin s.roster.size) :
    getElem s.progress.contributions i.val i.isLt = s.slot i := by
  simp [slot]

theorem slot_withContribution (s : Session) (i : Fin s.roster.size) (c : Contribution) (j : Nat) :
    (s.withContribution i c).slot j = if i.val = j then some c else s.slot j := by
  change ((s.progress.contributions.set i (some c) i.isLt)[j]?).join = _
  rw [Vector.getElem?_set]
  split
  · rfl
  · rfl

/-- All contributions of a session are there and pass the checks. -/
structure Verified (K : Kem) (s : Session) (c : Fin s.roster.size → Contribution) : Prop where
  filled : ∀ i : Fin s.roster.size, s.slot i = some (c i)
  closed : Share.total (List.ofFn fun i => (c i).share) = Bytes.zero 32
  opens : ∀ i, (c i).OpensAt K (s.roster.party i).publicKey i

variable {K : Kem} {s : Session}

theorem eq_of_filled {c c' : Fin s.roster.size → Contribution}
    (h : ∀ i : Fin s.roster.size, s.slot i = some (c i))
    (h' : ∀ i : Fin s.roster.size, s.slot i = some (c' i)) : c = c' := by
  funext i
  exact Option.some.inj ((h i).symm.trans (h' i))

theorem eq_map_some_of_mapM_id {α : Type} {xs : List (Option α)} {ys : List α}
    (h : xs.mapM id = some ys) : xs = ys.map some := by
  induction xs generalizing ys with
  | nil =>
    obtain rfl : ys = [] := by simpa using h.symm
    rfl
  | cons x xs ih =>
    cases x with
    | none => simp at h
    | some x =>
      cases rest : xs.mapM id with
      | none => simp [rest] at h
      | some zs =>
        obtain rfl : x :: zs = ys := by simpa [rest] using h
        rw [ih rest, List.map_cons]

theorem mapM_id_map_some {α : Type} (ys : List α) : (ys.map some).mapM id = some ys := by
  induction ys with
  | nil => rfl
  | cons y ys ih => simp [ih]

/-- All contributions, in ring order. -/
theorem contributions?_of_filled {c : Fin s.roster.size → Contribution}
    (filled : ∀ i : Fin s.roster.size, s.slot i = some (c i)) :
    s.contributions? = some (List.ofFn c) := by
  have listed : s.progress.contributions.toList = (List.ofFn c).map some := by
    apply List.ext_getElem
    · simp
    · intro i h _
      have here : i < s.roster.size := by simpa using h
      have stored := (s.getElem_contributions ⟨i, here⟩).trans (filled ⟨i, here⟩)
      simpa using stored
  rw [contributions?, listed, mapM_id_map_some]

theorem filled_of_contributions? {cs : List Contribution} (h : s.contributions? = some cs) :
    ∃ c : Fin s.roster.size → Contribution,
      (∀ i : Fin s.roster.size, s.slot i = some (c i)) ∧ cs = List.ofFn c := by
  have listed := eq_map_some_of_mapM_id h
  have width : cs.length = s.roster.size := by
    simpa using (congrArg List.length listed).symm
  refine ⟨fun i => cs[i], fun i => ?_, ?_⟩
  · have here := congrArg (·[i.val]?) listed
    have inside : i.val < cs.length := by omega
    rw [← getElem_contributions]
    simpa [inside] using here
  · apply List.ext_getElem
    · simp [width]
    · intro i _ _
      simp

/-- The check of the commitments passes exactly when all of them open. -/
theorem checkCommitments_ok_iff (start : Nat) (entries : List (Party × Contribution)) :
    checkCommitments K start entries = .ok () ↔
      ∀ k (h : k < entries.length),
        entries[k].2.OpensAt K entries[k].1.publicKey (start + k) := by
  induction entries generalizing start with
  | nil => simp [checkCommitments]
  | cons entry rest ih =>
    obtain ⟨party, c⟩ := entry
    have split_first : (∀ k (h : k < (⟨party, c⟩ :: rest : List (Party × Contribution)).length),
        (⟨party, c⟩ :: rest : List (Party × Contribution))[k].2.OpensAt K
          (⟨party, c⟩ :: rest : List (Party × Contribution))[k].1.publicKey (start + k)) ↔
        c.OpensAt K party.publicKey start ∧ ∀ k (h : k < rest.length),
          rest[k].2.OpensAt K rest[k].1.publicKey (start + 1 + k) := by
      constructor
      · intro all
        refine ⟨all 0 (by simp), fun k h => ?_⟩
        have next := all (k + 1) (by simpa using h)
        rwa [← Nat.add_assoc, Nat.add_right_comm] at next
      · rintro ⟨first, others⟩ k h
        cases k with
        | zero => exact first
        | succ k =>
          have next := others k (by simpa using h)
          rwa [Nat.add_right_comm] at next
    rw [split_first, ← ih (start + 1), checkCommitments, Contribution.OpensAt]
    cases Commitment.make K party.publicKey (c.share.commitmentMessage start) c.coin with
    | error e => simp
    | ok again =>
      by_cases same : again = c.commitment <;> simp [same]

theorem checkCommitments_error {start : Nat} {entries : List (Party × Contribution)}
    {e : SessionError} (failed : checkCommitments K start entries = .error e) :
    (∃ failure, e = .verification failure) ∨ ∃ error, e = .crypto error := by
  induction entries generalizing start with
  | nil => simp [checkCommitments] at failed
  | cons entry rest ih =>
    rw [checkCommitments] at failed
    split at failed
    · cases failed
      exact Or.inr ⟨_, rfl⟩
    · split at failed
      · exact ih failed
      · cases failed
        exact Or.inl ⟨_, rfl⟩

theorem length_entries (c : Fin s.roster.size → Contribution) :
    (s.roster.parties.zip (List.ofFn c)).length = s.roster.size := by
  rw [List.length_zip, List.length_ofFn]
  exact Nat.min_self _

theorem getElem_entries (c : Fin s.roster.size → Contribution) (k : Nat)
    (inside : k < (s.roster.parties.zip (List.ofFn c)).length) :
    (s.roster.parties.zip (List.ofFn c))[k] =
      (s.roster.party ⟨k, length_entries c ▸ inside⟩, c ⟨k, length_entries c ▸ inside⟩) := by
  rw [List.getElem_zip, List.getElem_ofFn]
  rfl

theorem checkCommitments_roster (c : Fin s.roster.size → Contribution) :
    checkCommitments K 0 (s.roster.parties.zip (List.ofFn c)) = .ok () ↔
      ∀ i, (c i).OpensAt K (s.roster.party i).publicKey i := by
  rw [checkCommitments_ok_iff]
  simp only [getElem_entries, Nat.zero_add]
  constructor
  · intro all i
    exact all i ((length_entries c).symm ▸ i.isLt)
  · intro all k inside
    exact all ⟨k, length_entries c ▸ inside⟩

/-- The checks of a session: they wait for missing contributions, pass on verified ones and fail
on all others. -/
theorem verifiedShares_cases (K : Kem) (s : Session) :
    (s.verifiedShares K = .ok none ∧ ∃ i : Fin s.roster.size, s.slot i = none) ∨
    (∃ c, s.Verified K c ∧
      s.verifiedShares K = .ok (some (List.ofFn fun i => (c i).share))) ∨
    (∃ e, s.verifiedShares K = .error e ∧
      ((∃ failure, e = .verification failure) ∨ ∃ error, e = .crypto error) ∧
      (∀ i : Fin s.roster.size, (s.slot i).isSome) ∧
      ∀ c, ¬ s.Verified K c) := by
  cases present : s.contributions? with
  | none =>
    refine Or.inl ⟨by simp [verifiedShares, present], ?_⟩
    by_contra complete
    have filled : ∀ i : Fin s.roster.size, ∃ c, s.slot i = some c := by
      intro i
      exact Option.ne_none_iff_exists'.1 fun missing => complete ⟨i, missing⟩
    choose c filled using filled
    rw [contributions?_of_filled filled] at present
    cases present
  | some cs =>
    right
    obtain ⟨c, filled, rfl⟩ := filled_of_contributions? present
    have shares : (List.ofFn c).map (·.share) = List.ofFn fun i => (c i).share := by
      rw [List.map_ofFn]
      rfl
    have present_all : ∀ i : Fin s.roster.size, (s.slot i).isSome :=
      fun i => by rw [filled i]; rfl
    simp only [verifiedShares, present, shares]
    by_cases closed : Share.isClosed (List.ofFn fun i => (c i).share) = true
    · rw [if_pos closed]
      cases checked : checkCommitments K 0 (s.roster.parties.zip (List.ofFn c)) with
      | ok =>
        have opens := (checkCommitments_roster c).1 checked
        exact Or.inl ⟨c, ⟨filled, by simpa [Share.isClosed] using closed, opens⟩, rfl⟩
      | error e =>
        refine Or.inr ⟨e, rfl, checkCommitments_error checked, present_all, fun c' verified => ?_⟩
        obtain rfl := eq_of_filled filled verified.filled
        rw [(checkCommitments_roster c).2 verified.opens] at checked
        cases checked
    · rw [if_neg closed]
      refine Or.inr ⟨_, rfl, .inl ⟨_, rfl⟩, present_all, fun c' verified => closed ?_⟩
      obtain rfl := eq_of_filled filled verified.filled
      simpa [Share.isClosed] using verified.closed

end Session

end RingAgreement

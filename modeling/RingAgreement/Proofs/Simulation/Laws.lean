import RingAgreement.Simulation.Invariant
/-!
The laws of a deployment, each said of all its nodes, sessions and rings. A check goes over them one
by one, compares keys with the first one only and ends at the first fault. It still finds a fault
exactly when its law fails, so that a registry reports the laws that fail and no others.
-/

namespace RingAgreement.Simulation

variable {s : Snapshot}

/-! ## Laws -/

/-- A session in a ring holds this group key. -/
def Snapshot.HoldsGroupKey (s : Snapshot) (ring : Nat) (key : GroupKey) : Prop :=
  ∃ node ∈ s.nodes, ∃ session ∈ node.sessions, session.ring = ring ∧ session.groupKey = some key

/-- A node holds this effective key. -/
def Snapshot.HoldsEffectiveKey (s : Snapshot) (key : ClusterKey) : Prop :=
  ∃ node ∈ s.nodes, node.effectiveKey = some key

/-- The session on a level established this key. -/
def NodeSnapshot.Establishes (node : NodeSnapshot) (level : Level) (key : ClusterKey) : Prop :=
  ∃ session groupKey, node.session? level = some session ∧ session.groupKey = some groupKey ∧
    groupKey.key = key.bytes

/-- Where a role takes its effective key from. What a member gets is wrapped for its cluster, so it
only needs to be through with its cluster session. -/
def NodeSnapshot.Sources (node : NodeSnapshot) (key : ClusterKey) : Prop :=
  match node.role with
  | .standalone => node.Establishes .cluster key
  | .leader => node.Establishes .leader key
  | .member => ∃ session, node.session? .cluster = some session ∧ session.state = .established

namespace Invariant

/-- What an invariant says of a deployment. -/
def Holds (s : Snapshot) : Invariant → Prop
  | ringKeyAgreement =>
    ∀ ring < s.rings.length, ∀ a b, s.HoldsGroupKey ring a → s.HoldsGroupKey ring b → a = b
  | clusterKeyConvergence => ∀ a b, s.HoldsEffectiveKey a → s.HoldsEffectiveKey b → a = b
  | effectiveKeySource =>
    ∀ node ∈ s.nodes, ∀ key, node.effectiveKey = some key → node.Sources key
  | singleCompletion =>
    ∀ node ∈ s.nodes, node.keyAnnouncements ≤ 1 ∧
      ∀ session ∈ node.sessions, session.completions ≤ 1
  | abortedHoldsNoKey =>
    ∀ node ∈ s.nodes,
      (∀ session ∈ node.sessions, session.state = .aborted → session.groupKey = none) ∧
      (node.distributorAborted = true → node.effectiveKey = none)

/-! ## Keys that agree -/

/-- Keys that all equal the first one equal each other. -/
theorem firstDisagreement_eq_none_iff {κ ν : Type} [DecidableEq κ] {entries : List (ν × κ)} :
    firstDisagreement entries = none ↔
      ∀ a b, (∃ owner, (owner, a) ∈ entries) → (∃ owner, (owner, b) ∈ entries) → a = b := by
  cases entries with
  | nil => simp [firstDisagreement]
  | cons first rest =>
    rw [firstDisagreement, Option.map_eq_none_iff, List.find?_eq_none]
    constructor
    · intro found
      have same : ∀ entry ∈ first :: rest, entry.2 = first.2 := by
        intro entry member
        rcases List.mem_cons.1 member with rfl | later
        · rfl
        · simpa using found entry later
      rintro a b ⟨aOwner, a_mem⟩ ⟨bOwner, b_mem⟩
      exact (same _ a_mem).trans (same _ b_mem).symm
    · intro same entry member
      simpa using same entry.2 first.2 ⟨entry.1, List.mem_cons_of_mem first member⟩
        ⟨first.1, List.mem_cons_self⟩

theorem mem_groupKeys_iff {ring : Nat} {node : NodeSnapshot} {key : GroupKey} :
    (node, key) ∈ s.groupKeys ring ↔ node ∈ s.nodes ∧
      ∃ session ∈ node.sessions, session.ring = ring ∧ session.groupKey = some key := by
  simp only [Snapshot.groupKeys, List.mem_flatMap, List.mem_filterMap, List.mem_filter,
    Option.map_eq_some_iff, decide_eq_true_eq]
  constructor
  · rintro ⟨owner, there, session, ⟨member, runs⟩, held, holds, same⟩
    obtain ⟨rfl, rfl⟩ := Prod.mk.inj same
    exact ⟨there, session, member, runs, holds⟩
  · rintro ⟨there, session, member, runs, holds⟩
    exact ⟨node, there, session, ⟨member, runs⟩, key, holds, rfl⟩

theorem exists_mem_groupKeys_iff {ring : Nat} {key : GroupKey} :
    (∃ node, (node, key) ∈ s.groupKeys ring) ↔ s.HoldsGroupKey ring key := by
  simp only [mem_groupKeys_iff, Snapshot.HoldsGroupKey]

theorem exists_mem_effectiveKeys_iff {key : ClusterKey} :
    (∃ node, (node, key) ∈ s.effectiveKeys) ↔ s.HoldsEffectiveKey key := by
  simp [Snapshot.effectiveKeys, Snapshot.HoldsEffectiveKey]

theorem checkRing_eq_none_iff {layout : RingSnapshot} {ring : Nat} :
    checkRing s (layout, ring) = none ↔
      ∀ a b, s.HoldsGroupKey ring a → s.HoldsGroupKey ring b → a = b := by
  rw [checkRing, Option.map_eq_none_iff, firstDisagreement_eq_none_iff]
  simp only [exists_mem_groupKeys_iff]

theorem checkConvergence_eq_none_iff :
    checkConvergence s = none ↔
      ∀ a b, s.HoldsEffectiveKey a → s.HoldsEffectiveKey b → a = b := by
  rw [checkConvergence, Option.map_eq_none_iff, firstDisagreement_eq_none_iff]
  simp only [exists_mem_effectiveKeys_iff]

/-! ## Single nodes -/

theorem establishes_iff {node : NodeSnapshot} {level : Level} {key : ClusterKey} :
    ((node.session? level).bind (·.groupKey)).any (·.key = key.bytes) = true ↔
      node.Establishes level key := by
  simp only [Option.any_eq_true, Option.bind_eq_some_iff, decide_eq_true_eq]
  constructor
  · rintro ⟨groupKey, ⟨session, found, holds⟩, same⟩
    exact ⟨session, groupKey, found, holds, same⟩
  · rintro ⟨session, groupKey, found, holds, same⟩
    exact ⟨groupKey, ⟨session, found, holds⟩, same⟩

theorem checkSource_eq_none_iff {node : NodeSnapshot} :
    checkSource node = none ↔ ∀ key, node.effectiveKey = some key → node.Sources key := by
  unfold checkSource
  cases node.effectiveKey with
  | none => simp
  | some key =>
    simp only [Option.some.injEq, forall_eq', NodeSnapshot.Sources]
    cases node.role with
    | standalone => simp [establishes_iff]
    | leader => simp [establishes_iff]
    | member => cases node.session? .cluster <;> simp

theorem checkCompletion_eq_none_iff {node : NodeSnapshot} :
    checkCompletion node = none ↔ node.keyAnnouncements ≤ 1 ∧
      ∀ session ∈ node.sessions, session.completions ≤ 1 := by
  unfold checkCompletion
  split
  · rename_i again
    simp [Nat.not_le.2 again]
  · rename_i once
    simp [Nat.not_lt.1 once, List.findSome?_eq_none_iff, checkSessionCompletion]

theorem checkAborted_eq_none_iff {node : NodeSnapshot} :
    checkAborted node = none ↔
      (∀ session ∈ node.sessions, session.state = .aborted → session.groupKey = none) ∧
      (node.distributorAborted = true → node.effectiveKey = none) := by
  have sessions : node.sessions.findSome? (checkAbortedSession node) = none ↔
      ∀ session ∈ node.sessions, session.state = .aborted → session.groupKey = none := by
    simp [List.findSome?_eq_none_iff, checkAbortedSession]
  rw [← sessions, checkAborted]
  cases node.sessions.findSome? (checkAbortedSession node) with
  | some message => simp
  | none => simp

/-! ## Registries -/

/-- A check finds nothing exactly when its law holds. -/
theorem check_eq_none_iff {i : Invariant} : i.check s = none ↔ i.Holds s := by
  cases i with
  | ringKeyAgreement =>
    rw [check, List.findSome?_eq_none_iff]
    constructor
    · intro clear ring there
      have member : (s.rings[ring], ring) ∈ s.rings.zipIdx := by
        simp [List.mem_zipIdx_iff_getElem?, there]
      exact checkRing_eq_none_iff.1 (clear _ member)
    · rintro agree ⟨layout, ring⟩ member
      rw [List.mem_zipIdx_iff_getElem?] at member
      obtain ⟨there, -⟩ := List.getElem?_eq_some_iff.1 member
      exact checkRing_eq_none_iff.2 (agree ring there)
  | clusterKeyConvergence => exact checkConvergence_eq_none_iff
  | effectiveKeySource =>
    simp only [check, Holds, List.findSome?_eq_none_iff, checkSource_eq_none_iff]
  | singleCompletion =>
    simp only [check, Holds, List.findSome?_eq_none_iff, checkCompletion_eq_none_iff]
  | abortedHoldsNoKey =>
    simp only [check, Holds, List.findSome?_eq_none_iff, checkAborted_eq_none_iff]

instance (s : Snapshot) (i : Invariant) : Decidable (i.Holds s) :=
  decidable_of_iff (i.check s = none) check_eq_none_iff

/-- A registry tells of each of its laws that fails, once and in its order. -/
theorem map_invariant_violations (s : Snapshot) (registry : List Invariant) :
    (violations s registry).map (·.invariant) = registry.filter fun i => ¬ i.Holds s := by
  induction registry with
  | nil => rfl
  | cons i rest ih =>
    rw [List.filter_cons, ← ih, violations, List.filterMap_cons]
    cases found : i.check s with
    | none =>
      have law : i.Holds s := check_eq_none_iff.1 found
      simp [law, violations]
    | some message =>
      have broken : ¬ i.Holds s := by
        rw [← check_eq_none_iff, found]
        exact nofun
      simp [broken, violations]

theorem mem_standard (i : Invariant) : i ∈ standard := by
  cases i <;> simp [standard]

/-- The standard registry passes a deployment exactly when every law holds in it. Otherwise it
reports one violation for each law that fails, in its order. -/
theorem registry_reports_failed_laws (s : Snapshot) :
    (violations s standard = [] ↔ ∀ i : Invariant, i.Holds s) ∧
    (violations s standard).map (·.invariant) = standard.filter fun i => ¬ i.Holds s := by
  refine ⟨?_, map_invariant_violations s standard⟩
  rw [← List.map_eq_nil_iff, map_invariant_violations, List.filter_eq_nil_iff]
  constructor
  · intro clear i
    simpa using clear i (mem_standard i)
  · intro laws i _
    simpa using laws i

end Invariant

end RingAgreement.Simulation

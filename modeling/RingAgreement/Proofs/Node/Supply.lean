import RingAgreement.Proofs.Node.Distributor
/-!
Distribution without trouble. A distributor that is only handed keys wrapped for its cluster never
fails, a wrapped key that has come is not lost, and a leader broadcasts the key that it installs.
-/

namespace RingAgreement.Distributor

variable {d : Distributor}

/-- A wrapped key has come, or none is needed any more. -/
def Supplied (d : Distributor) : Prop := d.pending.isSome ∨ d.effective.isSome

/-- A step that does not fail and after which no wrapped key is missing that was there before. -/
structure Smooth (d : Distributor) (outcome : DistributorOutcome) : Prop where
  ok : outcome.1 = .ok outcome.actions
  alive : outcome.2.aborted = d.aborted
  supplied : d.Supplied → outcome.2.Supplied

theorem Opens.smooth {cluster : GroupKey} {wrapped : WrappedKey} {outcome : DistributorOutcome}
    (opens : d.Opens cluster wrapped outcome)
    (fits : ∃ key, (WrappingKey.derive cluster).wrap key = wrapped) :
    d.Smooth outcome ∧ outcome.2.Supplied := by
  cases opens with
  | opened => exact ⟨⟨rfl, rfl, fun _ => .inr rfl⟩, .inr rfl⟩
  | spoilt foreign =>
    obtain ⟨key, wraps⟩ := fits
    exact absurd wraps (foreign key)

theorem Recorded.smooth {level : Level} {key : GroupKey} {outcome : DistributorOutcome}
    (recorded : d.Recorded level key outcome)
    (fits : level = .cluster → ∀ wrapped, d.pending = some wrapped →
      ∃ inner, (WrappingKey.derive key).wrap inner = wrapped) : d.Smooth outcome := by
  have kept : d.Supplied → (d.withKey level key).Supplied := by
    intro supplied
    rw [Supplied, pending_withKey, effective_withKey]
    exact supplied
  cases recorded with
  | used => exact ⟨rfl, d.aborted_withKey level key, fun _ => .inr rfl⟩
  | kept => exact ⟨rfl, d.aborted_withKey level key, kept⟩
  | wrapped => exact ⟨rfl, d.aborted_withKey level key, fun _ => .inr rfl⟩
  | awaiting => exact ⟨rfl, d.aborted_withKey level key, kept⟩
  | supplied member own present opens =>
    obtain ⟨smooth, supplied⟩ := opens.smooth (fits own _ present)
    exact ⟨smooth.ok, smooth.alive.trans (d.aborted_withKey level key), fun _ => supplied⟩

/-- A member that has taken a wrapped key of its cluster lacks none. -/
theorem Received.smooth {wrapped : WrappedKey} {outcome : DistributorOutcome}
    (received : d.Received wrapped outcome) (alive : d.aborted = false) (member : d.role = .member)
    (fits : ∀ cluster, d.clusterKey = some cluster →
      ∃ inner, (WrappingKey.derive cluster).wrap inner = wrapped) :
    d.Smooth outcome ∧ outcome.2.Supplied := by
  cases received with
  | ended aborted =>
    rw [alive] at aborted
    cases aborted
  | unneeded needless =>
    have supplied : d.Supplied := .inr (needless.resolve_left (not_not.2 member))
    exact ⟨⟨rfl, rfl, id⟩, supplied⟩
  | buffered => exact ⟨⟨rfl, rfl, fun _ => .inl rfl⟩, .inl rfl⟩
  | supplied _ _ _ keyed opens => exact opens.smooth (fits _ keyed)

/-- Only a leader broadcasts, and only the key of the leaders, wrapped for its cluster. -/
theorem Recorded.broadcast {level : Level} {key : GroupKey} {outcome : DistributorOutcome}
    (recorded : d.Recorded level key outcome) {wrapped : WrappedKey}
    (shown : .broadcastWrapped wrapped ∈ outcome.actions) :
    d.role = .leader ∧ ∃ cluster leader, outcome.2.clusterKey = some cluster ∧
      outcome.2.leaderKey = some leader ∧
        wrapped = (WrappingKey.derive cluster).wrap leader.key := by
  cases recorded with
  | wrapped leading clusterKey leaderKey =>
    exact ⟨leading, _, _, clusterKey, leaderKey, by simpa [DistributorOutcome.actions] using shown⟩
  | supplied _ _ _ opens =>
    cases opens <;> simp [DistributorOutcome.actions] at shown
  | _ => simp [DistributorOutcome.actions] at shown

/-- A leader that installs its key broadcasts it. -/
theorem Recorded.broadcasts {level : Level} {key : GroupKey} {outcome : DistributorOutcome}
    (recorded : d.Recorded level key outcome) (leading : d.role = .leader)
    (unset : d.effective = none) (installed : outcome.2.effective.isSome) :
    ∃ wrapped, .broadcastWrapped wrapped ∈ outcome.actions := by
  cases recorded with
  | used standalone => simp [leading] at standalone
  | kept => simp [unset] at installed
  | wrapped => exact ⟨_, List.mem_cons_self⟩
  | awaiting member => simp [leading] at member
  | supplied member => simp [leading] at member

theorem Received.not_broadcast {wrapped wrapped' : WrappedKey} {outcome : DistributorOutcome}
    (received : d.Received wrapped outcome) :
    .broadcastWrapped wrapped' ∉ outcome.actions := by
  cases received with
  | supplied _ _ _ _ opens => cases opens <;> simp [DistributorOutcome.actions]
  | _ => simp [DistributorOutcome.actions]

end RingAgreement.Distributor

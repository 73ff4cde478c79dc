import Mathlib.Logic.Function.Basic
import RingAgreement.Node.Distributor
import RingAgreement.Proofs.Cluster.WrappedKey
/-!
What a distributor makes of what it is told. In any order of events it installs at most one key, and
the key that it has installed is the one that its role takes from the keys of the two rings and from
the wrapped keys that came.
-/

namespace RingAgreement

/-- The key that an action makes the effective one. -/
def DistributorAction.key? : DistributorAction → Option ClusterKey
  | broadcastWrapped _ => none
  | effectiveKey key => some key

def DistributorOutcome.actions (outcome : DistributorOutcome) : List DistributorAction :=
  match outcome.1 with
  | .ok actions => actions
  | .error _ => []

namespace Distributor

variable (d : Distributor)

/-- The key of a ring, as far as the distributor knows it. -/
def key : Level → Option GroupKey
  | .cluster => d.clusterKey
  | .leader => d.leaderKey

/-- Tells the distributor about the key of a ring. -/
def record (level : Level) (key : GroupKey) : DistributorOutcome :=
  match level with
  | .cluster => d.clusterEstablished key
  | .leader => d.leaderEstablished key

def withKey (level : Level) (key : GroupKey) : Distributor :=
  match level with
  | .cluster => { d with clusterKey := some key }
  | .leader => { d with leaderKey := some key }

def withEffective (key : ClusterKey) : Distributor := { d with effective := some key }

/-- The distributor after a wrapped key that it could not open. -/
def givenUp : Distributor := { d with aborted := true, pending := none }

theorem key_withKey (level : Level) (key : GroupKey) :
    (d.withKey level key).key = Function.update d.key level (some key) := by
  funext other
  cases level <;> cases other <;> rfl

@[simp] theorem role_withKey (level : Level) (key : GroupKey) :
    (d.withKey level key).role = d.role := by
  cases level <;> rfl

@[simp] theorem effective_withKey (level : Level) (key : GroupKey) :
    (d.withKey level key).effective = d.effective := by
  cases level <;> rfl

@[simp] theorem pending_withKey (level : Level) (key : GroupKey) :
    (d.withKey level key).pending = d.pending := by
  cases level <;> rfl

@[simp] theorem aborted_withKey (level : Level) (key : GroupKey) :
    (d.withKey level key).aborted = d.aborted := by
  cases level <;> rfl

/-! ## The invariant -/

/-- What a distributor has installed and kept, by role. A wrapped key counts as heard when it came
from the cluster. -/
structure Coherent (heard : WrappedKey → Prop) : Prop where
  standalone : d.role = .standalone → d.effective = d.clusterKey.map fun g => ⟨g.key⟩
  leading : d.role = .leader →
    d.effective = d.clusterKey.bind fun _ => d.leaderKey.map fun g => ⟨g.key⟩
  unwrapped : d.role = .member → ∀ key, d.effective = some key →
    ∃ g, d.clusterKey = some g ∧ heard ((WrappingKey.derive g).wrap key.bytes)
  unled : d.role ≠ .leader → d.leaderKey = none
  pending : ∀ wrapped, d.pending = some wrapped →
    d.role = .member ∧ d.clusterKey = none ∧ heard wrapped
  aborted : d.aborted = true → d.role = .member ∧ d.clusterKey.isSome ∧ d.effective = none

variable {d} {heard : WrappedKey → Prop}

theorem initial_coherent (role : Role) : (initial role).Coherent heard := by
  constructor <;> simp [initial]

theorem Coherent.mono (coherent : d.Coherent heard) {heard' : WrappedKey → Prop}
    (more : ∀ wrapped, heard wrapped → heard' wrapped) : d.Coherent heard' where
  standalone := coherent.standalone
  leading := coherent.leading
  unwrapped := fun member key installed =>
    have ⟨g, keyed, came⟩ := coherent.unwrapped member key installed
    ⟨g, keyed, more _ came⟩
  unled := coherent.unled
  pending := fun wrapped kept =>
    have ⟨member, keyless, came⟩ := coherent.pending wrapped kept
    ⟨member, keyless, more _ came⟩
  aborted := coherent.aborted

/-- What the invariant says of a member. -/
theorem coherent_of_member (member : d.role = .member) (unled : d.leaderKey = none)
    (unwrapped : ∀ key, d.effective = some key →
      ∃ g, d.clusterKey = some g ∧ heard ((WrappingKey.derive g).wrap key.bytes))
    (pending : ∀ wrapped, d.pending = some wrapped → d.clusterKey = none ∧ heard wrapped)
    (aborted : d.aborted = true → d.clusterKey.isSome ∧ d.effective = none) :
    d.Coherent heard where
  standalone := by simp [member]
  leading := by simp [member]
  unwrapped := fun _ => unwrapped
  unled := fun _ => unled
  pending := fun wrapped kept => ⟨member, pending wrapped kept⟩
  aborted := fun ended => ⟨member, aborted ended⟩

/-- What the invariant says of those that no wrapped key concerns. -/
theorem coherent_of_source (source : d.role ≠ .member)
    (unled : d.role ≠ .leader → d.leaderKey = none)
    (standalone : d.role = .standalone → d.effective = d.clusterKey.map fun g => ⟨g.key⟩)
    (leading : d.role = .leader →
      d.effective = d.clusterKey.bind fun _ => d.leaderKey.map fun g => ⟨g.key⟩)
    (nothing : d.pending = none) (alive : d.aborted = false) : d.Coherent heard where
  standalone := standalone
  leading := leading
  unwrapped := fun member => absurd member source
  unled := unled
  pending := by simp [nothing]
  aborted := by simp [alive]

theorem Coherent.unset_of_member (coherent : d.Coherent heard) (member : d.role = .member)
    (keyless : d.clusterKey = none) : d.effective = none := by
  refine Option.eq_none_iff_forall_not_mem.2 fun key installed => ?_
  obtain ⟨g, keyed, _⟩ := coherent.unwrapped member key installed
  rw [keyless] at keyed
  cases keyed

/-! ## Steps -/

/-- How an attempt to open a wrapped key ends. -/
inductive Opens (d : Distributor) (cluster : GroupKey) (wrapped : WrappedKey) :
    DistributorOutcome → Prop
  | opened {key : Bytes 32} (wraps : (WrappingKey.derive cluster).wrap key = wrapped) :
      Opens d cluster wrapped (.ok [.effectiveKey ⟨key⟩], d.withEffective ⟨key⟩)
  | spoilt (foreign : ∀ key, (WrappingKey.derive cluster).wrap key ≠ wrapped) :
      Opens d cluster wrapped (.error (.verification .wrappedKeyTag), d.givenUp)

theorem unwrapWith_cases (unset : d.effective = none) (cluster : GroupKey) (wrapped : WrappedKey) :
    d.Opens cluster wrapped (d.unwrapWith cluster wrapped) := by
  rw [unwrapWith]
  split
  next key opened =>
    rw [install, unset]
    exact .opened (WrappingKey.wrap_of_unwrap opened)
  next error failed =>
    refine .spoilt fun key wraps => ?_
    rw [← wraps, WrappingKey.unwrap_wrap] at failed
    cases failed

/-- How a distributor takes the key of a ring that it did not have. -/
inductive Recorded (d : Distributor) (level : Level) (key : GroupKey) : DistributorOutcome → Prop
  | used (standalone : d.role = .standalone) (own : level = .cluster) :
      Recorded d level key
        (.ok [.effectiveKey ⟨key.key⟩], (d.withKey level key).withEffective ⟨key.key⟩)
  | kept (leading : d.role = .leader)
      (missing : (d.withKey level key).clusterKey = none ∨ (d.withKey level key).leaderKey = none) :
      Recorded d level key (.ok [], d.withKey level key)
  | wrapped {cluster leader : GroupKey} (leading : d.role = .leader)
      (clusterKey : (d.withKey level key).clusterKey = some cluster)
      (leaderKey : (d.withKey level key).leaderKey = some leader) :
      Recorded d level key
        (.ok [.broadcastWrapped ((WrappingKey.derive cluster).wrap leader.key),
          .effectiveKey ⟨leader.key⟩], (d.withKey level key).withEffective ⟨leader.key⟩)
  | awaiting (member : d.role = .member) (own : level = .cluster) (nothing : d.pending = none) :
      Recorded d level key (.ok [], d.withKey level key)
  | supplied {wrapped : WrappedKey} {outcome : DistributorOutcome} (member : d.role = .member)
      (own : level = .cluster) (kept : d.pending = some wrapped)
      (opens : Opens { d.withKey level key with pending := none } key wrapped outcome) :
      Recorded d level key outcome

/-- How a distributor takes a wrapped key. -/
inductive Received (d : Distributor) (wrapped : WrappedKey) : DistributorOutcome → Prop
  | ended (aborted : d.aborted = true) : Received d wrapped (.error .aborted, d)
  | unneeded (needless : d.role ≠ .member ∨ d.effective.isSome) : Received d wrapped (.ok [], d)
  | buffered (member : d.role = .member) (keyless : d.clusterKey = none) :
      Received d wrapped (.ok [], { d with pending := some wrapped })
  | supplied {cluster : GroupKey} {outcome : DistributorOutcome} (member : d.role = .member)
      (alive : d.aborted = false) (unset : d.effective = none) (keyed : d.clusterKey = some cluster)
      (opens : d.Opens cluster wrapped outcome) : Received d wrapped outcome

theorem receiveWrapped_cases (d : Distributor) (wrapped : WrappedKey) :
    d.Received wrapped (d.receiveWrapped wrapped) := by
  rw [receiveWrapped]
  split
  next aborted => exact .ended aborted
  next alive =>
    split
    next needless => exact .unneeded needless
    next needed =>
      obtain ⟨member, absent⟩ := not_or.1 needed
      have unset := Option.not_isSome_iff_eq_none.1 absent
      split
      next keyless => exact .buffered (not_not.1 member) keyless
      next cluster keyed =>
        exact .supplied (not_not.1 member) (Bool.eq_false_iff.2 alive) unset keyed
          (unwrapWith_cases unset cluster wrapped)

theorem Coherent.alive_of_keyless (coherent : d.Coherent heard) (keyless : d.clusterKey = none) :
    d.aborted = false := by
  refine Bool.eq_false_iff.2 fun aborted => ?_
  have keyed := (coherent.aborted aborted).2.1
  rw [keyless] at keyed
  cases keyed

theorem Coherent.alive_of_source (coherent : d.Coherent heard) (source : d.role ≠ .member) :
    d.aborted = false :=
  Bool.eq_false_iff.2 fun aborted => source (coherent.aborted aborted).1

theorem Coherent.nothing_of_source (coherent : d.Coherent heard) (source : d.role ≠ .member) :
    d.pending = none :=
  Option.eq_none_iff_forall_not_mem.2 fun wrapped kept => source (coherent.pending wrapped kept).1

/-- A distributor that still lacks a key has none installed. -/
theorem Coherent.unset_of_fresh (coherent : d.Coherent heard) {level : Level}
    (fresh : d.key level = none) (led : level = .leader → d.role = .leader) :
    d.effective = none := by
  cases level with
  | leader =>
    have keyless : d.leaderKey = none := fresh
    rw [coherent.leading (led rfl), keyless]
    simp
  | cluster =>
    have keyless : d.clusterKey = none := fresh
    cases role : d.role with
    | standalone => simp [coherent.standalone role, keyless]
    | leader => simp [coherent.leading role, keyless]
    | member => exact coherent.unset_of_member role keyless

theorem tryWrap_cases {level : Level} (leading : d.role = .leader) (unset : d.effective = none)
    (key : GroupKey) :
    d.Recorded level key
      (.ok (d.withKey level key).tryWrap.1, (d.withKey level key).tryWrap.2) := by
  rw [tryWrap, effective_withKey, unset]
  cases cluster : (d.withKey level key).clusterKey with
  | none => exact .kept leading (.inl cluster)
  | some g =>
    cases leader : (d.withKey level key).leaderKey with
    | none => exact .kept leading (.inr leader)
    | some l =>
      simp only [install, effective_withKey, unset]
      exact .wrapped leading cluster leader

theorem record_cases (coherent : d.Coherent heard) {level : Level} (fresh : d.key level = none)
    (led : level = .leader → d.role = .leader) (key : GroupKey) :
    d.Recorded level key (d.record level key) := by
  have unset := coherent.unset_of_fresh fresh led
  cases level with
  | leader =>
    have leading := led rfl
    have alive := coherent.alive_of_source (by simp [leading])
    have keyless : ¬ d.leaderKey.isSome = true := Option.not_isSome_iff_eq_none.2 fresh
    rw [record, leaderEstablished, if_neg (by simp [alive]), if_neg (not_not.2 leading),
      if_neg keyless]
    exact tryWrap_cases leading unset key
  | cluster =>
    have keyless : d.clusterKey = none := fresh
    rw [record, clusterEstablished, if_neg (by simp [coherent.alive_of_keyless keyless]),
      if_neg (Option.not_isSome_iff_eq_none.2 keyless)]
    dsimp only
    split
    next standalone =>
      simp only [install, unset]
      exact .used standalone rfl
    next leading => exact tryWrap_cases leading unset key
    next member =>
      split
      next wrapped kept =>
        exact .supplied member rfl kept
          (unwrapWith_cases (d := { d.withKey .cluster key with pending := none }) unset key
            wrapped)
      next nothing => exact .awaiting member rfl nothing

/-! ## Preservation -/

theorem Opens.coherent {cluster : GroupKey} {wrapped : WrappedKey} {outcome : DistributorOutcome}
    (opens : d.Opens cluster wrapped outcome) (coherent : d.Coherent heard)
    (member : d.role = .member) (keyed : d.clusterKey = some cluster)
    (unset : d.effective = none) (alive : d.aborted = false) (came : heard wrapped) :
    outcome.2.Coherent heard := by
  have unled : d.leaderKey = none := coherent.unled (by simp [member])
  have nothing : d.pending = none := Option.eq_none_iff_forall_not_mem.2 fun w kept => by
    have keyless := (coherent.pending w kept).2.1
    rw [keyed] at keyless
    cases keyless
  cases opens with
  | @opened key wraps =>
    refine coherent_of_member member unled (fun k same => ?_) (by simp [withEffective, nothing])
      (by simp [withEffective, alive])
    obtain rfl := Option.some.inj same
    exact ⟨cluster, keyed, wraps ▸ came⟩
  | spoilt =>
    exact coherent_of_member member unled (by simp [givenUp, unset]) (by simp [givenUp])
      fun _ => ⟨by simp [givenUp, keyed], unset⟩

theorem Recorded.coherent {level : Level} {key : GroupKey} {outcome : DistributorOutcome}
    (recorded : d.Recorded level key outcome) (coherent : d.Coherent heard)
    (fresh : d.key level = none) (led : level = .leader → d.role = .leader) :
    outcome.2.Coherent heard := by
  have unset := coherent.unset_of_fresh fresh led
  cases recorded with
  | used standalone own =>
    subst own
    have source : d.role ≠ .member := by simp [standalone]
    exact coherent_of_source source coherent.unled (fun _ => rfl)
      (fun leading => by simp [withEffective, standalone] at leading)
      (coherent.nothing_of_source source) (coherent.alive_of_source source)
  | kept leading missing =>
    have source : d.role ≠ .member := by simp [leading]
    refine coherent_of_source (by simp [leading]) (by simp [leading]) (by simp [leading])
      (fun _ => ?_) (by simp [coherent.nothing_of_source source])
      (by simp [coherent.alive_of_source source])
    rcases missing with missing | missing
    · simp [unset, missing]
    · simp [unset, missing]
  | wrapped leading clusterKey leaderKey =>
    have source : d.role ≠ .member := by simp [leading]
    refine coherent_of_source (by simp [withEffective, leading]) (by simp [withEffective, leading])
      (by simp [withEffective, leading]) (fun _ => ?_)
      (by simp [withEffective, coherent.nothing_of_source source])
      (by simp [withEffective, coherent.alive_of_source source])
    simp [withEffective, clusterKey, leaderKey]
  | awaiting member own nothing =>
    subst own
    exact coherent_of_member member (coherent.unled (by simp [member])) (by simp [unset])
      (by simp [nothing]) (by simp [coherent.alive_of_keyless fresh])
  | @supplied wrapped _ member own kept opens =>
    subst own
    have alive := coherent.alive_of_keyless fresh
    have emptied : { d.withKey .cluster key with pending := none }.Coherent heard :=
      coherent_of_member member (coherent.unled (by simp [member])) (by simp [unset])
        (by simp) (by simp [alive])
    exact opens.coherent emptied member rfl unset alive (coherent.pending wrapped kept).2.2

theorem Received.coherent {wrapped : WrappedKey} {outcome : DistributorOutcome}
    (received : d.Received wrapped outcome) (coherent : d.Coherent heard) (came : heard wrapped) :
    outcome.2.Coherent heard := by
  cases received with
  | ended => exact coherent
  | unneeded => exact coherent
  | buffered member keyless =>
    refine coherent_of_member member (coherent.unled (by simp [member]))
      (by simp [coherent.unset_of_member member keyless]) (fun w same => ?_)
      (by simp [coherent.alive_of_keyless keyless])
    obtain rfl := Option.some.inj same
    exact ⟨keyless, came⟩
  | supplied member alive unset keyed opens =>
    exact opens.coherent coherent member keyed unset alive came

/-! ## What a step adds -/

/-- The distributor holds the key that it held before, or the one that its actions announce. -/
def Announces (d : Distributor) (outcome : DistributorOutcome) : Prop :=
  d.effective.toList ++ outcome.actions.filterMap (·.key?) = outcome.2.effective.toList

theorem Opens.announces {cluster : GroupKey} {wrapped : WrappedKey} {outcome : DistributorOutcome}
    (opens : d.Opens cluster wrapped outcome) (unset : d.effective = none) :
    d.Announces outcome := by
  cases opens with
  | opened =>
    simp [Announces, DistributorOutcome.actions, DistributorAction.key?, withEffective, unset]
  | spoilt => simp [Announces, DistributorOutcome.actions, givenUp]

theorem Recorded.announces {level : Level} {key : GroupKey} {outcome : DistributorOutcome}
    (recorded : d.Recorded level key outcome) (unset : d.effective = none) :
    d.Announces outcome := by
  cases recorded with
  | supplied member own kept opens =>
    subst own
    exact opens.announces unset
  | _ =>
    simp [Announces, DistributorOutcome.actions, DistributorAction.key?, withEffective, unset]

theorem Received.announces {wrapped : WrappedKey} {outcome : DistributorOutcome}
    (received : d.Received wrapped outcome) : d.Announces outcome := by
  cases received with
  | supplied member alive unset keyed opens => exact opens.announces unset
  | _ => simp [Announces, DistributorOutcome.actions]

theorem Opens.key_eq {cluster : GroupKey} {wrapped : WrappedKey} {outcome : DistributorOutcome}
    (opens : d.Opens cluster wrapped outcome) : outcome.2.key = d.key := by
  cases opens <;> funext level <;> cases level <;> rfl

theorem Recorded.key_eq {level : Level} {key : GroupKey} {outcome : DistributorOutcome}
    (recorded : d.Recorded level key outcome) :
    outcome.2.key = Function.update d.key level (some key) := by
  rw [← key_withKey]
  cases recorded with
  | supplied member own kept opens =>
    rw [opens.key_eq]
    funext other
    cases other <;> rfl
  | _ =>
    funext other
    cases other <;> rfl

theorem Received.key_eq {wrapped : WrappedKey} {outcome : DistributorOutcome}
    (received : d.Received wrapped outcome) : outcome.2.key = d.key := by
  cases received with
  | supplied member alive unset keyed opens => exact opens.key_eq
  | _ =>
    funext level
    cases level <;> rfl

theorem Opens.role_eq {cluster : GroupKey} {wrapped : WrappedKey} {outcome : DistributorOutcome}
    (opens : d.Opens cluster wrapped outcome) : outcome.2.role = d.role := by
  cases opens <;> rfl

theorem Recorded.role_eq {level : Level} {key : GroupKey} {outcome : DistributorOutcome}
    (recorded : d.Recorded level key outcome) : outcome.2.role = d.role := by
  rw [← d.role_withKey level key]
  cases recorded with
  | supplied member own kept opens => exact opens.role_eq
  | _ => rfl

theorem Received.role_eq {wrapped : WrappedKey} {outcome : DistributorOutcome}
    (received : d.Received wrapped outcome) : outcome.2.role = d.role := by
  cases received with
  | supplied member alive unset keyed opens => exact opens.role_eq
  | _ => rfl

end Distributor

end RingAgreement

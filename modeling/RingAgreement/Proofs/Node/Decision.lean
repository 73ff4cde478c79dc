import Mathlib.Data.List.TakeWhile
import RingAgreement.Proofs.Node.Supply
/-!
The decision of a distribution, read off the calls that a distributor has taken. The first keys of
the rings count, and of the wrapped keys that a member is sent, the last one before the cluster key
or else the first one after it.
-/

namespace RingAgreement

/-- What a distributor is told. -/
inductive DistributorCall where
  | established (level : Level) (key : GroupKey)
  | received (wrapped : WrappedKey)
deriving DecidableEq, Repr

namespace DistributorCall

def groupKey? (level : Level) : DistributorCall → Option GroupKey
  | established other key => if other = level then some key else none
  | received _ => none

def wrapped? : DistributorCall → Option WrappedKey
  | established _ _ => none
  | received wrapped => some wrapped

/-- The first key of a ring. -/
def firstKey (level : Level) (calls : List DistributorCall) : Option GroupKey :=
  calls.findSome? (·.groupKey? level)

def keyless (call : DistributorCall) : Bool := (call.groupKey? .cluster).isNone

/-- The wrapped key that counts: the last one before the first cluster key, or else the first one
after it. -/
def deciding (calls : List DistributorCall) : Option WrappedKey :=
  ((calls.takeWhile (·.keyless)).filterMap (·.wrapped?)).getLast?.or
    ((calls.dropWhile (·.keyless)).findSome? (·.wrapped?))

/-- What the calls have decided for a role: nothing yet, a key, or that the wrapped key which counts
cannot be opened. -/
def verdict (role : Role) (calls : List DistributorCall) :
    Option (Except CryptoError ClusterKey) :=
  (firstKey .cluster calls).bind fun cluster =>
    match role with
    | .standalone => some (.ok ⟨cluster.key⟩)
    | .leader => (firstKey .leader calls).map fun leader => .ok ⟨leader.key⟩
    | .member => (deciding calls).map fun wrapped =>
      ((WrappingKey.derive cluster).unwrap wrapped).map ClusterKey.mk

variable {calls : List DistributorCall}

theorem firstKey_append (level : Level) (calls more : List DistributorCall) :
    firstKey level (calls ++ more) = (firstKey level calls).or (firstKey level more) :=
  List.findSome?_append

theorem firstKey_concat (level : Level) (calls : List DistributorCall) (call : DistributorCall) :
    firstKey level (calls ++ [call]) = (firstKey level calls).or (call.groupKey? level) := by
  rw [firstKey_append, firstKey, firstKey, List.findSome?_singleton]

theorem forall_keyless_iff : (∀ call ∈ calls, call.keyless) ↔ firstKey .cluster calls = none := by
  simp [firstKey, keyless]

/-- After the cluster key the first wrapped key counts. -/
theorem deciding_concat_of_keyed (keyed : firstKey .cluster calls ≠ none)
    (call : DistributorCall) : deciding (calls ++ [call]) = (deciding calls).or call.wrapped? := by
  have left : calls.dropWhile (·.keyless) ≠ [] := by
    rw [Ne, List.dropWhile_eq_nil_iff, forall_keyless_iff]
    exact keyed
  have short : (calls.takeWhile (·.keyless)).length ≠ calls.length := by
    intro whole
    have all := (List.takeWhile_prefix keyless).eq_of_length whole
    exact keyed (forall_keyless_iff.1 (List.takeWhile_eq_self_iff.1 all))
  rw [deciding, List.takeWhile_append, if_neg short, List.dropWhile_append,
    if_neg (by simpa using left), List.findSome?_append, List.findSome?_singleton,
    ← Option.or_assoc]
  rfl

/-- Before the cluster key the last wrapped key counts. -/
theorem deciding_concat_of_keyless (none : firstKey .cluster calls = none)
    (call : DistributorCall) : deciding (calls ++ [call]) = call.wrapped?.or (deciding calls) := by
  have all := forall_keyless_iff.2 none
  have before : deciding calls = (calls.filterMap (·.wrapped?)).getLast? := by
    rw [deciding, List.takeWhile_eq_self_iff.2 all, List.dropWhile_eq_nil_iff.2 all]
    simp
  rw [before, deciding, List.takeWhile_append_of_pos all, List.dropWhile_append_of_pos all]
  cases call with
  | received wrapped =>
    have own : [received wrapped].takeWhile (·.keyless) = [received wrapped] := rfl
    rw [own, List.filterMap_append, List.getLast?_append]
    rfl
  | established level key =>
    cases level
    · have own : [established .cluster key].takeWhile (·.keyless) = [] := rfl
      rw [own, List.append_nil]
      exact Option.or_none
    · have own : [established .leader key].takeWhile (·.keyless) = [established .leader key] := rfl
      rw [own, List.filterMap_append]
      simp [wrapped?, keyless, groupKey?]

theorem deciding_concat_established (calls : List DistributorCall) (level : Level)
    (key : GroupKey) : deciding (calls ++ [established level key]) = deciding calls := by
  cases keyed : firstKey .cluster calls with
  | none => exact deciding_concat_of_keyless keyed _
  | some cluster =>
    rw [deciding_concat_of_keyed (by simp [keyed])]
    exact Option.or_none

theorem deciding_ne_none {wrapped : WrappedKey} (came : .received wrapped ∈ calls) :
    deciding calls ≠ none := by
  intro lacking
  obtain ⟨early, late⟩ := Option.or_eq_none_iff.1 lacking
  rw [List.getLast?_eq_none_iff, List.filterMap_eq_nil_iff] at early
  rw [List.findSome?_eq_none_iff] at late
  rw [← calls.takeWhile_append_dropWhile (p := (·.keyless)), List.mem_append] at came
  rcases came with before | after
  · cases early _ before
  · cases late _ after

theorem verdict_of_keyless (role : Role) (keyless : firstKey .cluster calls = none) :
    verdict role calls = none := by
  rw [verdict, keyless, Option.bind_none]

theorem verdict_member {cluster : GroupKey} (keyed : firstKey .cluster calls = some cluster) :
    verdict .member calls = (deciding calls).map fun wrapped =>
      ((WrappingKey.derive cluster).unwrap wrapped).map ClusterKey.mk := by
  rw [verdict, keyed, Option.bind_some]

/-- What is decided stays decided. -/
theorem verdict_concat {role : Role} {decision : Except CryptoError ClusterKey}
    (decided : verdict role calls = some decision) (call : DistributorCall) :
    verdict role (calls ++ [call]) = some decision := by
  obtain ⟨cluster, keyed, settled⟩ := Option.bind_eq_some_iff.1 decided
  rw [verdict, firstKey_concat, keyed, Option.some_or, Option.bind_some]
  cases role with
  | standalone => exact settled
  | leader =>
    obtain ⟨leader, led, same⟩ := Option.map_eq_some_iff.1 settled
    simp [firstKey_concat, led, same]
  | member =>
    obtain ⟨wrapped, counts, same⟩ := Option.map_eq_some_iff.1 settled
    have present : firstKey .cluster calls ≠ none := by simp [keyed]
    have after := deciding_concat_of_keyed present call
    simp [after, counts, same]

end DistributorCall

/-- The wrapped key that an action broadcasts. -/
def DistributorAction.broadcast? : DistributorAction → Option WrappedKey
  | broadcastWrapped wrapped => some wrapped
  | effectiveKey _ => none

namespace Distributor

open DistributorCall

def take (d : Distributor) : DistributorCall → DistributorOutcome
  | .established level key => d.record level key
  | .received wrapped => d.receiveWrapped wrapped

def after (d : Distributor) (calls : List DistributorCall) : Distributor :=
  calls.foldl (fun d call => (d.take call).2) d

/-- What comes out over a list of calls. -/
def actions (d : Distributor) : List DistributorCall → List DistributorAction
  | [] => []
  | call :: rest => (d.take call).actions ++ (d.take call).2.actions rest

variable {d : Distributor} {heard : WrappedKey → Prop}

theorem after_append (d : Distributor) (calls more : List DistributorCall) :
    d.after (calls ++ more) = (d.after calls).after more :=
  List.foldl_append

theorem take_of_aborted (aborted : d.aborted = true) (call : DistributorCall) :
    d.take call = (.error .aborted, d) := by
  cases call with
  | established level key =>
    cases level
    · rw [take, record, clusterEstablished, if_pos aborted]
    · rw [take, record, leaderEstablished, if_pos aborted]
  | received wrapped => rw [take, receiveWrapped, if_pos aborted]

theorem after_of_aborted (aborted : d.aborted = true) (calls : List DistributorCall) :
    d.after calls = d := by
  induction calls with
  | nil => rfl
  | cons call rest ih =>
    rw [after, List.foldl_cons, take_of_aborted aborted]
    exact ih

/-- A key that is there already, or that the role has no use for, is passed over. -/
theorem record_idle {level : Level}
    (idle : (d.key level).isSome ∨ level = .leader ∧ d.role ≠ .leader) (key : GroupKey) :
    (d.record level key).2 = d ∧ (d.record level key).actions = [] := by
  cases level with
  | cluster =>
    have keyed : d.clusterKey.isSome := idle.resolve_right (by simp)
    rw [record, clusterEstablished, if_pos keyed]
    split
    · exact ⟨rfl, rfl⟩
    · exact ⟨rfl, rfl⟩
  | leader =>
    rw [record, leaderEstablished]
    split
    · exact ⟨rfl, rfl⟩
    · split
      · exact ⟨rfl, rfl⟩
      next led =>
        have keyed : d.leaderKey.isSome := idle.resolve_right fun outside => led outside.2
        rw [if_pos keyed]
        exact ⟨rfl, rfl⟩

/-- How a distributor takes a call. -/
inductive Takes (d : Distributor) : DistributorCall → DistributorOutcome → Prop
  | received {wrapped : WrappedKey} {outcome : DistributorOutcome}
      (received : d.Received wrapped outcome) : Takes d (.received wrapped) outcome
  | recorded {level : Level} {key : GroupKey} {outcome : DistributorOutcome}
      (fresh : d.key level = none) (led : level = .leader → d.role = .leader)
      (recorded : d.Recorded level key outcome) : Takes d (.established level key) outcome
  | idle {level : Level} {key : GroupKey} {outcome : DistributorOutcome}
      (idle : (d.key level).isSome ∨ level = .leader ∧ d.role ≠ .leader)
      (same : outcome.2 = d) (silent : outcome.actions = []) :
      Takes d (.established level key) outcome

theorem Coherent.take_cases (coherent : d.Coherent heard) (call : DistributorCall) :
    d.Takes call (d.take call) := by
  cases call with
  | received wrapped => exact .received (d.receiveWrapped_cases wrapped)
  | established level key =>
    by_cases idle : (d.key level).isSome ∨ level = .leader ∧ d.role ≠ .leader
    · obtain ⟨same, silent⟩ := record_idle idle key
      exact .idle idle same silent
    · obtain ⟨keyless, placed⟩ := not_or.1 idle
      have fresh := Option.not_isSome_iff_eq_none.1 keyless
      have led : level = .leader → d.role = .leader := by
        intro above
        by_contra outside
        exact placed ⟨above, outside⟩
      exact .recorded fresh led (record_cases coherent fresh led key)

/-! ## What a distributor makes of the calls -/

/-- A distributor that has come to a decision, or to none. -/
inductive Settled (d : Distributor) : Option (Except CryptoError ClusterKey) → Prop
  | undecided (unset : d.effective = none) (alive : d.aborted = false) : Settled d none
  | decided {key : ClusterKey} (installed : d.effective = some key) (alive : d.aborted = false) :
      Settled d (some (.ok key))
  | failed {error : CryptoError} (unset : d.effective = none) (aborted : d.aborted = true) :
      Settled d (some (.error error))

theorem Settled.effective_iff {decision : Option (Except CryptoError ClusterKey)}
    (settled : d.Settled decision) (key : ClusterKey) :
    d.effective = some key ↔ decision = some (.ok key) := by
  cases settled with
  | undecided unset => simp [unset]
  | decided installed => simp [installed]
  | failed unset => simp [unset]

theorem Settled.aborted_iff {decision : Option (Except CryptoError ClusterKey)}
    (settled : d.Settled decision) :
    d.aborted = true ↔ ∃ error, decision = some (.error error) := by
  cases settled with
  | undecided _ alive => simp [alive]
  | decided _ alive => simp [alive]
  | failed _ aborted => simp [aborted]

/-- The distributor of a role after some calls. -/
structure Follows (role : Role) (calls : List DistributorCall) (d : Distributor) : Prop where
  coherent : d.Coherent fun _ => True
  role_eq : d.role = role
  keys : ∀ level, (level = .leader → role = .leader) → d.key level = firstKey level calls
  waiting : role = .member → d.clusterKey = none → d.pending = deciding calls
  settled : d.Settled (verdict role calls)

theorem initial_follows (role : Role) : Follows role [] (initial role) where
  coherent := initial_coherent role
  role_eq := rfl
  keys := fun level _ => by cases level <;> rfl
  waiting := fun _ _ => rfl
  settled := .undecided rfl rfl

variable {role : Role} {calls : List DistributorCall}

/-- Without wrapped keys the decision is a matter of the keys of the rings. -/
theorem settled_of_source (coherent : d.Coherent heard) (source : d.role ≠ .member)
    (keys : ∀ level, (level = .leader → d.role = .leader) → d.key level = firstKey level calls) :
    d.Settled (verdict d.role calls) := by
  have alive := coherent.alive_of_source source
  have clusterKey : d.clusterKey = firstKey .cluster calls := keys .cluster (by simp)
  rw [verdict, ← clusterKey]
  cases role : d.role with
  | standalone =>
    have effective := coherent.standalone role
    cases keyed : d.clusterKey with
    | none => exact .undecided (by rw [effective, keyed]; rfl) alive
    | some cluster => exact .decided (by rw [effective, keyed]; rfl) alive
  | leader =>
    have leaderKey : d.leaderKey = firstKey .leader calls := keys .leader fun _ => role
    have effective := coherent.leading role
    rw [← leaderKey]
    cases keyed : d.clusterKey with
    | none => exact .undecided (by rw [effective, keyed]; rfl) alive
    | some cluster =>
      cases led : d.leaderKey with
      | none => exact .undecided (by rw [effective, keyed, led]; rfl) alive
      | some leader => exact .decided (by rw [effective, keyed, led]; rfl) alive
  | member => exact absurd role source

theorem Opens.settled {cluster : GroupKey} {wrapped : WrappedKey} {outcome : DistributorOutcome}
    (opens : d.Opens cluster wrapped outcome) (unset : d.effective = none)
    (alive : d.aborted = false) :
    outcome.2.Settled (some (((WrappingKey.derive cluster).unwrap wrapped).map ClusterKey.mk)) := by
  cases opens with
  | opened wraps =>
    rw [← wraps, WrappingKey.unwrap_wrap]
    exact .decided rfl alive
  | spoilt foreign =>
    cases inner : (WrappingKey.derive cluster).unwrap wrapped with
    | ok key => exact absurd (WrappingKey.wrap_of_unwrap inner) (foreign key)
    | error => exact .failed unset rfl

theorem follows_of_source (coherent : d.Coherent fun _ => True) (role_eq : d.role = role)
    (source : role ≠ .member)
    (keys : ∀ level, (level = .leader → role = .leader) → d.key level = firstKey level calls) :
    Follows role calls d := by
  subst role_eq
  exact ⟨coherent, rfl, keys, fun member => absurd member source,
    settled_of_source coherent source keys⟩

/-- A member that has its cluster key and no key installed has not been sent a wrapped key. -/
theorem Follows.deciding_eq_none (follows : Follows .member calls d) {cluster : GroupKey}
    (keyed : d.clusterKey = some cluster) (unset : d.effective = none)
    (alive : d.aborted = false) : deciding calls = none := by
  have settled := follows.settled
  rw [verdict_member ((follows.keys .cluster (by simp)).symm.trans keyed)] at settled
  generalize counts : (deciding calls).map _ = decision at settled
  cases settled with
  | undecided => exact Option.map_eq_none_iff.1 counts
  | decided installed =>
    rw [unset] at installed
    cases installed
  | failed _ aborted =>
    rw [alive] at aborted
    cases aborted

/-- A member that has its cluster key and has been sent a wrapped key has come to an end. -/
theorem Follows.over_of_received (follows : Follows role calls d) (member : role = .member)
    {cluster : GroupKey} (keyed : d.clusterKey = some cluster) {wrapped : WrappedKey}
    (came : .received wrapped ∈ calls) : d.aborted = true ∨ d.effective.isSome := by
  subst member
  by_contra going
  obtain ⟨alive, unset⟩ := not_or.1 going
  exact deciding_ne_none came (follows.deciding_eq_none keyed
    (Option.not_isSome_iff_eq_none.1 unset) (Bool.eq_false_iff.2 alive))

/-- A decision is not changed by a further call. -/
theorem Settled.concat (settled : d.Settled (verdict role calls))
    (ended : d.aborted = true ∨ d.effective.isSome) (call : DistributorCall) :
    d.Settled (verdict role (calls ++ [call])) := by
  generalize decision : verdict role calls = before at settled
  cases settled with
  | undecided unset alive => simp [unset, alive] at ended
  | decided installed alive =>
    rw [verdict_concat decision]
    exact .decided installed alive
  | failed unset aborted =>
    rw [verdict_concat decision]
    exact .failed unset aborted

theorem Follows.received (follows : Follows role calls d) {wrapped : WrappedKey}
    {outcome : DistributorOutcome} (received : d.Received wrapped outcome) :
    Follows role (calls ++ [.received wrapped]) outcome.2 := by
  have coherent := received.coherent follows.coherent trivial
  have role_eq := received.role_eq.trans follows.role_eq
  have keys : ∀ level, (level = .leader → role = .leader) →
      outcome.2.key level = firstKey level (calls ++ [.received wrapped]) := by
    intro level led
    rw [received.key_eq, firstKey_concat, follows.keys level led, groupKey?, Option.or_none]
  by_cases source : role ≠ .member
  · exact follows_of_source coherent role_eq source keys
  obtain rfl := not_not.1 source
  have clusterKey : d.clusterKey = firstKey .cluster calls := follows.keys .cluster (by simp)
  refine ⟨coherent, role_eq, keys, fun _ absent => ?_, ?_⟩
  · have keyless : d.clusterKey = none := (congrFun received.key_eq .cluster).symm.trans absent
    have unset := follows.coherent.unset_of_member follows.role_eq keyless
    have alive := follows.coherent.alive_of_keyless keyless
    cases received with
    | ended aborted => simp [alive] at aborted
    | unneeded needless => simp [follows.role_eq, unset] at needless
    | buffered =>
      rw [deciding_concat_of_keyless (clusterKey.symm.trans keyless)]
      rfl
    | supplied _ _ _ keyed => simp [keyless] at keyed
  · cases received with
    | ended aborted => exact follows.settled.concat (.inl aborted) _
    | unneeded needless =>
      have ended := needless.resolve_left (not_not.2 follows.role_eq)
      exact follows.settled.concat (.inr ended) _
    | buffered member keyless =>
      rw [verdict_of_keyless _ ((keys .cluster (by simp)).symm.trans keyless)]
      exact .undecided (follows.coherent.unset_of_member member keyless)
        (follows.coherent.alive_of_keyless keyless)
    | supplied member alive unset keyed opens =>
      have lacking := follows.deciding_eq_none keyed unset alive
      have first := clusterKey.symm.trans keyed
      have present : firstKey .cluster calls ≠ none := by simp [first]
      rw [verdict_member (by rw [firstKey_concat, first, Option.some_or]),
        deciding_concat_of_keyed present, lacking]
      exact opens.settled unset alive

/-- A key of a ring that was missing. -/
theorem Follows.recorded (follows : Follows role calls d) {level : Level}
    (fresh : d.key level = none) (led : level = .leader → d.role = .leader) {key : GroupKey}
    {outcome : DistributorOutcome} (recorded : d.Recorded level key outcome) :
    Follows role (calls ++ [.established level key]) outcome.2 := by
  have coherent := recorded.coherent follows.coherent fresh led
  have role_eq := recorded.role_eq.trans follows.role_eq
  have keys : ∀ other, (other = .leader → role = .leader) →
      outcome.2.key other = firstKey other (calls ++ [.established level key]) := by
    intro other led
    rw [recorded.key_eq, firstKey_concat, ← follows.keys other led, groupKey?]
    by_cases here : level = other
    · rw [← here, fresh, Function.update_self, if_pos rfl, Option.none_or]
    · rw [Function.update_of_ne (Ne.symm here), if_neg here, Option.or_none]
  by_cases source : role ≠ .member
  · exact follows_of_source coherent role_eq source keys
  obtain rfl := not_not.1 source
  have own : level = .cluster := by
    cases level with
    | cluster => rfl
    | leader => cases follows.role_eq.symm.trans (led rfl)
  subst own
  have unset := follows.coherent.unset_of_fresh fresh led
  have alive := follows.coherent.alive_of_keyless fresh
  have pending := follows.waiting rfl fresh
  have held : outcome.2.clusterKey = some key := by
    have after := congrFun recorded.key_eq .cluster
    rwa [Function.update_self] at after
  refine ⟨coherent, role_eq, keys, fun _ absent => ?_, ?_⟩
  · rw [held] at absent
    cases absent
  · have first := (keys .cluster (by simp)).symm.trans held
    rw [verdict_member first, deciding_concat_established, ← pending]
    cases recorded with
    | used standalone => cases follows.role_eq.symm.trans standalone
    | kept leading => cases follows.role_eq.symm.trans leading
    | wrapped leading => cases follows.role_eq.symm.trans leading
    | awaiting _ _ nothing =>
      rw [nothing]
      exact .undecided (by rw [effective_withKey, unset]) (by rw [aborted_withKey, alive])
    | supplied _ _ kept opens =>
      rw [kept]
      exact opens.settled unset alive

/-- A key of a ring that changes nothing. -/
theorem Follows.idle (follows : Follows role calls d) {level : Level}
    (idle : (d.key level).isSome ∨ level = .leader ∧ d.role ≠ .leader) (key : GroupKey) :
    Follows role (calls ++ [.established level key]) d := by
  have keys : ∀ other, (other = .leader → role = .leader) →
      d.key other = firstKey other (calls ++ [.established level key]) := by
    intro other led
    rw [firstKey_concat, ← follows.keys other led, groupKey?]
    split
    next here =>
      subst here
      have keyed := idle.resolve_right fun ⟨above, outside⟩ =>
        outside (follows.role_eq.trans (led above))
      exact (Option.or_of_isSome keyed).symm
    next => exact Option.or_none.symm
  by_cases source : role ≠ .member
  · exact follows_of_source follows.coherent follows.role_eq source keys
  obtain rfl := not_not.1 source
  refine ⟨follows.coherent, follows.role_eq, keys, fun member absent => ?_, ?_⟩
  · rw [deciding_concat_established]
    exact follows.waiting member absent
  · rw [verdict, ← keys .cluster (by simp), deciding_concat_established,
      follows.keys .cluster (by simp)]
    exact follows.settled

theorem Follows.take (follows : Follows role calls d) (call : DistributorCall) :
    Follows role (calls ++ [call]) (d.take call).2 := by
  have taken := follows.coherent.take_cases call
  generalize d.take call = outcome at taken
  cases taken with
  | received received => exact follows.received received
  | recorded fresh led recorded => exact follows.recorded fresh led recorded
  | idle idle same =>
    rw [same]
    exact follows.idle idle _

theorem Follows.after (follows : Follows role calls d) (more : List DistributorCall) :
    Follows role (calls ++ more) (d.after more) := by
  induction more generalizing calls d with
  | nil =>
    rw [List.append_nil]
    exact follows
  | cons call rest ih =>
    rw [List.append_cons]
    exact ih (follows.take call)

theorem follows_after (role : Role) (calls : List DistributorCall) :
    Follows role calls ((initial role).after calls) :=
  (initial_follows role).after calls

theorem Follows.leaderKey_eq (follows : Follows role calls d) :
    d.leaderKey = if role = .leader then firstKey .leader calls else none := by
  split
  next leading => exact follows.keys .leader fun _ => leading
  next outside => exact follows.coherent.unled (by rwa [follows.role_eq])

/-- The first keys stick. -/
theorem Follows.key_after (follows : Follows role calls d) {level : Level} {key : GroupKey}
    (held : d.key level = some key) (more : List DistributorCall) :
    (d.after more).key level = some key := by
  have placed : level = .leader → role = .leader := by
    rintro rfl
    by_contra outside
    have leaderKey := follows.leaderKey_eq
    rw [if_neg outside] at leaderKey
    cases held.symm.trans leaderKey
  rw [(follows.after more).keys level placed, firstKey_append, ← follows.keys level placed, held,
    Option.some_or]

/-! ## What comes out -/

/-- The wrapped key that a leader has broadcast. -/
def broadcast (d : Distributor) : Option WrappedKey :=
  if d.role = .leader then
    d.clusterKey.bind fun cluster =>
      d.effective.map fun key => (WrappingKey.derive cluster).wrap key.bytes
  else none

theorem broadcast_of_ne_leader (outside : d.role ≠ .leader) : d.broadcast = none :=
  if_neg outside

theorem broadcast_of_unset (unset : d.effective = none) : d.broadcast = none := by
  simp [broadcast, unset]

theorem Opens.broadcasts {cluster : GroupKey} {wrapped : WrappedKey} {outcome : DistributorOutcome}
    (opens : d.Opens cluster wrapped outcome) :
    outcome.actions.filterMap (·.broadcast?) = [] := by
  cases opens <;> rfl

/-- A step shows the keys that it adds to what the distributor holds. -/
structure Shows (d : Distributor) (outcome : DistributorOutcome) : Prop where
  announces : d.Announces outcome
  broadcasts : d.broadcast.toList ++ outcome.actions.filterMap (·.broadcast?) =
    outcome.2.broadcast.toList

theorem Received.shows {wrapped : WrappedKey} {outcome : DistributorOutcome}
    (received : d.Received wrapped outcome) : d.Shows outcome := by
  refine ⟨received.announces, ?_⟩
  have role_eq := received.role_eq
  cases received with
  | supplied member _ _ _ opens =>
    rw [opens.broadcasts, broadcast_of_ne_leader (by simp [member]),
      broadcast_of_ne_leader (by simp [role_eq, member])]
    rfl
  | _ => exact List.append_nil _

theorem Recorded.shows {level : Level} {key : GroupKey} {outcome : DistributorOutcome}
    (recorded : d.Recorded level key outcome) (unset : d.effective = none) : d.Shows outcome := by
  refine ⟨recorded.announces unset, ?_⟩
  have role_eq := recorded.role_eq
  rw [broadcast_of_unset unset, Option.toList_none, List.nil_append]
  cases recorded with
  | used standalone =>
    have outside : d.role ≠ .leader := by simp [standalone]
    rw [broadcast_of_ne_leader (by rwa [role_eq])]
    rfl
  | wrapped leading clusterKey =>
    have held : ∀ key, ((d.withKey level _).withEffective key).clusterKey = some _ :=
      fun _ => clusterKey
    rw [Distributor.broadcast, role_eq, if_pos leading, held]
    rfl
  | supplied member own kept opens =>
    have outside : d.role ≠ .leader := by simp [member]
    rw [opens.broadcasts, broadcast_of_ne_leader (by rwa [role_eq])]
    rfl
  | _ =>
    rw [broadcast_of_unset (by rw [effective_withKey, unset])]
    rfl

theorem Coherent.shows_take (coherent : d.Coherent heard) (call : DistributorCall) :
    d.Shows (d.take call) := by
  have taken := coherent.take_cases call
  generalize d.take call = outcome at taken
  cases taken with
  | received received => exact received.shows
  | recorded fresh led recorded => exact recorded.shows (coherent.unset_of_fresh fresh led)
  | idle _ same silent =>
    constructor
    · rw [Announces, same, silent]
      exact List.append_nil _
    · rw [same, silent]
      exact List.append_nil _

/-- Over any calls the keys come out one by one as the distributor takes them up. -/
theorem Follows.shown (follows : Follows role calls d) (more : List DistributorCall) :
    d.effective.toList ++ (d.actions more).filterMap (·.key?) =
      (d.after more).effective.toList ∧
    d.broadcast.toList ++ (d.actions more).filterMap (·.broadcast?) =
      (d.after more).broadcast.toList := by
  induction more generalizing calls d with
  | nil => exact ⟨List.append_nil _, List.append_nil _⟩
  | cons call rest ih =>
    obtain ⟨announces, broadcasts⟩ := follows.coherent.shows_take call
    obtain ⟨later, laterBroadcasts⟩ := ih (follows.take call)
    rw [actions, List.filterMap_append, List.filterMap_append, ← List.append_assoc,
      ← List.append_assoc, announces, broadcasts]
    exact ⟨later, laterBroadcasts⟩

/-- A distributor that has a key installed keeps it. -/
theorem Follows.effective_after (follows : Follows role calls d) {key : ClusterKey}
    (installed : d.effective = some key) (more : List DistributorCall) :
    (d.after more).effective = some key := by
  have shown := (follows.shown more).1
  rw [installed, Option.toList_some, List.singleton_append] at shown
  cases later : (d.after more).effective with
  | none => simp [later] at shown
  | some key' =>
    rw [later, Option.toList_some, List.cons.injEq] at shown
    rw [shown.1]

theorem Follows.broadcast_eq (follows : Follows .leader calls d) {cluster leader : GroupKey}
    (keyed : firstKey .cluster calls = some cluster)
    (led : firstKey .leader calls = some leader) :
    d.broadcast = some ((WrappingKey.derive cluster).wrap leader.key) := by
  have clusterKey : d.clusterKey = some cluster := (follows.keys .cluster (by simp)).trans keyed
  have installed : d.effective = some ⟨leader.key⟩ := by
    rw [follows.settled.effective_iff, verdict, keyed, Option.bind_some, led]
    rfl
  rw [broadcast, if_pos follows.role_eq, clusterKey, installed]
  rfl

/-- The rule of the distribution, whatever a distributor is told and in whichever order. The first
key of each ring sticks, and the key of the cluster is announced once and stays. It is there if and
only if the calls decide for it, and the distributor has given up if and only if they decide that
the wrapped key which counts is no good. A leader with both keys has broadcast the leaders' key,
wrapped for its cluster, once. Only a member gives up, and then it refuses everything. -/
theorem distribution_follows_rule (role : Role) (calls more : List DistributorCall) :
    let d := (initial role).after calls
    let later := d.after more
    let shown := (initial role).actions calls
    (d.clusterKey = firstKey .cluster calls ∧
      d.leaderKey = (if role = .leader then firstKey .leader calls else none) ∧
      ∀ level key, d.key level = some key → later.key level = some key) ∧
    (shown.filterMap (·.key?) = d.effective.toList ∧
      ∀ key, d.effective = some key → later.effective = some key) ∧
    (∀ key, d.effective = some key ↔ verdict role calls = some (.ok key)) ∧
    (d.aborted = true ↔ ∃ error, verdict role calls = some (.error error)) ∧
    (∀ cluster leader, role = .leader → firstKey .cluster calls = some cluster →
      firstKey .leader calls = some leader →
      ∃ wrapped, shown.filterMap (·.broadcast?) = [wrapped] ∧
        (WrappingKey.derive cluster).unwrap wrapped = .ok leader.key) ∧
    (role ≠ .leader ∨ d.effective = none → shown.filterMap (·.broadcast?) = []) ∧
    (d.aborted = true → role = .member ∧ d.effective = none ∧
      ∀ call, later.take call = (.error .aborted, later)) := by
  intro d later shown
  have follows : Follows role calls d := follows_after role calls
  have announced : shown.filterMap (·.key?) = d.effective.toList :=
    ((initial_follows role).shown calls).1
  have broadcasts : shown.filterMap (·.broadcast?) = d.broadcast.toList := by
    have came := ((initial_follows role).shown calls).2
    rwa [broadcast_of_unset rfl] at came
  refine ⟨⟨follows.keys .cluster (by simp), follows.leaderKey_eq,
      fun level key held => follows.key_after held more⟩,
    ⟨announced, fun key installed => follows.effective_after installed more⟩,
    follows.settled.effective_iff, follows.settled.aborted_iff, ?_, ?_, ?_⟩
  · rintro cluster leader rfl keyed led
    refine ⟨(WrappingKey.derive cluster).wrap leader.key, ?_, WrappingKey.unwrap_wrap _ _⟩
    rw [broadcasts, follows.broadcast_eq keyed led, Option.toList_some]
  · rintro (outside | unset)
    · rw [broadcasts, broadcast_of_ne_leader (by rwa [follows.role_eq]), Option.toList_none]
    · rw [broadcasts, broadcast_of_unset unset, Option.toList_none]
  · intro aborted
    obtain ⟨member, _, unset⟩ := follows.coherent.aborted aborted
    have same : later = d := after_of_aborted aborted more
    refine ⟨follows.role_eq.symm.trans member, unset, fun call => ?_⟩
    rw [same]
    exact take_of_aborted aborted call

end Distributor

end RingAgreement

import RingAgreement.Proofs.Node.Coherence
/-!
A node over a whole run under arbitrary traffic: it starts without a key, and what every step keeps
is kept over the run.
-/

namespace RingAgreement.Node

variable {K : Kem} {node : Node} {heard : WrappedKey → Prop} {ρ : Type} [RandomSource ρ]

/-! ## Runs -/

/-- The node after events, each with the source of randomness as the event finds it. -/
def after (K : Kem) (node : Node) : List (NodeEvent × ρ) → Node
  | [] => node
  | (event, source) :: rest => (node.handle K event source).node.after K rest

/-- All actions of a node over events, in their order. -/
def actions (K : Kem) (node : Node) : List (NodeEvent × ρ) → List NodeAction
  | [] => []
  | (event, source) :: rest =>
    (node.handle K event source).actions ++ (node.handle K event source).node.actions K rest

theorem after_append (K : Kem) (node : Node) (inputs more : List (NodeEvent × ρ)) :
    node.after K (inputs ++ more) = (node.after K inputs).after K more := by
  induction inputs generalizing node with
  | nil => rfl
  | cons input rest ih => exact ih _

theorem Coherent.after (coherent : node.Coherent K heard) (inputs : List (NodeEvent × ρ))
    (offered : ∀ input ∈ inputs, ∀ wrapped,
      input.1.Offers node.cluster.roster node.cluster.own wrapped → heard wrapped) :
    (node.after K inputs).Coherent K heard ∧
      node.Continues (node.actions K inputs) (node.after K inputs) := by
  induction inputs generalizing node with
  | nil => exact ⟨coherent, .refl node⟩
  | cons input rest ih =>
    obtain ⟨event, source⟩ := input
    have first := coherent.handle (offered _ List.mem_cons_self) source
    have later := ih first.coherent fun input member wrapped offers => ?_
    · exact ⟨later.1, first.continues.trans later.2⟩
    · obtain ⟨state, progress, same⟩ := first.continues.member
      rw [same] at offers
      exact offered input (List.mem_cons_of_mem _ member) wrapped offers

theorem make_session_success {roster : Roster} {own : Nat} {secretKey : SecretKey} {s : Session}
    (made : Session.make roster own secretKey = .ok s) :
    ∃ inside, s = .fresh roster ⟨own, inside⟩ secretKey := by
  rw [Session.make] at made
  split at made
  next inside => exact ⟨inside, (Except.ok.inj made).symm⟩
  next => cases made

theorem leaderSession_success {layout : NodeLayout} {secretKey : SecretKey}
    {leader : Option Session} (made : leaderSession layout secretKey = .ok leader) :
    (leader.isSome ↔ layout.role = .leader) ∧
      ∀ s, leader = some s → ∃ roster own, s = .fresh roster own secretKey := by
  obtain ⟨cluster, clusterIndex, ring, role⟩ := layout
  cases ring with
  | none => cases role <;> cases made <;> simp
  | some ring =>
    cases role with
    | standalone => cases made
    | member => cases made
    | leader =>
      change (Session.make ring.1 ring.2 secretKey).map some = .ok leader at made
      cases made_session : Session.make ring.1 ring.2 secretKey with
      | error e =>
        rw [made_session] at made
        cases made
      | ok s =>
        rw [made_session] at made
        obtain rfl := Except.ok.inj made
        obtain ⟨inside, rfl⟩ := make_session_success made_session
        refine ⟨by simp, fun s same => ⟨ring.1, ⟨ring.2, inside⟩, (Option.some.inj same).symm⟩⟩

/-- A new node: its sessions have not begun, and its distributor knows nothing. -/
theorem make_success {layout : NodeLayout} {secretKey : SecretKey}
    (made : make layout secretKey = .ok node) :
    ∃ leader inside, leaderSession layout secretKey = .ok leader ∧
      node = ⟨.fresh layout.cluster ⟨layout.clusterIndex, inside⟩ secretKey, leader,
        .initial layout.role⟩ := by
  rw [make] at made
  cases led : leaderSession layout secretKey with
  | error e =>
    rw [led] at made
    cases made
  | ok leader =>
    cases seated : Session.make layout.cluster layout.clusterIndex secretKey with
    | error e =>
      rw [led, seated] at made
      cases made
    | ok s =>
      rw [led, seated] at made
      obtain ⟨inside, rfl⟩ := make_session_success seated
      exact ⟨leader, inside, rfl, (Except.ok.inj made).symm⟩

theorem make_coherent {layout : NodeLayout} {secretKey : SecretKey}
    (made : make layout secretKey = .ok node) :
    node.Coherent K heard ∧ ∀ level, node.groupKey level = none := by
  obtain ⟨leader, inside, led, rfl⟩ := make_success made
  obtain ⟨present, unbegun⟩ := leaderSession_success led
  have keyless : ∀ level, groupKey ⟨.fresh layout.cluster ⟨layout.clusterIndex, inside⟩ secretKey,
      leader, .initial layout.role⟩ level = none := by
    intro level
    cases level with
    | cluster => rfl
    | leader =>
      cases leader with
      | none => rfl
      | some s =>
        obtain ⟨roster, own, rfl⟩ := unbegun s rfl
        rfl
  refine ⟨⟨fun level s here => ?_, present, ?_, Distributor.initial_coherent _⟩, keyless⟩
  · cases level with
    | cluster =>
      obtain rfl := Option.some.inj here
      exact Session.fresh_coherent _ _ _
    | leader =>
      obtain ⟨roster, own, rfl⟩ := unbegun s here
      exact Session.fresh_coherent _ _ _
  · funext level
    rw [keyless]
    cases level <;> rfl

end RingAgreement.Node

import RingAgreement.Proofs.Board.Leading
/-!
The keys of a node over a whole run under arbitrary traffic: how they follow from its sessions, its
role and the events it was handed, and that it announces each of them once.
-/

namespace RingAgreement.Node

variable {K : Kem} {node : Node} {heard : WrappedKey → Prop} {ρ : Type} [RandomSource ρ]

/-- How the keys of a node, and those that it has announced, follow from its sessions, its role and
the events that it was handed. -/
structure KeysInOrder (layout : NodeLayout) (events : List NodeEvent) (announced : List NodeAction)
    (node : Node) : Prop where
  known : ∀ level, node.distributor.key level = node.groupKey level
  established : ∀ level, (node.distributor.key level).isSome ↔
    ∃ s, node.session? level = some s ∧ s.state = .established
  standalone : layout.role = .standalone →
    node.clusterKey = node.cluster.groupKey.map fun g => ⟨g.key⟩
  leading : layout.role = .leader → ∃ s, node.leader = some s ∧
    node.clusterKey = node.cluster.groupKey.bind fun _ => s.groupKey.map fun g => ⟨g.key⟩
  member : layout.role = .member → ∀ key, node.clusterKey = some key →
    ∃ g, node.cluster.groupKey = some g ∧ ∃ event ∈ events,
      event.Offers layout.cluster layout.clusterIndex ((WrappingKey.derive g).wrap key.bytes)
  groupKeys : ∀ level, announced.filterMap (·.groupKey? level) = (node.groupKey level).toList
  clusterKeys : announced.filterMap (·.clusterKey?) = node.clusterKey.toList

theorem Coherent.keysInOrder (coherent : node.Coherent K heard) {layout : NodeLayout}
    (sameRole : node.role = layout.role) {events : List NodeEvent} {announced : List NodeAction}
    (offered : ∀ wrapped, heard wrapped →
      ∃ event ∈ events, event.Offers layout.cluster layout.clusterIndex wrapped)
    (groupKeys : ∀ level, announced.filterMap (·.groupKey? level) = (node.groupKey level).toList)
    (clusterKeys : announced.filterMap (·.clusterKey?) = node.clusterKey.toList) :
    node.KeysInOrder layout events announced where
  known := fun level => congrFun coherent.known level
  established := by
    intro level
    rw [coherent.known, groupKey]
    cases here : node.session? level with
    | none => simp
    | some s =>
      have keyed : s.state = .established ↔ s.groupKey.isSome :=
        (coherent.session level s here).keyed
      simpa using keyed.symm
  standalone := fun alone => by
    have installed := coherent.distributor.standalone (sameRole.trans alone)
    rwa [show node.distributor.clusterKey = node.cluster.groupKey from
      congrFun coherent.known .cluster] at installed
  leading := fun leads => by
    obtain ⟨s, here⟩ := Option.isSome_iff_exists.1 (coherent.led.2 (sameRole.trans leads))
    have installed := coherent.distributor.leading (sameRole.trans leads)
    have leaderKey : node.distributor.leaderKey = node.groupKey .leader :=
      congrFun coherent.known .leader
    rw [show node.distributor.clusterKey = node.cluster.groupKey from
      congrFun coherent.known .cluster, leaderKey, groupKey, here] at installed
    exact ⟨s, here, installed⟩
  member := fun belongs key installed => by
    obtain ⟨g, keyed, came⟩ :=
      coherent.distributor.unwrapped (sameRole.trans belongs) key installed
    exact ⟨g, (congrFun coherent.known .cluster).symm.trans keyed, offered _ came⟩
  groupKeys := groupKeys
  clusterKeys := clusterKeys

/-- Whatever events a node is handed on its two levels, its distributor knows the group keys of its
established sessions and no others; its cluster key is the one its role asks for, and once it is
there it stays; and each of these keys has been announced once. -/
theorem keys_stay_in_order (K : Kem) (layout : NodeLayout) (secretKey : SecretKey) (node : Node)
    (made : make layout secretKey = .ok node) (inputs : List (NodeEvent × ρ)) :
    let reached := node.after K inputs
    reached.role = layout.role ∧
    reached.KeysInOrder layout (inputs.map (·.1)) (node.actions K inputs) ∧
    ∀ key, reached.clusterKey = some key → ∀ later : List (NodeEvent × ρ),
      (reached.after K later).clusterKey = some key := by
  intro reached
  let heard : WrappedKey → Prop := fun wrapped => ∃ event ∈ inputs.map (·.1),
    event.Offers layout.cluster layout.clusterIndex wrapped
  have ⟨coherent, keyless⟩ : node.Coherent K heard ∧ ∀ level, node.groupKey level = none :=
    make_coherent made
  obtain ⟨_, _, _, rfl⟩ := make_success made
  obtain ⟨still, continues⟩ := coherent.after inputs fun input member wrapped offers =>
    ⟨input.1, List.mem_map_of_mem member, offers⟩
  have groupKeys := continues.groupKeys
  simp only [keyless, Option.toList_none, List.nil_append] at groupKeys
  refine ⟨continues.role, still.keysInOrder continues.role (fun _ => id) groupKeys
    continues.clusterKey, fun key installed later => ?_⟩
  have credulous : reached.Coherent K fun _ => True := still.mono fun _ _ => trivial
  have carried := (credulous.after later fun _ _ _ _ => trivial).2.clusterKey
  rw [installed, Option.toList_some, List.singleton_append] at carried
  cases kept : (reached.after K later).clusterKey with
  | none =>
    rw [kept] at carried
    cases carried
  | some key' =>
    rw [kept] at carried
    rw [(List.cons.inj carried).1]

/-- In a cluster of three that the first node leads, the leader and the third node come to one key.
The third node has taken it out of a wrapped key. -/
theorem trio_keys_in_order :
    let ring := HonestRing.trio
    let first : Fin ring.roster.size := ⟨0, by decide⟩
    let third : Fin ring.roster.size := ⟨2, by decide⟩
    let here : NodeLayout := ⟨ring.roster, first, some (ring.roster, first), .leader⟩
    let there : NodeLayout := ⟨ring.roster, third, none, .member⟩
    ∃ leader member : Node, make here (ring.pair first).secretKey = .ok leader ∧
      make there (ring.pair third).secretKey = .ok member ∧
      ∃ (inputs inputs' : List (NodeEvent × DrawCounter)) (key : ClusterKey),
        let led := leader.after .transparent inputs
        let followed := member.after .transparent inputs'
        led.clusterKey = some key ∧ followed.clusterKey = some key ∧
        led.KeysInOrder here (inputs.map (·.1)) (leader.actions .transparent inputs) ∧
        followed.KeysInOrder there (inputs'.map (·.1)) (member.actions .transparent inputs') ∧
        (∃ g, followed.cluster.groupKey = some g ∧ ∃ event ∈ inputs'.map (·.1),
          event.Offers ring.roster third ((WrappingKey.derive g).wrap key.bytes)) ∧
        ∀ later : List (NodeEvent × DrawCounter),
          (led.after .transparent later).clusterKey = some key ∧
            (followed.after .transparent later).clusterKey = some key := by
  intro ring first third here there
  have placed : make here (ring.pair first).secretKey = .ok (ring.leading ring first first) :=
    HonestRing.make_leading rfl
  have placed' : make there (ring.pair third).secretKey = .ok (ring.seat .member third) :=
    ring.make_seat (by simp) third
  obtain ⟨b, posted, reached, inv, keyed⟩ := Board.exists_led_keyed Kem.transparent_correct
    (rfl : ring.pair first = ring.pair first) fun _ => (⟨0⟩ : DrawCounter)
  obtain ⟨inputs, after⟩ := reached.exists_inputs first
  obtain ⟨inputs', after'⟩ := reached.exists_inputs third
  obtain ⟨key, known⟩ := keyed first
  obtain ⟨key', known'⟩ := keyed third
  obtain rfl := inv.agree known known'
  rw [after] at known
  rw [after'] at known'
  obtain ⟨_, order, stays⟩ := keys_stay_in_order .transparent here _ _ placed inputs
  obtain ⟨_, order', stays'⟩ := keys_stay_in_order .transparent there _ _ placed' inputs'
  exact ⟨_, _, placed, placed', inputs, inputs', key, known, known', order, order',
    order'.member rfl key known', fun later => ⟨stays key known later, stays' key known' later⟩⟩

end RingAgreement.Node

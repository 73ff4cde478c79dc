import RingAgreement.Proofs.Hierarchy.Draining
/-!
Convergence of a hierarchy. In a simulated world of leaders with clusters, whatever the network
delivers next and whenever the nodes are started, all keys that nodes install are the key of the
leaders; and when all were started and nothing is on its way, all nodes have installed it. If no more
nodes are started, it comes to that.
-/

namespace RingAgreement.Simulation

variable {K : Kem}

/-- All that the first ring has established is one key, and all that was installed anywhere is that
key of the first ring. -/
structure World.Converging (key : GroupKey) (w : World) : Prop where
  root : ∀ n ∈ w.nodes, ∀ level, n.place.ringOf level = some 0 → ∀ other,
    n.node.groupKey level = some other → other = key
  installed : ∀ n ∈ w.nodes, ∀ other, n.node.clusterKey = some other → other = ⟨key.key⟩ ∧
    ∃ n' ∈ w.nodes, ∃ level, n'.place.ringOf level = some 0 ∧ n'.node.groupKey level = some key

/-- A node that has come to a key as it should. -/
structure SimNode.Settled (key : ClusterKey) (n : SimNode) : Prop where
  installed : n.node.clusterKey = some key
  announced : n.log.clusterKeys = [key]
  errors : n.log.errors = []
  established : ∀ level s, n.node.session? level = some s → s.state = .established
  alive : n.node.distributor.aborted = false

namespace Hierarchy

variable {H : Hierarchy K} {cast : H.Cast} {post : H.Post} {packets : List Packet}
  {due : List (Packet × Nat × Level)} {w : World} {started : List Nat}

/-- The one group key that the leaders can end with. -/
def rootKey (H : Hierarchy K) (cast : H.Cast) : GroupKey := (H.ring 0).linkedKey (H.view cast 0)

/-! ## At any moment -/

theorem Invariant.rootKey_eq (inv : H.Invariant cast post packets due)
    {p : Fin (H.ring 0).roster.size} {key : GroupKey}
    (held : (H.view cast 0 p).groupKey = some key) : key = H.rootKey cast :=
  (inv.steady 0).groupKey_eq held

/-- The distributor of a node knows the group key at a seat. -/
theorem Invariant.key_eq (inv : H.Invariant cast post packets due) {r : Fin (H.clusters + 1)}
    (p : Fin (H.ring r).roster.size) :
    (cast (H.member r p)).node.distributor.key (H.level r p) = (H.view cast r p).groupKey := by
  rw [groupKey_view, (inv.orderly _).coherent.known]

theorem Invariant.exists_home (inv : H.Invariant cast post packets due) (id : Fin H.nodes) :
    ∃ r p, (H.place id).clusterRing = r.val ∧ H.member r p = id ∧
      (cast id).node.distributor.clusterKey = (H.view cast r p).groupKey := by
  obtain ⟨r, p, rfl, home⟩ := exists_home_seat id
  have known := inv.key_eq p
  rw [home] at known
  exact ⟨r, p, level_eq_cluster.1 home, rfl, known⟩

theorem Invariant.exists_root (inv : H.Invariant cast post packets due) {id : Fin H.nodes}
    (leading : (H.place id).role = .leader) :
    ∃ p, (cast id).node.distributor.leaderKey = (H.view cast 0 p).groupKey := by
  obtain ⟨p, rfl, level⟩ := exists_root_seat (congrArg (·.leaderRing) (leads_of_role leading))
  have known := inv.key_eq p
  rw [level] at known
  exact ⟨p, known⟩

/-- What a node has installed is the key of the leaders, and one of them holds it. -/
theorem Invariant.installed (inv : H.Invariant cast post packets due) {id : Fin H.nodes}
    {key : ClusterKey} (installed : (cast id).node.clusterKey = some key) :
    key = ⟨(H.rootKey cast).key⟩ ∧ ∃ p, (H.view cast 0 p).groupKey = some (H.rootKey cast) := by
  suffices came : ∃ p k, (H.view cast 0 p).groupKey = some k ∧ key = ⟨k.key⟩ by
    obtain ⟨p, k, held, rfl⟩ := came
    obtain rfl := inv.rootKey_eq held
    exact ⟨rfl, p, held⟩
  have orderly := inv.orderly id
  have distributor := orderly.coherent.distributor
  obtain ⟨r, p, own, rfl, known⟩ := inv.exists_home id
  have same : (cast (H.member r p)).node.distributor.role = (H.place (H.member r p)).role :=
    orderly.role
  cases role : (H.place (H.member r p)).role with
  | standalone =>
    have effective := distributor.standalone (same.trans role)
    obtain ⟨k, held, rfl⟩ := Option.map_eq_some_iff.1 (effective.symm.trans installed)
    obtain rfl := ring_of_standalone role own
    exact ⟨p, k, known.symm.trans held, rfl⟩
  | leader =>
    have effective := distributor.leading (same.trans role)
    obtain ⟨g, _, made⟩ := Option.bind_eq_some_iff.1 (effective.symm.trans installed)
    obtain ⟨k, held, rfl⟩ := Option.map_eq_some_iff.1 made
    obtain ⟨q, root⟩ := inv.exists_root role
    exact ⟨q, k, root.symm.trans held, rfl⟩
  | member =>
    obtain ⟨g, clusterKey, genuine⟩ := distributor.unwrapped (same.trans role) key installed
    rw [own] at genuine
    obtain ⟨k, ⟨q, held⟩, wraps⟩ := genuine.wraps (inv.steady r) (known.symm.trans clusterKey)
    exact ⟨q, k, held, congrArg ClusterKey.mk (WrappingKey.wrap_injective _ wraps).symm⟩

/-! ## In the end -/

/-- When all were started and nothing is on its way, all sessions are established. -/
theorem Invariant.established (inv : H.Invariant cast post [] [])
    (begun : ∀ r p, (H.view cast r p).progress.initiated = true) (r : Fin (H.clusters + 1))
    (p : Fin (H.ring r).roster.size) : (H.view cast r p).state = .established := by
  refine (inv.steady r).established (begun r) (fun m known q other => ?_) p
  rcases inv.letters r m known q other with taken | waiting | late
  · exact taken
  · cases waiting
  · cases late

/-- With the keys of their rings, leaders and standalone nodes have their cluster keys. -/
theorem Invariant.installed_of_source (inv : H.Invariant cast post packets due)
    (keyed : ∀ r p, (H.view cast r p).groupKey.isSome) {id : Fin H.nodes}
    (source : (H.place id).role ≠ .member) : (cast id).node.clusterKey.isSome := by
  have orderly := inv.orderly id
  have distributor := orderly.coherent.distributor
  obtain ⟨r, p, _, rfl, clusterKey⟩ := inv.exists_home id
  obtain ⟨g, held⟩ := Option.isSome_iff_exists.1 (keyed r p)
  have same : (cast (H.member r p)).node.distributor.role = (H.place (H.member r p)).role :=
    orderly.role
  cases role : (H.place (H.member r p)).role with
  | standalone =>
    rw [Node.clusterKey, distributor.standalone (same.trans role), clusterKey, held]
    rfl
  | leader =>
    obtain ⟨q, leaderKey⟩ := inv.exists_root role
    obtain ⟨k, root⟩ := Option.isSome_iff_exists.1 (keyed 0 q)
    rw [Node.clusterKey, distributor.leading (same.trans role), clusterKey, held, leaderKey, root]
    rfl
  | member => exact absurd role source

/-- With the keys of all rings, everyone has a cluster key once nothing is on its way. -/
theorem Invariant.installed_of_quiet (inv : H.Invariant cast post [] [])
    (keyed : ∀ r p, (H.view cast r p).groupKey.isSome) (id : Fin H.nodes) :
    (cast id).node.clusterKey.isSome := by
  by_cases source : (H.place id).role = .member
  · obtain ⟨r, q, own, rfl, clusterKey⟩ := inv.exists_home id
    obtain ⟨leader, leads⟩ := H.led r (ring_of_member source own)
    obtain ⟨p, rfl⟩ := (H.seated r leader).2 (.inl (by rw [leads]))
    have other : q ≠ p := by
      rintro rfl
      rw [role_of_leads leads] at source
      cases source
    have supplied := inv.parcels r p leads
      (inv.installed_of_source keyed (by rw [role_of_leads leads]; simp)) q other
    rcases supplied with (pending | effective) | ⟨wrapped, waiting | late⟩
    · -- A wrapped key is only kept as long as the key of the cluster is missing.
      obtain ⟨wrapped, kept⟩ := Option.isSome_iff_exists.1 pending
      have keyless := ((inv.orderly _).coherent.distributor.pending wrapped kept).2.1
      have present := keyed r q
      rw [← clusterKey, keyless] at present
      cases present
    · exact effective
    · cases waiting
    · cases late
  · exact inv.installed_of_source keyed source

theorem Invariant.settled (inv : H.Invariant cast post [] [])
    (begun : ∀ r p, (H.view cast r p).progress.initiated = true) (id : Fin H.nodes) :
    (cast id).Settled ⟨(H.rootKey cast).key⟩ := by
  have established := inv.established begun
  have keyed : ∀ r p, (H.view cast r p).groupKey.isSome := fun r p =>
    ((inv.steady r).coherent p).keyed.1 (established r p)
  obtain ⟨key, installed⟩ := Option.isSome_iff_exists.1 (inv.installed_of_quiet keyed id)
  obtain ⟨rfl, _⟩ := inv.installed installed
  have orderly := inv.orderly id
  exact {
    installed := installed
    announced := by
      rw [orderly.announced, installed]
      rfl
    errors := orderly.errors
    established := by
      intro level s here
      obtain ⟨r, p, rfl, rfl⟩ := inv.exists_seat here
      rw [← view_of_session here]
      exact established r p
    alive := orderly.alive }

theorem Runs.converging (runs : H.Runs w started cast post due) :
    w.Converging (H.rootKey cast) := by
  have inv := runs.invariant
  have member : ∀ n ∈ w.nodes, ∃ id, cast id = n := by
    rw [runs.shows.nodes]
    exact fun n => List.mem_ofFn.1
  refine ⟨?_, ?_⟩
  · intro n present level seat key held
    obtain ⟨id, rfl⟩ := member n present
    rw [Node.groupKey, Option.bind_eq_some_iff] at held
    obtain ⟨s, here, held⟩ := held
    obtain ⟨r, p, rfl, rfl⟩ := inv.exists_seat here
    rw [(inv.orderly _).place_eq, ringOf_level, Option.some.injEq] at seat
    obtain rfl : r = 0 := Fin.ext seat
    rw [← view_of_session here] at held
    exact inv.rootKey_eq held
  · intro n present key installed
    obtain ⟨id, rfl⟩ := member n present
    obtain ⟨rfl, p, held⟩ := inv.installed installed
    refine ⟨rfl, cast (H.member 0 p), ?_, H.level 0 p, ?_, ?_⟩
    · rw [runs.shows.nodes]
      exact List.mem_ofFn.2 ⟨_, rfl⟩
    · rw [(inv.orderly _).place_eq, ringOf_level]
      rfl
    · rw [← groupKey_view]
      exact held

end Hierarchy

/-- In a deployment of leaders with clusters, whatever the network delivers next and whenever each
node is started, all keys that nodes have installed are the key of the ring of the leaders. Once all
nodes were started and nothing is on its way, every node has installed it and has announced it
once, no node has met with an error, and all sessions are established. Deliveries alone lead to a
time when nothing is on its way. -/
theorem hierarchies_converge (correct : K.Correct) (seed : UInt64) (leaders : Nat)
    (sizes : List Nat) (config : NetworkConfig) (w : World)
    (built : World.hierarchical K seed leaders sizes config = .ok w) (moves : List World.Move)
    (once : (moves.filterMap (·.node?)).Nodup) :
    let reached := w.after K moves
    (∃ key : GroupKey, reached.Converging key ∧
      ((∀ id < reached.nodes.length, .start id ∈ moves) → reached.network.isIdle = true →
        ∀ n ∈ reached.nodes, n.Settled ⟨key.key⟩)) ∧
    ∃ deliveries, (reached.after K (List.replicate deliveries .step)).network.isIdle = true := by
  intro reached
  refine ⟨?_, ((World.coherent_of_hierarchical built).after moves).exists_idle⟩
  obtain ⟨H, cast, fresh⟩ := World.exists_runs_of_hierarchical built
  obtain ⟨cast', post, runs⟩ := fresh.after correct moves (by simpa using once)
  refine ⟨H.rootKey cast', runs.converging, fun all idle n present => ?_⟩
  have inv := runs.invariant
  rw [(Network.isIdle_iff _).1 idle] at inv
  have begun : ∀ r p, (H.view cast' r p).progress.initiated = true := by
    intro r p
    rw [runs.begun, List.append_nil, List.mem_reverse, List.mem_filterMap]
    refine ⟨_, all (H.member r p) ?_, rfl⟩
    rw [runs.shows.nodes, List.length_ofFn]
    exact (H.member r p).isLt
  rw [runs.shows.nodes] at present
  obtain ⟨id, rfl⟩ := List.mem_ofFn.1 present
  exact inv.settled begun id

/-- Three leaders, of which the first one leads a cluster of three. When all five nodes were started
and the network has delivered what there is, all of them have come to one key. -/
theorem small_hierarchy_converges : ∃ (w : World) (deliveries : Nat),
    World.hierarchical .transparent 1 3 [3] .chaotic = .ok w ∧
    let moves : List World.Move :=
      [.start 0, .start 1, .step, .start 2, .start 3, .step, .start 4] ++
        List.replicate deliveries .step
    let reached := w.after .transparent moves
    reached.nodes.length = 5 ∧ reached.network.isIdle = true ∧
    ∃ key : GroupKey, reached.Converging key ∧ ∀ n ∈ reached.nodes, n.Settled ⟨key.key⟩ := by
  let starts : List World.Move := [.start 0, .start 1, .step, .start 2, .start 3, .step, .start 4]
  obtain ⟨w, built, five⟩ : ∃ w, World.hierarchical .transparent 1 3 [3] .chaotic = .ok w ∧
      w.nodes.length = 5 := ⟨_, rfl, rfl⟩
  have correct := Kem.transparent_correct
  obtain ⟨-, deliveries, drained⟩ :=
    hierarchies_converge correct 1 3 [3] .chaotic w built starts (by decide)
  refine ⟨w, deliveries, built, ?_⟩
  intro moves reached
  have idle : reached.network.isIdle = true := by
    simp only [reached, moves, World.after_append]
    exact drained
  have size : reached.nodes.length = 5 :=
    ((World.coherent_of_hierarchical built).size_after moves).trans five
  have once : (moves.filterMap (·.node?)).Nodup := by
    have silent : (List.replicate deliveries World.Move.step).filterMap (·.node?) = [] := by
      simp [World.Move.node?]
    rw [List.filterMap_append, silent]
    decide
  obtain ⟨⟨key, converging, settled⟩, -⟩ :=
    hierarchies_converge correct 1 3 [3] .chaotic w built moves once
  refine ⟨size, idle, key, converging, settled (fun id inside => ?_) idle⟩
  have begun : ∀ id < 5, .start id ∈ starts := by decide
  exact List.mem_append_left _ (begun id (size ▸ inside))

end RingAgreement.Simulation

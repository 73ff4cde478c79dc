import RingAgreement.Proofs.Checks
import RingAgreement.Proofs.Hierarchy.Run
import RingAgreement.Proofs.Hierarchy.Seating
import RingAgreement.Proofs.Node.Run
import RingAgreement.Proofs.Ring.Roster
/-!
How a simulated world is built. Rings and nodes that could be made are as planned: every party has
the generated key of its node, and every node a fresh session in each of its rings.
-/

namespace RingAgreement.Simulation

namespace World

variable {K : Kem}

/-! ## Keys -/

theorem length_drawKeypairs (count : Nat) (source : StreamSource) :
    (drawKeypairs K count source).1.length = count := by
  induction count generalizing source with
  | zero => rfl
  | succ count ih => exact congrArg Nat.succ (ih _)

theorem generated_of_drawKeypairs (count : Nat) (source : StreamSource) :
    ∀ keys ∈ (drawKeypairs K count source).1, ∃ seed, keys = K.keypair seed := by
  induction count generalizing source with
  | zero => simp [drawKeypairs]
  | succ count ih =>
    intro keys member
    rcases List.mem_cons.1 member with rfl | later
    · exact ⟨_, rfl⟩
    · exact ih _ keys later

/-! ## Rings -/

variable {plans : List (NodePlan × Keypair)} {rings : List RingLayout}

theorem partyOf_success {id : Nat} {plan : NodePlan × Keypair} (planned : plans[id]? = some plan)
    {parties : List Party} (made : partyOf plans id = .ok parties) :
    ∃ party : Party, parties = [party] ∧ party.publicKey = plan.2.publicKey := by
  rw [partyOf, planned] at made
  dsimp only at made
  split at made
  next party _ => exact ⟨_, (Except.ok.inj made).symm, rfl⟩
  next => cases made

/-- Parties with the public keys of planned nodes. -/
def Enrolled (plans : List (NodePlan × Keypair)) (members : List Nat)
    (parties : List Party) : Prop :=
  List.Forall₂ (fun id party => ∃ plan, plans[id]? = some plan ∧
    party.publicKey = plan.2.publicKey) members parties

theorem enrolled_of_partyOf {members : List Nat} {drawn : List (List Party)}
    (made : List.Forall₂ (fun id parties => partyOf plans id = .ok parties) members drawn)
    (known : ∀ id ∈ members, id < plans.length) : Enrolled plans members drawn.flatten := by
  induction made with
  | nil => exact .nil
  | @cons id _ _ _ first _ ih =>
    have inside := known id List.mem_cons_self
    have planned : plans[id]? = some plans[id] := List.getElem?_eq_getElem inside
    obtain ⟨party, rfl, key⟩ := partyOf_success planned first
    exact .cons ⟨_, planned, key⟩
      (ih fun other member => known other (List.mem_cons_of_mem _ member))

theorem makeRing_success {name : String} {members : List Nat} {layout : RingLayout}
    (made : makeRing plans name members = .ok layout) (known : ∀ id ∈ members, id < plans.length) :
    layout.members = members ∧ Enrolled plans members layout.roster.parties := by
  rw [makeRing] at made
  cases drawn : members.mapM (partyOf plans) with
  | error e =>
    rw [drawn] at made
    cases made
  | ok parties =>
    cases enrolled : Roster.make name parties.flatten with
    | error e =>
      rw [drawn] at made
      simp [bind, Except.bind, enrolled] at made
    | ok roster =>
      rw [drawn] at made
      simp only [bind, Except.bind, enrolled, pure, Except.pure, Except.ok.injEq] at made
      subst made
      refine ⟨rfl, ?_⟩
      rw [(Roster.make_success enrolled).2]
      exact enrolled_of_partyOf (mapM_eq_ok_iff.1 drawn) known

theorem positionIn_success {id : Nat} {name : String} {ring : Nat} {roster : Roster} {p : Nat}
    (found : positionIn rings id name ring = .ok (roster, p)) :
    ∃ layout, rings[ring]? = some layout ∧ roster = layout.roster ∧
      layout.members[p]? = some id := by
  rw [positionIn] at found
  cases present : rings[ring]? with
  | none => simp [present] at found
  | some layout =>
    cases seat : layout.members.findIdx? (· = id) with
    | none => simp [present, seat] at found
    | some q =>
      simp only [present, seat, Option.bind_eq_bind, Option.bind_some, Option.pure_def,
        Except.ok.injEq, Prod.mk.injEq] at found
      obtain ⟨rfl, rfl⟩ := found
      refine ⟨layout, rfl, rfl, ?_⟩
      obtain ⟨inside, same, _⟩ := List.findIdx?_eq_some_iff_getElem.1 seat
      rw [List.getElem?_eq_getElem inside, of_decide_eq_true same]

/-! ## Nodes -/

/-- A node as it was planned. -/
structure Planned (rings : List RingLayout) (planned : (NodePlan × Keypair) × Nat)
    (n : SimNode) : Prop where
  place : n.place = planned.1.1.place
  log : n.log = .empty
  made : ∃ cluster clusterIndex leader,
    positionIn rings planned.2 planned.1.1.name planned.1.1.place.clusterRing =
      .ok (cluster, clusterIndex) ∧
    planned.1.1.place.leaderRing.mapM (positionIn rings planned.2 planned.1.1.name) =
      .ok leader ∧
    Node.make ⟨cluster, clusterIndex, leader, planned.1.1.role⟩ planned.1.2.secretKey = .ok n.node

theorem makeNodes_success {planned : List ((NodePlan × Keypair) × Nat)}
    {source source' : StreamSource} {nodes : List SimNode}
    (made : makeNodes rings planned source = .ok (nodes, source')) :
    List.Forall₂ (Planned rings) planned nodes := by
  induction planned generalizing source nodes source' with
  | nil =>
    cases made
    exact .nil
  | cons next rest ih =>
    obtain ⟨⟨plan, keys⟩, id⟩ := next
    simp only [makeNodes, bind, Except.bind] at made
    split at made
    next => cases made
    next position found =>
      split at made
      next => cases made
      next leader led =>
        split at made
        next => cases made
        next node built =>
          split at made
          next => cases made
          next later others =>
            obtain ⟨rfl, rfl⟩ := Prod.mk.inj (Except.ok.inj made)
            exact .cons ⟨rfl, rfl, _, _, leader, found, led, built⟩ (ih others)

/-- A new node has fresh sessions in its rings. -/
theorem Planned.session? {planned : (NodePlan × Keypair) × Nat} {n : SimNode}
    (made : Planned rings planned n) (role : planned.1.1.role = planned.1.1.place.role)
    {level : Level} {r : Nat} (seat : planned.1.1.place.ringOf level = some r) :
    ∃ layout q inside, rings[r]? = some layout ∧ layout.members[q]? = some planned.2 ∧
      n.node.session? level =
        some (.fresh layout.roster ⟨q, inside⟩ planned.1.2.secretKey) := by
  obtain ⟨cluster, clusterIndex, leader, own, led, built⟩ := made.made
  obtain ⟨session, inside, leads, node⟩ := Node.make_success built
  cases level with
  | cluster =>
    obtain rfl := Option.some.inj seat
    obtain ⟨layout, present, rfl, there⟩ := positionIn_success own
    exact ⟨layout, clusterIndex, inside, present, there, by rw [node]; rfl⟩
  | leader =>
    have root : planned.1.1.place.leaderRing = some r := seat
    have leading : planned.1.1.role = .leader := by rw [role, Place.role, root]; rfl
    rw [root] at led
    change (positionIn rings planned.2 planned.1.1.name r).map some = .ok leader at led
    cases found : positionIn rings planned.2 planned.1.1.name r with
    | error e =>
      rw [found] at led
      cases led
    | ok position =>
      obtain ⟨roster, q⟩ := position
      obtain ⟨layout, present, rfl, there⟩ := positionIn_success found
      rw [found] at led
      obtain rfl := Except.ok.inj led
      rw [leading] at leads
      change (Session.make layout.roster q planned.1.2.secretKey).map some = .ok session at leads
      cases opened : Session.make layout.roster q planned.1.2.secretKey with
      | error e =>
        rw [opened] at leads
        cases leads
      | ok s =>
        rw [opened] at leads
        obtain ⟨inside', rfl⟩ := Node.make_session_success opened
        refine ⟨layout, q, inside', present, there, ?_⟩
        rw [node, ← Except.ok.inj leads]
        rfl

/-! ## The whole world -/

theorem build_success {seed : UInt64} {config : NetworkConfig} {plans : List NodePlan}
    {members : List (List Nat)} {title : String} {w : World}
    (built : build K seed config plans members title = .ok w)
    (known : ∀ ring ∈ members, ∀ id ∈ ring, id < plans.length) :
    ∃ keypairs : List Keypair, keypairs.length = plans.length ∧
      (∀ keys ∈ keypairs, ∃ seed, keys = K.keypair seed) ∧
      List.Forall₂ (fun ring layout => layout.members = ring ∧
        Enrolled (plans.zip keypairs) ring layout.roster.parties) members w.rings ∧
      List.Forall₂ (Planned w.rings) (plans.zip keypairs).zipIdx w.nodes ∧
      w.network.packets = [] := by
  rw [build] at built
  have length := length_drawKeypairs (K := K) plans.length (.ofNumber seed)
  have generated := generated_of_drawKeypairs (K := K) plans.length (.ofNumber seed)
  generalize drawKeypairs K plans.length (.ofNumber seed) = drawn at built length generated
  obtain ⟨keypairs, source⟩ := drawn
  simp only [bind, Except.bind] at built
  split at built
  next => cases built
  next rings made =>
    split at built
    next => cases built
    next nodes furnished =>
      obtain rfl := Except.ok.inj built
      refine ⟨keypairs, length, generated, ?_, makeNodes_success furnished, rfl⟩
      obtain ⟨sized, each⟩ := List.forall₂_iff_get.1 (mapM_eq_ok_iff.1 made)
      refine List.forall₂_iff_get.2 ⟨by simpa using sized, fun r inside inside' => ?_⟩
      have ring := each r (by simpa using inside) inside'
      simp only [List.get_eq_getElem, List.getElem_zipIdx, Nat.zero_add] at ring ⊢
      refine makeRing_success ring fun id member => ?_
      rw [List.length_zip, length, Nat.min_self]
      exact known _ (List.getElem_mem inside) id member

/-- The rings and nodes of a world as they were planned, with the nodes of the parties and the seeds
of their keys. -/
structure Furnished (K : Kem) (plans : List NodePlan) (members : List (List Nat)) (clusters : Nat)
    (w : World) where
  seed : Fin plans.length → Bytes 32
  layout : Fin (clusters + 1) → RingLayout
  cast : Fin plans.length → SimNode
  member : (r : Fin (clusters + 1)) → Fin (layout r).roster.size → Fin plans.length
  rings : w.rings = List.ofFn layout
  nodes : w.nodes = List.ofFn cast
  quiet : w.network.packets = []
  planned : ∀ r, members[r.val]? = some (layout r).members
  full : ∀ r, (layout r).members.length = (layout r).roster.size
  listed : ∀ r p, (layout r).members[p.val]? = some (member r p).val
  generated : ∀ r p,
    ((layout r).roster.party p).publicKey = (K.keypair (seed (member r p))).publicKey
  furnished : ∀ id, Planned w.rings ((plans.get id, K.keypair (seed id)), id.val) (cast id)

/-- Every node has the keys of some seed. -/
theorem exists_seeds {plans : List NodePlan} {keypairs : List Keypair}
    (keyed : keypairs.length = plans.length)
    (generated : ∀ keys ∈ keypairs, ∃ seed, keys = K.keypair seed) :
    ∃ seed : Fin plans.length → Bytes 32, ∀ id,
      (plans.zip keypairs)[id.val]? = some (plans.get id, K.keypair (seed id)) := by
  have each : ∀ id : Fin plans.length, ∃ seed,
      (plans.zip keypairs)[id.val]? = some (plans.get id, K.keypair seed) := by
    intro id
    have inside : id.val < keypairs.length := by
      rw [keyed]
      exact id.isLt
    obtain ⟨seed, same⟩ := generated _ (List.getElem_mem inside)
    refine ⟨seed, ?_⟩
    rw [← same, List.getElem?_zip_eq_some]
    exact ⟨List.getElem?_eq_getElem _, List.getElem?_eq_getElem inside⟩
  choose seed zipped using each
  exact ⟨seed, zipped⟩

/-- The node at a position of a ring, and the key of its party. -/
theorem Enrolled.exists_member {plans : List NodePlan} {keypairs : List Keypair}
    {seed : Fin plans.length → Bytes 32}
    (zipped : ∀ id, (plans.zip keypairs)[id.val]? = some (plans.get id, K.keypair (seed id)))
    {ring : List Nat} {roster : Roster}
    (enrolled : Enrolled (plans.zip keypairs) ring roster.parties)
    (known : ∀ id ∈ ring, id < plans.length) (p : Fin roster.size) :
    ∃ id : Fin plans.length, ring[p.val]? = some id.val ∧
      (roster.party p).publicKey = (K.keypair (seed id)).publicKey := by
  obtain ⟨full, each⟩ := List.forall₂_iff_get.1 enrolled
  have inside : p.val < ring.length := by
    rw [full]
    exact p.isLt
  obtain ⟨plan, there, key⟩ := each p.val inside p.isLt
  let id : Fin plans.length := ⟨_, known _ (List.getElem_mem inside)⟩
  have same : some plan = some (plans.get id, K.keypair (seed id)) := there.symm.trans (zipped id)
  refine ⟨id, List.getElem?_eq_getElem inside, key.trans ?_⟩
  rw [Option.some.inj same]

theorem furnished_of_build {seed : UInt64} {config : NetworkConfig} {plans : List NodePlan}
    {members : List (List Nat)} {title : String} {w : World} {clusters : Nat}
    (built : build K seed config plans members title = .ok w)
    (known : ∀ ring ∈ members, ∀ id ∈ ring, id < plans.length)
    (length : members.length = clusters + 1) :
    Nonempty (Furnished K plans members clusters w) := by
  obtain ⟨keypairs, keyed, generated, rings, nodes, quiet⟩ := build_success built known
  obtain ⟨ringCount, ringMade⟩ := List.forall₂_iff_get.1 rings
  obtain ⟨nodeCount, nodeMade⟩ := List.forall₂_iff_get.1 nodes
  have sized : clusters + 1 = w.rings.length := length.symm.trans ringCount
  have counted : plans.length = w.nodes.length := by simpa [keyed] using nodeCount
  obtain ⟨seed, zipped⟩ := exists_seeds keyed generated
  -- The seat of a party is where its key was drawn: the ring lists the node, and the node has the
  -- key of a seed.
  let layout (r : Fin (clusters + 1)) : RingLayout := w.rings.get (r.cast sized)
  let cast (id : Fin plans.length) : SimNode := w.nodes.get (id.cast counted)
  have made : ∀ r : Fin (clusters + 1), members[r.val]? = some (layout r).members ∧
      Enrolled (plans.zip keypairs) (layout r).members (layout r).roster.parties := by
    intro r
    have inside : r.val < members.length := by
      rw [length]
      exact r.isLt
    obtain ⟨same, enrolled⟩ := ringMade r.val inside (by rw [← sized]; exact r.isLt)
    rw [← same] at enrolled
    exact ⟨(List.getElem?_eq_getElem inside).trans (congrArg some same.symm), enrolled⟩
  have seats : ∀ r (p : Fin (layout r).roster.size), ∃ id : Fin plans.length,
      (layout r).members[p.val]? = some id.val ∧
        ((layout r).roster.party p).publicKey = (K.keypair (seed id)).publicKey := by
    intro r
    obtain ⟨planned, enrolled⟩ := made r
    exact enrolled.exists_member zipped (known _ (List.mem_of_getElem? planned))
  choose member listed keys using seats
  refine ⟨⟨seed, layout, cast, member, ?_, ?_, quiet, fun r => (made r).1,
    fun r => (made r).2.length_eq, listed, keys, fun id => ?_⟩⟩
  · refine List.ext_getElem (by simp [sized]) fun r _ _ => ?_
    rw [List.getElem_ofFn]
    rfl
  · refine List.ext_getElem (by simp [counted]) fun id _ _ => ?_
    rw [List.getElem_ofFn]
    rfl
  · have planned := nodeMade id.val (by simp [keyed]) (by rw [← counted]; exact id.isLt)
    obtain ⟨_, same⟩ := List.getElem?_eq_some_iff.1 (zipped id)
    simpa [same, cast] using planned

end World

theorem Orderly.of_make {K : Kem} {genuine : WrappedKey → Prop} {place : Place} {n : SimNode}
    {layout : NodeLayout} {secretKey : SecretKey} (made : Node.make layout secretKey = .ok n.node)
    (seat : n.place = place) (role : layout.role = place.role) (log : n.log = .empty) :
    Orderly K genuine place n := by
  obtain ⟨_, _, _, node⟩ := Node.make_success made
  exact {
    place_eq := seat
    role := by
      rw [← role, node]
      rfl
    coherent := (Node.make_coherent made).1
    alive := by
      rw [node]
      rfl
    errors := by
      rw [log]
      rfl
    announced := by
      rw [log, node]
      rfl }

namespace Hierarchy

variable {K : Kem} {H : Hierarchy K} {w : World} {cast : H.Cast}

/-- A hierarchy whose nodes are new runs as it should. -/
theorem runs_of_fresh (shows : H.Shows w cast) (quiet : w.network.packets = [])
    (place : ∀ id, (cast id).place = H.place id) (log : ∀ id, (cast id).log = .empty)
    (made : ∀ id, ∃ layout secretKey, Node.make layout secretKey = .ok (cast id).node ∧
      layout.role = (H.place id).role)
    (session : ∀ r p, (cast (H.member r p)).node.session? (H.level r p) =
      some ((H.ring r).fresh p)) : H.Runs w [] cast (fun _ => []) [] := by
  have fresh : H.view cast = fun r p => (H.ring r).fresh p := by
    funext r p
    exact view_of_session (session r p)
  exact {
    shows := shows
    invariant := {
      orderly := by
        intro id
        obtain ⟨layout, secretKey, built, role⟩ := made id
        exact .of_make built (place id) role (log id)
      steady := by
        rw [fresh]
        exact fun r => (H.ring r).steady_fresh
      honest := by
        rw [quiet]
        simp
      letters := fun r p sent => by cases sent
      parcels := by
        intro r p _ installed
        obtain ⟨layout, secretKey, built, _⟩ := made (H.member r p)
        obtain ⟨_, _, _, node⟩ := Node.make_success built
        rw [node] at installed
        cases installed }
    begun := by
      intro r p
      rw [fresh]
      simp [HonestRing.fresh, Session.fresh, Progress.initial] }

end Hierarchy

namespace World.Furnished

variable {K : Kem} {plans : List NodePlan} {members : List (List Nat)} {clusters : Nat} {w : World}
  (furnished : Furnished K plans members clusters w)

theorem position_unique (seated : Seated (plans.map (·.place)) members) {r : Fin (clusters + 1)}
    {p q id : Nat} (here : (furnished.layout r).members[p]? = some id)
    (there : (furnished.layout r).members[q]? = some id) : p = q := by
  have distinct := seated.distinct _ (List.mem_of_getElem? (furnished.planned r))
  obtain ⟨inside, _⟩ := List.getElem?_eq_some_iff.1 here
  exact (List.getElem?_inj inside distinct).1 (here.trans there.symm)

/-- The hierarchy of the nodes in a world. -/
def hierarchy (seated : Seated (plans.map (·.place)) members)
    (length : members.length = clusters + 1) : Hierarchy K where
  nodes := plans.length
  place id := (plans.get id).place
  clusters := clusters
  ring r := ⟨(furnished.layout r).roster, fun p => furnished.seed (furnished.member r p),
    furnished.generated r⟩
  member := furnished.member
  injective := by
    intro r p q same
    have there := furnished.listed r q
    rw [← same] at there
    exact Fin.ext (furnished.position_unique seated (furnished.listed r p) there)
  seated := by
    intro r id
    have sits := seated.seated r _ (furnished.planned r) id
    simp only [List.getElem?_map, List.getElem?_eq_getElem id.isLt, Option.map_some,
      Option.some.injEq, exists_eq_left'] at sits
    refine Iff.trans ?_ sits
    constructor
    · rintro ⟨p, rfl⟩
      exact List.mem_of_getElem? (furnished.listed r p)
    · intro inside
      obtain ⟨p, known, same⟩ := List.getElem_of_mem inside
      have there := furnished.listed r ⟨p, (furnished.full r) ▸ known⟩
      rw [List.getElem?_eq_getElem known, same] at there
      exact ⟨_, Fin.ext (Option.some.inj there).symm⟩
  clusterRing_le := by
    intro id
    have inside := seated.clusterRing_lt _ (List.mem_map_of_mem (plans.get_mem id))
    rw [length] at inside
    exact Nat.le_of_lt_succ inside
  leaderRing := fun id => seated.leaderRing _ (List.mem_map_of_mem (plans.get_mem id))
  led := by
    intro r cluster
    obtain ⟨id, leads⟩ := seated.led r (fun root => cluster (Fin.ext root)) (by
      rw [length]
      exact r.isLt)
    obtain ⟨known, same⟩ := List.getElem?_eq_some_iff.1 leads
    exact ⟨⟨id, by simpa using known⟩, by simpa using same⟩
  leader_unique := by
    intro r id id' leads leads'
    refine Fin.ext (seated.leader_unique r id id' ?_ ?_)
    · simpa using leads
    · simpa using leads'

/-- A world that was built for a seating plan is a hierarchy that has not begun. -/
theorem runs (seated : Seated (plans.map (·.place)) members)
    (length : members.length = clusters + 1)
    (roles : ∀ plan ∈ plans, plan.role = plan.place.role) :
    (furnished.hierarchy seated length).Runs w [] furnished.cast (fun _ => []) [] := by
  have role : ∀ id, (plans.get id).role = (plans.get id).place.role := fun id =>
    roles _ (plans.get_mem id)
  refine Hierarchy.runs_of_fresh ⟨furnished.nodes, ?_⟩ furnished.quiet
    (fun id => (furnished.furnished id).place) (fun id => (furnished.furnished id).log) ?_ ?_
  · rw [furnished.rings, List.map_ofFn]
    refine congrArg List.ofFn (funext fun r => ?_)
    refine List.ext_getElem (by simp [furnished.full r, hierarchy]) fun p inside inside' => ?_
    rw [List.getElem_ofFn]
    have there := furnished.listed r ⟨p, (furnished.full r) ▸ inside⟩
    exact Option.some.inj ((List.getElem?_eq_getElem inside).symm.trans there)
  · intro id
    obtain ⟨cluster, clusterIndex, leader, _, _, made⟩ := (furnished.furnished id).made
    exact ⟨_, _, made, role id⟩
  · intro r p
    let H := furnished.hierarchy seated length
    have made := furnished.furnished (H.member r p)
    obtain ⟨layout, q, inside, present, there, here⟩ :=
      made.session? (role _) (Hierarchy.ringOf_level p)
    have same : some (furnished.layout r) = some layout := by
      rwa [furnished.rings, List.getElem?_ofFn, dif_pos (show r.val < clusters + 1 from r.isLt)]
        at present
    obtain rfl := Option.some.inj same
    obtain rfl := furnished.position_unique seated (furnished.listed r p) there
    exact here

end World.Furnished

/-- The world of leaders with clusters is a hierarchy that has not begun. -/
theorem World.exists_runs_of_hierarchical {K : Kem} {seed : UInt64} {leaders : Nat}
    {sizes : List Nat} {config : NetworkConfig} {w : World}
    (built : hierarchical K seed leaders sizes config = .ok w) :
    ∃ (H : Hierarchy K) (cast : H.Cast), H.Runs w [] cast (fun _ => []) [] := by
  rw [hierarchical] at built
  split at built
  next => cases built
  next few =>
    have seated := seated_hierarchy (Nat.not_lt.1 few)
    have length := length_hierarchyMembers leaders sizes
    have known : ∀ ring ∈ hierarchyMembers leaders sizes, ∀ id ∈ ring,
        id < (hierarchyPlans leaders sizes).length := by
      intro ring member id inside
      obtain ⟨r, bound, rfl⟩ := List.getElem_of_mem member
      obtain ⟨place, here, _⟩ := (seated.seated r _ (List.getElem?_eq_getElem bound) id).1 inside
      simpa using (List.getElem?_eq_some_iff.1 here).1
    obtain ⟨furnished⟩ := furnished_of_build built known length
    exact ⟨_, _, furnished.runs seated length fun plan => role_hierarchyPlans⟩

end RingAgreement.Simulation

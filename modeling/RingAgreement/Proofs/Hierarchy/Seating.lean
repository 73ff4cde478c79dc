import RingAgreement.Proofs.Hierarchy.Basic
/-!
The plan of a hierarchy. Its first ring has all leaders as members, and every further ring has the
leader that is numbered after it and the nodes whose places are in it.
-/

namespace RingAgreement.Simulation

/-- Places of nodes and members of rings that fit each other, with one leader for every ring but
the first. -/
structure Seated (places : List Place) (members : List (List Nat)) : Prop where
  distinct : ∀ ring ∈ members, ring.Nodup
  seated : ∀ r ring, members[r]? = some ring → ∀ id, id ∈ ring ↔
    ∃ place : Place, places[id]? = some place ∧
      (place.clusterRing = r ∨ place.leaderRing = some r)
  clusterRing_lt : ∀ place ∈ places, place.clusterRing < members.length
  leaderRing : ∀ place ∈ places, ∀ r, place.leaderRing = some r → r = 0 ∧ place.clusterRing ≠ 0
  led : ∀ r, r ≠ 0 → r < members.length → ∃ id : Nat, places[id]? = some (Place.mk r (some 0))
  leader_unique : ∀ r (id id' : Nat), places[id]? = some (Place.mk r (some 0)) →
    places[id']? = some (Place.mk r (some 0)) → id = id'

namespace World

/-! ## Members of clusters -/

/-- The plans of the members of clusters from `c` on that lead nobody. -/
def followers (c : Nat) (sizes : List Nat) : List NodePlan :=
  (sizes.zipIdx c).flatMap fun (size, c) => memberPlans c size

theorem followers_cons (c size : Nat) (sizes : List Nat) :
    followers c (size :: sizes) = memberPlans c size ++ followers (c + 1) sizes := rfl

theorem place_memberPlans (c size : Nat) :
    (memberPlans c size).map (·.place) = List.replicate (size - 1) ⟨1 + c, none⟩ := by
  rw [memberPlans, List.map_map]
  exact List.map_const.trans (by rw [List.length_range])

/-- The places of followers, by number. -/
def followerPlace (c : Nat) (sizes : List Nat) (i : Nat) : Option Place :=
  ((followers c sizes).map (·.place))[i]?

theorem followerPlace_cons (c size : Nat) (sizes : List Nat) (i : Nat) :
    followerPlace c (size :: sizes) i =
      if i < size - 1 then some ⟨1 + c, none⟩
      else followerPlace (c + 1) sizes (i - (size - 1)) := by
  rw [followerPlace, followers_cons, List.map_append, place_memberPlans,
    List.getElem?_append, List.length_replicate]
  split
  next inside => rw [List.getElem?_replicate, if_pos inside]
  next => rfl

theorem clusterRing_of_followerPlace {c i : Nat} {sizes : List Nat} {place : Place}
    (here : followerPlace c sizes i = some place) :
    ∃ k < sizes.length, place = ⟨1 + (c + k), none⟩ := by
  induction sizes generalizing c i with
  | nil => cases here
  | cons size sizes ih =>
    rw [followerPlace_cons] at here
    split at here
    next =>
      obtain rfl := Option.some.inj here
      exact ⟨0, by simp, rfl⟩
    next =>
      obtain ⟨k, inside, rfl⟩ := ih here
      exact ⟨k + 1, by simpa using inside, by simp; omega⟩

/-- A cluster has its leader and those with places in it. -/
theorem mem_clusterMembers {sizes : List Nat} {c next k : Nat} {ring : List Nat}
    (here : (clusterMembers c next sizes)[k]? = some ring) (id : Nat) :
    id ∈ ring ↔
      id = c + k ∨ next ≤ id ∧ followerPlace c sizes (id - next) = some ⟨1 + (c + k), none⟩ := by
  induction sizes generalizing c next k with
  | nil => simp [clusterMembers] at here
  | cons size sizes ih =>
    cases k with
    | zero =>
      simp only [clusterMembers, List.getElem?_cons_zero, Option.some.injEq] at here
      subst here
      simp only [List.mem_cons, List.mem_map, List.mem_range, Nat.add_zero]
      refine or_congr_right ⟨?_, ?_⟩
      · rintro ⟨m, inside, rfl⟩
        refine ⟨Nat.le_add_right _ _, ?_⟩
        rw [followerPlace_cons, if_pos (by omega)]
      · rintro ⟨after, placed⟩
        rw [followerPlace_cons] at placed
        split at placed
        next inside => exact ⟨id - next, inside, by omega⟩
        next =>
          obtain ⟨j, _, same⟩ := clusterRing_of_followerPlace placed
          simp only [Place.mk.injEq, and_true] at same
          omega
    | succ k =>
      simp only [clusterMembers, List.getElem?_cons_succ] at here
      rw [ih here, followerPlace_cons]
      have shifted : c + 1 + k = c + (k + 1) := by omega
      rw [shifted]
      refine or_congr_right ⟨?_, ?_⟩
      · rintro ⟨after, placed⟩
        refine ⟨by omega, ?_⟩
        rw [if_neg (by omega), Nat.sub_sub]
        exact placed
      · rintro ⟨after, placed⟩
        split at placed
        next => simp at placed
        next outside =>
          rw [Nat.sub_sub] at placed
          exact ⟨by omega, placed⟩

theorem length_clusterMembers (c next : Nat) (sizes : List Nat) :
    (clusterMembers c next sizes).length = sizes.length := by
  induction sizes generalizing c next with
  | nil => rfl
  | cons size sizes ih => simp [clusterMembers, ih]

theorem nodup_clusterMembers {c next : Nat} {sizes : List Nat} (before : c + sizes.length ≤ next) :
    ∀ ring ∈ clusterMembers c next sizes, ring.Nodup := by
  induction sizes generalizing c next with
  | nil => simp [clusterMembers]
  | cons size sizes ih =>
    intro ring member
    rw [List.length_cons] at before
    rcases List.mem_cons.1 member with rfl | later
    · refine List.nodup_cons.2 ⟨?_, (List.nodup_range).map fun _ _ => Nat.add_left_cancel⟩
      intro found
      obtain ⟨m, _, same⟩ := List.mem_map.1 found
      omega
    · exact ih (by omega) ring later

/-! ## The whole plan -/

/-- The plans of all nodes of a hierarchy. -/
def hierarchyPlans (leaders : Nat) (sizes : List Nat) : List NodePlan :=
  (List.range leaders).map (leaderPlan sizes.length) ++ followers 0 sizes

def hierarchyMembers (leaders : Nat) (sizes : List Nat) : List (List Nat) :=
  List.range leaders :: clusterMembers 0 leaders sizes

theorem place_leaderPlan (clusters l : Nat) : (leaderPlan clusters l).place =
    if l < clusters then ⟨1 + l, some 0⟩ else ⟨0, none⟩ := by
  rw [leaderPlan]
  split <;> rfl

theorem place_hierarchyPlans (leaders : Nat) (sizes : List Nat) (id : Nat) :
    ((hierarchyPlans leaders sizes).map (·.place))[id]? =
      if id < leaders then some (leaderPlan sizes.length id).place
      else followerPlace 0 sizes (id - leaders) := by
  rw [hierarchyPlans, List.map_append, List.getElem?_append, List.length_map, List.length_map,
    List.length_range]
  split
  next inside => simp [inside]
  next => rfl

theorem role_hierarchyPlans {leaders : Nat} {sizes : List Nat} {plan : NodePlan}
    (member : plan ∈ hierarchyPlans leaders sizes) : plan.role = plan.place.role := by
  rcases List.mem_append.1 member with leading | following
  · obtain ⟨l, _, rfl⟩ := List.mem_map.1 leading
    rw [leaderPlan]
    split <;> rfl
  · obtain ⟨⟨size, c⟩, _, member⟩ := List.mem_flatMap.1 following
    obtain ⟨m, _, rfl⟩ := List.mem_map.1 member
    simp [Place.role]

variable {leaders : Nat} {sizes : List Nat}

/-- The first leaders lead the clusters, the others have no cluster, and followers come after. -/
theorem place_cases (few : sizes.length ≤ leaders) {id : Nat} {place : Place} :
    ((hierarchyPlans leaders sizes).map (·.place))[id]? = some place ↔
      (id < sizes.length ∧ place = ⟨1 + id, some 0⟩) ∨
      (sizes.length ≤ id ∧ id < leaders ∧ place = ⟨0, none⟩) ∨
      (leaders ≤ id ∧ followerPlace 0 sizes (id - leaders) = some place) := by
  rw [place_hierarchyPlans]
  by_cases leads : id < leaders
  · rw [if_pos leads, place_leaderPlan, Option.some.injEq]
    split
    next inside => simp [inside, leads, eq_comm]
    next outside =>
      have apart := Nat.not_lt.1 outside
      simp [outside, apart, leads, eq_comm]
  · rw [if_neg leads]
    have behind : ¬ id < sizes.length := by omega
    simp [leads, behind, Nat.not_lt.1 leads]

theorem length_hierarchyMembers (leaders : Nat) (sizes : List Nat) :
    (hierarchyMembers leaders sizes).length = sizes.length + 1 := by
  rw [hierarchyMembers, List.length_cons, length_clusterMembers]

/-- The kinds of nodes of a hierarchy. -/
theorem placed_hierarchy (few : sizes.length ≤ leaders) {place : Place}
    (member : place ∈ (hierarchyPlans leaders sizes).map (·.place)) :
    (∃ l < sizes.length, place = ⟨1 + l, some 0⟩) ∨ place = ⟨0, none⟩ ∨
      ∃ k < sizes.length, place = ⟨1 + k, none⟩ := by
  obtain ⟨id, _, here⟩ := List.getElem_of_mem member
  rcases (place_cases few).1 (List.getElem?_eq_some_iff.2 ⟨_, here⟩) with
    ⟨leads, same⟩ | ⟨_, _, same⟩ | ⟨_, follows⟩
  · exact .inl ⟨id, leads, same⟩
  · exact .inr (.inl same)
  · obtain ⟨k, inside, same⟩ := clusterRing_of_followerPlace follows
    exact .inr (.inr ⟨k, inside, by simpa using same⟩)

/-- The leaders are the nodes with a place in the first ring, whether they lead a cluster or not. -/
theorem seated_rootRing (few : sizes.length ≤ leaders) (id : Nat) :
    id < leaders ↔ ∃ place : Place,
      ((hierarchyPlans leaders sizes).map (·.place))[id]? = some place ∧
        (place.clusterRing = 0 ∨ place.leaderRing = some 0) := by
  constructor
  · intro inside
    by_cases leads : id < sizes.length
    · exact ⟨_, (place_cases few).2 (.inl ⟨leads, rfl⟩), .inr rfl⟩
    · exact ⟨_, (place_cases few).2 (.inr (.inl ⟨Nat.not_lt.1 leads, inside, rfl⟩)), .inl rfl⟩
  · rintro ⟨place, there, root⟩
    rcases (place_cases few).1 there with ⟨leads, _⟩ | ⟨_, inside, _⟩ | ⟨_, follows⟩
    · exact Nat.lt_of_lt_of_le leads few
    · exact inside
    · obtain ⟨k, _, rfl⟩ := clusterRing_of_followerPlace follows
      simp at root

theorem seated_clusterRing (few : sizes.length ≤ leaders) {k : Nat} {ring : List Nat}
    (here : (clusterMembers 0 leaders sizes)[k]? = some ring) (id : Nat) :
    id ∈ ring ↔ ∃ place : Place,
      ((hierarchyPlans leaders sizes).map (·.place))[id]? = some place ∧
        (place.clusterRing = k + 1 ∨ place.leaderRing = some (k + 1)) := by
  have inside : k < sizes.length := by
    rw [← length_clusterMembers 0 leaders sizes]
    exact (List.getElem?_eq_some_iff.1 here).1
  rw [mem_clusterMembers here, Nat.zero_add]
  constructor
  · rintro (rfl | ⟨after, follows⟩)
    · exact ⟨_, (place_cases few).2 (.inl ⟨inside, rfl⟩), .inl (Nat.add_comm 1 id)⟩
    · exact ⟨_, (place_cases few).2 (.inr (.inr ⟨after, follows⟩)), .inl (Nat.add_comm 1 k)⟩
  · rintro ⟨place, there, seat⟩
    rcases (place_cases few).1 there with ⟨_, rfl⟩ | ⟨_, _, rfl⟩ | ⟨after, follows⟩
    · left
      simp at seat
      omega
    · simp at seat
    · right
      obtain ⟨j, _, rfl⟩ := clusterRing_of_followerPlace follows
      obtain rfl : j = k := by
        simp at seat
        omega
      exact ⟨after, by simpa using follows⟩

theorem number_of_led (few : sizes.length ≤ leaders) {r id : Nat}
    (here : ((hierarchyPlans leaders sizes).map (·.place))[id]? = some (Place.mk r (some 0))) :
    r = 1 + id := by
  rcases (place_cases few).1 here with ⟨_, same⟩ | ⟨_, _, same⟩ | ⟨_, follows⟩
  · exact (Place.mk.inj same).1
  · cases (Place.mk.inj same).2
  · obtain ⟨k, _, same⟩ := clusterRing_of_followerPlace follows
    cases (Place.mk.inj same).2

theorem seated_hierarchy (few : sizes.length ≤ leaders) :
    Seated ((hierarchyPlans leaders sizes).map (·.place)) (hierarchyMembers leaders sizes) where
  distinct := by
    intro ring member
    rcases List.mem_cons.1 member with rfl | member
    · exact List.nodup_range
    · exact nodup_clusterMembers (by omega) ring member
  seated := by
    intro r ring here id
    cases r with
    | zero =>
      obtain rfl : _ = ring := Option.some.inj here
      rw [List.mem_range]
      exact seated_rootRing few id
    | succ k => exact seated_clusterRing few here id
  clusterRing_lt := by
    intro place member
    rw [length_hierarchyMembers]
    rcases placed_hierarchy few member with ⟨l, inside, rfl⟩ | rfl | ⟨k, inside, rfl⟩
    · simpa [Nat.add_comm] using inside
    · simp
    · simpa [Nat.add_comm] using inside
  leaderRing := by
    intro place member r leads
    rcases placed_hierarchy few member with ⟨l, inside, rfl⟩ | rfl | ⟨k, inside, rfl⟩
    · simpa [eq_comm] using leads
    · cases leads
    · cases leads
  led := by
    intro r cluster inside
    rw [length_hierarchyMembers] at inside
    obtain ⟨l, rfl⟩ := Nat.exists_eq_succ_of_ne_zero cluster
    refine ⟨l, (place_cases few).2 (.inl ⟨Nat.lt_of_succ_lt_succ inside, ?_⟩)⟩
    rw [Nat.succ_eq_one_add]
  leader_unique := by
    intro r id id' here there
    have first := number_of_led few here
    have second := number_of_led few there
    omega

end World

end RingAgreement.Simulation

import Mathlib.Data.List.OfFn
import RingAgreement.Proofs.Medium.Steady
import RingAgreement.Proofs.Node.Step
import RingAgreement.Simulation.World
/-!
Hierarchies of honest rings. The leaders form the root ring, and each of the other rings is a
cluster that one of them leads. A node has a seat in the ring of its cluster, and a leader has
another one in the root ring.
-/

namespace RingAgreement.Simulation

/-- The role that goes with a place. -/
def Place.role (place : Place) : Role :=
  if place.leaderRing.isSome then .leader
  else if place.clusterRing = 0 then .standalone
  else .member

/-- Nodes in honest rings, of which the first one is the root. -/
structure Hierarchy (K : Kem) where
  nodes : Nat
  place : Fin nodes → Place
  clusters : Nat
  ring : Fin (clusters + 1) → HonestRing K
  member : (r : Fin (clusters + 1)) → Fin (ring r).roster.size → Fin nodes
  injective : ∀ r, Function.Injective (member r)
  seated : ∀ (r : Fin (clusters + 1)) id,
    (∃ p, member r p = id) ↔ (place id).clusterRing = r ∨ (place id).leaderRing = some r.val
  clusterRing_le : ∀ id, (place id).clusterRing ≤ clusters
  leaderRing : ∀ id r, (place id).leaderRing = some r → r = 0 ∧ (place id).clusterRing ≠ 0
  led : ∀ r : Fin (clusters + 1), r ≠ 0 → ∃ id, place id = ⟨r, some 0⟩
  leader_unique : ∀ r id id', place id = ⟨r, some 0⟩ → place id' = ⟨r, some 0⟩ → id = id'

namespace Hierarchy

variable {K : Kem} (H : Hierarchy K)

/-! ## Seats -/

/-- The level on which a seat belongs to its node. -/
def level (r : Fin (H.clusters + 1)) (p : Fin (H.ring r).roster.size) : Level :=
  if (H.place (H.member r p)).clusterRing = r then .cluster else .leader

variable {H} {r r' : Fin (H.clusters + 1)} {p q : Fin (H.ring r).roster.size}
  {p' : Fin (H.ring r').roster.size}

theorem place_member (p : Fin (H.ring r).roster.size) :
    (H.place (H.member r p)).clusterRing = r ∨
      (H.place (H.member r p)).leaderRing = some r.val :=
  (H.seated r _).1 ⟨p, rfl⟩

theorem level_eq_cluster : H.level r p = .cluster ↔ (H.place (H.member r p)).clusterRing = r := by
  rw [level]
  split <;> simp [*]

theorem level_eq_leader : H.level r p = .leader ↔
    (H.place (H.member r p)).leaderRing = some r.val := by
  rw [level]
  split
  next own =>
    simp only [reduceCtorEq, false_iff]
    intro leads
    obtain ⟨root, other⟩ := H.leaderRing _ _ leads
    exact other (own.trans root)
  next other => simpa [other] using place_member p

theorem ringOf_level (p : Fin (H.ring r).roster.size) :
    (H.place (H.member r p)).ringOf (H.level r p) = some r.val := by
  cases seat : H.level r p with
  | cluster => exact congrArg some (level_eq_cluster.1 seat)
  | leader => exact level_eq_leader.1 seat

theorem levelFor_member (p : Fin (H.ring r).roster.size) :
    (H.place (H.member r p)).levelFor r = some (H.level r p) := by
  rw [Place.levelFor, level]
  split
  next => rfl
  next other => rw [if_pos ((place_member p).resolve_left other)]

/-- No two rings have a seat of one node on one level. -/
theorem ring_eq_of_seat (node : H.member r p = H.member r' p')
    (level : H.level r p = H.level r' p') :
    r = r' := by
  have here := ringOf_level p
  rw [node, level, ringOf_level p', Option.some.injEq] at here
  exact (Fin.ext here).symm

theorem exists_home_seat (id : Fin H.nodes) :
    ∃ r p, H.member r p = id ∧ H.level r p = .cluster := by
  have inside : (H.place id).clusterRing < H.clusters + 1 := Nat.lt_succ_of_le (H.clusterRing_le id)
  obtain ⟨p, seat⟩ := (H.seated ⟨_, inside⟩ id).2 (.inl rfl)
  refine ⟨⟨_, inside⟩, p, seat, level_eq_cluster.2 ?_⟩
  rw [seat]

theorem exists_root_seat {id : Fin H.nodes} (leads : (H.place id).leaderRing = some 0) :
    ∃ p, H.member 0 p = id ∧ H.level 0 p = .leader := by
  obtain ⟨p, seat⟩ := (H.seated 0 id).2 (.inr leads)
  refine ⟨p, seat, level_eq_leader.2 ?_⟩
  rw [seat]
  exact leads

/-! ## Roles -/

theorem role_of_leads {id : Fin H.nodes} {r : Nat} (leads : H.place id = ⟨r, some 0⟩) :
    (H.place id).role = .leader := by
  rw [leads]
  rfl

theorem leads_of_role {id : Fin H.nodes} (leading : (H.place id).role = .leader) :
    H.place id = ⟨(H.place id).clusterRing, some 0⟩ := by
  rw [Place.role] at leading
  split at leading
  next present =>
    obtain ⟨r, leads⟩ := Option.isSome_iff_exists.1 present
    obtain ⟨rfl, _⟩ := H.leaderRing id r leads
    rw [← leads]
  next =>
    split at leading
    next => cases leading
    next => cases leading

theorem ring_of_standalone {id : Fin H.nodes} (alone : (H.place id).role = .standalone)
    (own : (H.place id).clusterRing = r) : r = 0 := by
  rw [Place.role] at alone
  split at alone
  next => cases alone
  next =>
    split at alone
    next root => exact Fin.ext (own.symm.trans root)
    next => cases alone

theorem ring_of_member {id : Fin H.nodes} (follows : (H.place id).role = .member)
    (own : (H.place id).clusterRing = r) : r ≠ 0 := by
  rintro rfl
  have root : (H.place id).clusterRing = 0 := own
  rw [Place.role, if_pos root] at follows
  split at follows
  next => cases follows
  next => cases follows

/-- All members of a cluster but its leader take the key of the cluster from the leader. -/
theorem role_of_led {p q : Fin (H.ring r).roster.size}
    (leads : H.place (H.member r p) = ⟨r, some 0⟩) (other : q ≠ p) :
    (H.place (H.member r q)).role = .member := by
  have cluster : r.val ≠ 0 := by
    have own := (H.leaderRing (H.member r p) 0 (by rw [leads])).2
    rwa [leads] at own
  have follows : ¬ (H.place (H.member r q)).leaderRing.isSome := by
    intro present
    obtain ⟨r', leads'⟩ := Option.isSome_iff_exists.1 present
    obtain ⟨rfl, _⟩ := H.leaderRing _ r' leads'
    have own : (H.place (H.member r q)).clusterRing = r := by
      rcases place_member q with own | root
      · exact own
      · rw [leads', Option.some.injEq] at root
        exact absurd root.symm cluster
    have also : H.place (H.member r q) = ⟨r, some 0⟩ := by
      rw [← leads', ← own]
    exact other (H.injective r (H.leader_unique r _ _ also leads))
  have own : (H.place (H.member r q)).clusterRing = r := by
    refine (place_member q).resolve_right fun root => follows ?_
    rw [root]
    rfl
  rw [Place.role, if_neg follows, if_neg (by rw [own]; exact cluster)]

/-! ## Who hears whom -/

def topology (H : Hierarchy K) : Topology where
  places := List.ofFn H.place
  members := List.ofFn fun r => List.ofFn fun p => (H.member r p).val

theorem getElem?_places (id : Fin H.nodes) : H.topology.places[id.val]? = some (H.place id) := by
  rw [topology, List.getElem?_ofFn, dif_pos id.isLt]

theorem getD_members (r : Fin (H.clusters + 1)) :
    H.topology.members.getD r [] = List.ofFn fun p => (H.member r p).val := by
  rw [List.getD_eq_getElem?_getD, topology, List.getElem?_ofFn, dif_pos r.isLt, Option.getD_some]

/-- A message of a seat is heard at all other seats of its ring. -/
theorem mem_hearers {p : Fin (H.ring r).roster.size} {hearer : Nat × Level} :
    hearer ∈ H.topology.hearers (H.member r p) (H.level r p) ↔
      ∃ q, q ≠ p ∧ hearer = ((H.member r q).val, H.level r q) := by
  have ring : (H.topology.places[(H.member r p).val]?).bind (·.ringOf (H.level r p)) =
      some r.val := by
    rw [getElem?_places, Option.bind_some, ringOf_level]
  have heard : ∀ q : Fin (H.ring r).roster.size, (H.topology.places[(H.member r q).val]?).bind
      (fun place => (place.levelFor r).bind fun level => some ((H.member r q).val, level)) =
        some ((H.member r q).val, H.level r q) := by
    intro q
    rw [getElem?_places, Option.bind_some, levelFor_member, Option.bind_some]
  rw [Topology.hearers]
  simp only [Option.bind_eq_bind, ring, getD_members, List.mem_filterMap, List.mem_ofFn,
    Option.pure_def]
  constructor
  · rintro ⟨_, ⟨q, rfl⟩, listening⟩
    split at listening
    next => cases listening
    next other =>
      rw [heard] at listening
      refine ⟨q, fun same => other (by rw [same]), (Option.some.inj listening).symm⟩
  · rintro ⟨q, other, rfl⟩
    refine ⟨_, ⟨q, rfl⟩, ?_⟩
    rw [if_neg, heard]
    exact fun same => other (H.injective r (Fin.ext same))

/-! ## What the nodes of a hierarchy hold -/

/-- The nodes of a hierarchy at one moment. -/
abbrev Cast (H : Hierarchy K) := Fin H.nodes → SimNode

/-- The session at a seat. -/
def view (H : Hierarchy K) (cast : H.Cast) (r : Fin (H.clusters + 1))
    (p : Fin (H.ring r).roster.size) : Session :=
  ((cast (H.member r p)).node.session? (H.level r p)).getD ((H.ring r).fresh p)

variable {cast : H.Cast}

theorem view_of_session {s : Session}
    (here : (cast (H.member r p)).node.session? (H.level r p) = some s) :
    H.view cast r p = s := by
  rw [view, here, Option.getD_some]

theorem view_update_elsewhere {n : SimNode} {s : Session} (changed : n.node.session? =
      Function.update (cast (H.member r p)).node.session? (H.level r p) (some s))
    (elsewhere : ¬ (H.member r' p' = H.member r p ∧ H.level r' p' = H.level r p)) :
    H.view (Function.update cast (H.member r p) n) r' p' = H.view cast r' p' := by
  by_cases node : H.member r' p' = H.member r p
  · have other : H.level r' p' ≠ H.level r p := fun level => elsewhere ⟨node, level⟩
    rw [view, view, node, Function.update_self, changed, Function.update_of_ne other]
  · rw [view, view, Function.update_of_ne node]

/-- A node that changes one of its sessions changes one seat. -/
theorem view_update {n : SimNode} {s : Session} (changed : n.node.session? =
      Function.update (cast (H.member r p)).node.session? (H.level r p) (some s)) :
    H.view (Function.update cast (H.member r p) n) =
      Function.update (H.view cast) r (Function.update (H.view cast r) p s) := by
  funext r' p'
  by_cases ring : r' = r
  · subst ring
    rw [Function.update_self]
    by_cases seat : p' = p
    · subst seat
      rw [Function.update_self, view, Function.update_self, changed, Function.update_self,
        Option.getD_some]
    · rw [Function.update_of_ne seat]
      exact view_update_elsewhere changed fun same => seat (H.injective _ same.1)
  · rw [Function.update_of_ne ring]
    exact view_update_elsewhere changed fun same => ring (ring_eq_of_seat same.1 same.2)

/-- A node that keeps its sessions keeps all seats. -/
theorem view_update_of_kept {id : Fin H.nodes} {n : SimNode}
    (kept : n.node.session? = (cast id).node.session?) :
    H.view (Function.update cast id n) = H.view cast := by
  funext r p
  by_cases node : H.member r p = id
  · subst node
    rw [view, view, Function.update_self, kept]
  · rw [view, view, Function.update_of_ne node]

theorem groupKey_view (r : Fin (H.clusters + 1)) (p : Fin (H.ring r).roster.size) :
    (H.view cast r p).groupKey = (cast (H.member r p)).node.groupKey (H.level r p) := by
  rw [view, Node.groupKey]
  cases (cast (H.member r p)).node.session? (H.level r p) with
  | none => rfl
  | some s => rfl

/-- The wrapped key of a cluster: the leader of the cluster wraps the key of the leaders with the
key of its cluster. -/
def Genuine (H : Hierarchy K) (cast : H.Cast) (r : Nat) (wrapped : WrappedKey) : Prop :=
  ∃ id g k, H.place id = ⟨r, some 0⟩ ∧ (cast id).node.groupKey .cluster = some g ∧
    (cast id).node.groupKey .leader = some k ∧ wrapped = (WrappingKey.derive g).wrap k.key

/-- A wrapped key of a cluster can be opened with the group key of any of its members. -/
theorem Genuine.wraps {posted : List (Posted (H.ring r).roster.size)}
    (steady : (H.ring r).Steady (H.view cast r) posted) {wrapped : WrappedKey}
    (genuine : H.Genuine cast r wrapped) {key : GroupKey}
    (held : (H.view cast r p).groupKey = some key) :
    ∃ k, (∃ q, (H.view cast 0 q).groupKey = some k) ∧
      (WrappingKey.derive key).wrap k.key = wrapped := by
  obtain ⟨id, g, k, leads, clusterKey, leaderKey, rfl⟩ := genuine
  have own : (H.place id).clusterRing = r := by rw [leads]
  obtain ⟨q, rfl⟩ := (H.seated r id).2 (.inl own)
  have theirs : (H.view cast r q).groupKey = some g := by
    rw [groupKey_view, level_eq_cluster.2 own, clusterKey]
  have leading : (H.place (H.member r q)).leaderRing = some 0 := by rw [leads]
  obtain ⟨root, seat, level⟩ := exists_root_seat leading
  refine ⟨k, ⟨root, ?_⟩, by rw [steady.agree held theirs]⟩
  rw [groupKey_view, level, seat, leaderKey]

end Hierarchy

end RingAgreement.Simulation

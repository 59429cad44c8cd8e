import Atree.Health.Check

/-! The parent walks of `CheckHealth`: a walk ends without error exactly when its slab
has a `Climb` up the recorded parents, each step within one owner. -/

namespace Atree

variable (slabs : AList (fun _ : StorageID => Slab)) (parentOf : ParentMap)

/-- The climb `CheckHealth` makes from `id`: the parents `path` it passes and the
root it ends at, each step between slabs with the same owner. -/
inductive Climb : StorageID → List StorageID → StorageID → Prop
  | root {id : StorageID} (parentless : parentOf.lookup id = none) : Climb id [] id
  | step {id p : StorageID} {path : List StorageID} {root : StorageID} (parent : parentOf.lookup id = some p)
      (sameOwner : ownerOf slabs id = ownerOf slabs p) (rest : Climb p path root) : Climb id (p :: path) root

variable {slabs parentOf}

/-- The recorded parents are a function, so a slab climbs one way only. -/
theorem Climb.unique {id root root' : StorageID} {path path' : List StorageID}
    (climb : Climb slabs parentOf id path root) (climb' : Climb slabs parentOf id path' root') :
    path = path' ∧ root = root' := by
  induction climb generalizing path' with
  | root parentless =>
    cases climb' with
    | root => exact ⟨rfl, rfl⟩
    | step parent => rw [parentless] at parent; cases parent
  | step parent _ _ ih =>
    cases climb' with
    | root parentless => rw [parentless] at parent; cases parent
    | step parent' _ rest' =>
      rw [parent] at parent'
      cases parent'
      obtain ⟨rfl, rfl⟩ := ih rest'
      exact ⟨rfl, rfl⟩

/-- Every slab a climb passes is a recorded parent. -/
theorem Climb.parent_of_mem {id root q : StorageID} {path : List StorageID}
    (climb : Climb slabs parentOf id path root) (member : q ∈ path) : ∃ child, parentOf.lookup child = some q := by
  induction climb with
  | root => cases member
  | @step id p _ _ parent _ _ ih =>
    rcases List.mem_cons.mp member with rfl | later
    · exact ⟨id, parent⟩
    · exact ih later

theorem Climb.root_parentless {id root : StorageID} {path : List StorageID}
    (climb : Climb slabs parentOf id path root) : parentOf.lookup root = none := by
  induction climb with
  | root parentless => exact parentless
  | step _ _ _ ih => exact ih

theorem Climb.root_mem {id root : StorageID} {path : List StorageID}
    (climb : Climb slabs parentOf id path root) : root = id ∨ root ∈ path := by
  induction climb with
  | root => exact .inl rfl
  | step _ _ _ ih =>
    rcases ih with rfl | later
    · exact .inr (List.mem_cons_self _ _)
    · exact .inr (List.mem_cons_of_mem _ later)

section Walks

variable {ε : Type}

theorem walkToRoot_of_climb {id root : StorageID} {path : List StorageID} (climb : Climb slabs parentOf id path root)
    {fuel : Nat} (enough : path.length < fuel) (visited roots : Finset StorageID) :
    (walkToRoot slabs parentOf fuel id visited roots : Option (Except (CheckHealthError ε) _)) =
      some (.ok (visited ∪ path.toFinset, insert root roots)) := by
  induction climb generalizing fuel visited with
  | root parentless =>
    obtain ⟨fuel, rfl⟩ : ∃ rest, fuel = rest + 1 := ⟨fuel - 1, by simp at enough; omega⟩
    simp [walkToRoot, parentless]
  | @step id p path root parent sameOwner _ ih =>
    obtain ⟨fuel, rfl⟩ : ∃ rest, fuel = rest + 1 := ⟨fuel - 1, by simp at enough; omega⟩
    simp only [walkToRoot, parent, if_pos sameOwner]
    rw [ih (show path.length < fuel by simp only [List.length_cons] at enough; omega)]
    congr 3
    ext q
    simp [or_comm, or_left_comm]

theorem climb_of_walkToRoot {fuel : Nat} {id : StorageID} {visited roots visited' roots' : Finset StorageID}
    (walked : (walkToRoot slabs parentOf fuel id visited roots : Option (Except (CheckHealthError ε) _)) =
      some (.ok (visited', roots'))) :
    ∃ path root, Climb slabs parentOf id path root ∧ path.length < fuel ∧
      visited' = visited ∪ path.toFinset ∧ roots' = insert root roots := by
  induction fuel generalizing id visited with
  | zero => cases walked
  | succ fuel ih =>
    unfold walkToRoot at walked
    split at walked
    · rename_i parentless
      cases walked
      exact ⟨[], id, .root parentless, Nat.succ_pos _, by simp, rfl⟩
    · rename_i p parent
      split at walked
      · rename_i sameOwner
        obtain ⟨path, root, climb, enough, rfl, rfl⟩ := ih walked
        refine ⟨p :: path, root, .step parent sameOwner climb, by simp; omega, ?_, rfl⟩
        ext q
        simp [or_comm, or_left_comm]
      · cases walked

/-- A slab on the climb of `leaf`: the leaf itself or a parent it passes. -/
def OnClimb (slabs : AList (fun _ : StorageID => Slab)) (parentOf : ParentMap) (leaf q : StorageID) : Prop :=
  ∃ path root, Climb slabs parentOf leaf path root ∧ (q = leaf ∨ q ∈ path)

/-- Successful walks from the leaves: every leaf climbs, and the walks visited the
leaves and their climbs and recorded the ends of those climbs. -/
theorem climbs_of_walkLeaves {fuel : Nat} {leafs : List StorageID} {visited roots visited' roots' : Finset StorageID}
    (walked : (walkLeaves slabs parentOf fuel leafs visited roots : Option (Except (CheckHealthError ε) _)) =
      some (.ok (visited', roots'))) :
    (∀ leaf ∈ leafs, ∃ path root, Climb slabs parentOf leaf path root ∧ path.length < fuel) ∧
    (∀ q, q ∈ visited' ↔ q ∈ visited ∨ ∃ leaf ∈ leafs, OnClimb slabs parentOf leaf q) ∧
    (∀ q, q ∈ roots' ↔ q ∈ roots ∨ ∃ leaf ∈ leafs, ∃ path, Climb slabs parentOf leaf path q) := by
  induction leafs generalizing visited roots with
  | nil => cases walked; simp
  | cons leaf leafs ih =>
    unfold walkLeaves at walked
    split at walked
    · cases walked
    · split at walked
      · cases walked
      · cases walked
      · rename_i visitedMid rootsMid walkedLeaf
        obtain ⟨path, root, climb, enough, rfl, rfl⟩ := climb_of_walkToRoot walkedLeaf
        obtain ⟨climbs, visitedIff, rootsIff⟩ := ih walked
        have onClimb : ∀ q, OnClimb slabs parentOf leaf q ↔ q = leaf ∨ q ∈ path := fun q =>
          ⟨fun ⟨path', root', climb', onPath⟩ => (climb.unique climb').1 ▸ onPath,
            fun onPath => ⟨path, root, climb, onPath⟩⟩
        have endsAt : ∀ q, (∃ path', Climb slabs parentOf leaf path' q) ↔ q = root := fun q =>
          ⟨fun ⟨_, climb'⟩ => ((climb.unique climb').2).symm, fun same => ⟨path, same ▸ climb⟩⟩
        refine ⟨?_, fun q => ?_, fun q => ?_⟩
        · intro other member
          rcases List.mem_cons.mp member with rfl | later
          · exact ⟨path, root, climb, enough⟩
          · exact climbs other later
        · rw [visitedIff]
          simp only [List.mem_cons, exists_eq_or_imp, onClimb, Finset.mem_union, Finset.mem_insert,
            List.mem_toFinset, or_assoc]
          exact or_left_comm
        · rw [rootsIff]
          simp only [List.mem_cons, exists_eq_or_imp, endsAt, Finset.mem_insert, or_assoc]
          exact or_left_comm

/-- Walks from distinct leaves that are nobody's parent, each with a climb within
the fuel, all succeed. -/
theorem walkLeaves_of_climbs {fuel : Nat} {leafs : List StorageID} (distinct : leafs.Nodup)
    (notParents : ∀ leaf ∈ leafs, ∀ id, parentOf.lookup id ≠ some leaf)
    (climbs : ∀ leaf ∈ leafs, ∃ path root, Climb slabs parentOf leaf path root ∧ path.length < fuel)
    {visited : Finset StorageID} (unvisited : ∀ leaf ∈ leafs, leaf ∉ visited) (roots : Finset StorageID) :
    ∃ visited' roots', (walkLeaves slabs parentOf fuel leafs visited roots : Option (Except (CheckHealthError ε) _)) =
      some (.ok (visited', roots')) := by
  induction leafs generalizing visited roots with
  | nil => exact ⟨visited, roots, rfl⟩
  | cons leaf leafs ih =>
    obtain ⟨path, root, climb, enough⟩ := climbs leaf (List.mem_cons_self _ _)
    have rest := List.nodup_cons.mp distinct
    have stillUnvisited : ∀ other ∈ leafs, other ∉ insert leaf visited ∪ path.toFinset := by
      intro other member
      simp only [Finset.mem_union, Finset.mem_insert, List.mem_toFinset, not_or]
      refine ⟨⟨fun same => rest.1 (same ▸ member), unvisited other (List.mem_cons_of_mem _ member)⟩, fun onPath => ?_⟩
      obtain ⟨child, parent⟩ := climb.parent_of_mem onPath
      exact notParents other (List.mem_cons_of_mem _ member) child parent
    obtain ⟨visited', roots', walked⟩ := ih rest.2 (fun other member => notParents other (List.mem_cons_of_mem _ member))
      (fun other member => climbs other (List.mem_cons_of_mem _ member)) stillUnvisited (insert root roots)
    refine ⟨visited', roots', ?_⟩
    simp only [walkLeaves, if_neg (unvisited leaf (List.mem_cons_self _ _)), walkToRoot_of_climb climb enough, walked]

section Endless

variable {endless : StorageID → Prop}
  (closed : ∀ id, endless id → ∃ p, parentOf.lookup id = some p ∧ ownerOf slabs id = ownerOf slabs p ∧ endless p)
include closed

/-- From a slab of a set that holds the recorded parent of each of its slabs, with
the same owner, the walk never ends: it returns `none` for every fuel. -/
theorem walkToRoot_eq_none_of_closed (fuel : Nat) {id : StorageID} (start : endless id)
    (visited roots : Finset StorageID) :
    (walkToRoot slabs parentOf fuel id visited roots : Option (Except (CheckHealthError ε) _)) = none := by
  induction fuel generalizing id visited with
  | zero => rfl
  | succ fuel ih =>
    obtain ⟨p, parent, sameOwner, next⟩ := closed id start
    simp only [walkToRoot, parent, if_pos sameOwner, ih next]

/-- The walks from the leaves stop at a leaf whose walk never ends. -/
theorem walkLeaves_eq_none_of_closed (fuel : Nat) {leaf : StorageID} (start : endless leaf) (leafs : List StorageID)
    {visited : Finset StorageID} (unvisited : leaf ∉ visited) (roots : Finset StorageID) :
    (walkLeaves slabs parentOf fuel (leaf :: leafs) visited roots : Option (Except (CheckHealthError ε) _)) = none := by
  simp only [walkLeaves, if_neg unvisited, walkToRoot_eq_none_of_closed closed fuel start]

end Endless

end Walks

end Atree

import Mathlib.Data.Finset.Card
import Atree.BaseStorage

/-! `BasicSlabStorage.CheckHealth`: a loop over the slabs that records parents and leaves,
then a walk from each leaf up the parents, run with fuel. What `MapElementIterator`
returns lies outside `src/` and is a parameter. -/

namespace Atree

/-- The errors of `CheckHealth`, with the values their texts print. -/
inductive CheckHealthError (ε : Type) where
  | twoParents (id : StorageID)
  | leafReferencedTwice (id : StorageID)
  | differentOwners (child parent : Option Address)
  | unreachable (slabs visited : Nat)
  | rootCount (expected : Int) (got : Nat)
  | mapElement (err : ε)
  deriving DecidableEq

/-- What the first loop does for one element of a slab: record a child, or fail. -/
inductive HealthStep (ε : Type) where
  | child (id : StorageID)
  | fail (err : CheckHealthError ε)

/-- The id of a `StorableSlab` element, the elements the array branch reads as children. -/
def Storable.storableSlabID : Storable → Option StorageID
  | .storableSlab id _ => some id
  | _ => none

/-- The id of a `StorageIDStorable`, the keys and values the map branch reads as children. -/
def Storable.storageIDStorable : Storable → Option StorageID
  | .storageID id => some id
  | _ => none

/-- The ids the array branch records for a data slab. -/
def ArrayDataSlab.externalIDs (v : ArrayDataSlab) : List StorageID := v.elements.filterMap Storable.storableSlabID

/-- The map branch's steps for the results of the iterator's `Next` calls: the
`StorageIDStorable` key, then value, of each pair, up to the first error. -/
def mapSteps {ε : Type} : List (Except ε (Storable × Storable)) → List (HealthStep ε)
  | [] => []
  | .error err :: _ => [.fail (.mapElement err)]
  | .ok (key, value) :: rest =>
    (key.storageIDStorable.toList ++ value.storageIDStorable.toList).map .child ++ mapSteps rest

section FirstLoop

variable {ε : Type} (iterate : MapDataSlab → List (Except ε (Storable × Storable)))

/-- What the first loop does for one slab, and whether the slab is a leaf. -/
def slabSteps : Slab → List (HealthStep ε) × Bool
  | .storable _ => ([], true)
  | .arrayData v => (v.externalIDs.map .child, v.externalIDs.isEmpty)
  | .arrayMeta v => (v.childrenHeaders.map (fun h => .child h.id), false)
  | .mapData v => (mapSteps (iterate v), ((mapSteps (iterate v)).all fun | .child _ => false | .fail _ => true))
  | .mapMeta v => (v.childrenHeaders.map (fun h => .child h.id), false)

abbrev ParentMap := AList (fun _ : StorageID => StorageID)

/-- Record `parent` as the parent of each child of one slab, failing on an id that
already has one. -/
def recordSteps (parent : StorageID) : List (HealthStep ε) → ParentMap → Except (CheckHealthError ε) ParentMap
  | [], parentOf => .ok parentOf
  | .fail err :: _, _ => .error err
  | .child id :: steps, parentOf =>
    if id ∈ parentOf then .error (.twoParents id) else recordSteps parent steps (parentOf.insert id parent)

/-- The first loop, over the slabs' ids in map order. -/
def collectParents (slabs : AList (fun _ : StorageID => Slab)) :
    List StorageID → ParentMap → List StorageID → Except (CheckHealthError ε) (ParentMap × List StorageID)
  | [], parentOf, leafs => .ok (parentOf, leafs)
  | id :: ids, parentOf, leafs =>
    match slabs.lookup id with
    | none => collectParents slabs ids parentOf leafs
    | some slab =>
      match recordSteps id (slabSteps iterate slab).1 parentOf with
      | .error err => .error err
      | .ok parentOf => collectParents slabs ids parentOf (if (slabSteps iterate slab).2 then leafs ++ [id] else leafs)

end FirstLoop

/-- `s.Slabs[id].ID().Address`. -/
def ownerOf (slabs : AList (fun _ : StorageID => Slab)) (id : StorageID) : Option Address :=
  (slabs.lookup id).map fun slab => slab.id.address

section Walk

variable {ε : Type} (slabs : AList (fun _ : StorageID => Slab)) (parentOf : ParentMap)

/-- The walk from one slab up the recorded parents, with at most `fuel` steps. -/
def walkToRoot : Nat → StorageID → Finset StorageID → Finset StorageID →
    Option (Except (CheckHealthError ε) (Finset StorageID × Finset StorageID))
  | 0, _, _, _ => none
  | fuel + 1, id, visited, roots =>
    match parentOf.lookup id with
    | none => some (.ok (visited, insert id roots))
    | some p =>
      if ownerOf slabs id = ownerOf slabs p then walkToRoot fuel p (insert p visited) roots
      else some (.error (.differentOwners (ownerOf slabs id) (ownerOf slabs p)))

/-- The second loop: a walk from each leaf, each with `fuel` steps. -/
def walkLeaves (fuel : Nat) : List StorageID → Finset StorageID → Finset StorageID →
    Option (Except (CheckHealthError ε) (Finset StorageID × Finset StorageID))
  | [], visited, roots => some (.ok (visited, roots))
  | leaf :: leafs, visited, roots =>
    if leaf ∈ visited then some (.error (.leafReferencedTwice leaf))
    else
      match walkToRoot slabs parentOf fuel leaf (insert leaf visited) roots with
      | none => none
      | some (.error err) => some (.error err)
      | some (.ok (visited, roots)) => walkLeaves fuel leafs visited roots

end Walk

/-- `CheckHealth(expectedNumberOfRootSlabs)` with the slabs' ids in the map order
`order` and `fuel` steps for each parent walk. -/
def BasicSlabStorage.checkHealth {ε : Type} (iterate : MapDataSlab → List (Except ε (Storable × Storable)))
    (s : BasicSlabStorage) (order : List StorageID) (fuel : Nat) (expectedNumberOfRootSlabs : Int) :
    Option (Except (CheckHealthError ε) Unit) :=
  match collectParents iterate s.slabs order ∅ [] with
  | .error err => some (.error err)
  | .ok (parentOf, leafs) =>
    match walkLeaves s.slabs parentOf fuel leafs ∅ ∅ with
    | none => none
    | some (.error err) => some (.error err)
    | some (.ok (visited, roots)) =>
      if visited.card ≠ s.slabs.keys.length then
        some (.error (.unreachable s.slabs.keys.length visited.card))
      else if (roots.card : Int) ≠ expectedNumberOfRootSlabs then
        some (.error (.rootCount expectedNumberOfRootSlabs roots.card))
      else some (.ok ())

end Atree

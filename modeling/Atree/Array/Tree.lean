import Mathlib.Algebra.BigOperators.Group.List
import Mathlib.Data.UInt
import Atree.Slab

/-! The slab tree of an `Array` as `valid` and `ArrayStats` walk it, and `Stored`: that
`getArraySlab`, which lies outside `src/`, returns each slab of the tree under the id
its parent's children headers name. -/

namespace Atree

/-- The `ArraySlab` interface, over its two implementations. -/
inductive ArraySlab where
  | data (slab : ArrayDataSlab)
  | meta (slab : ArrayMetaDataSlab)
  deriving DecidableEq

namespace ArraySlab

/-- `Header()`. -/
def header : ArraySlab → ArraySlabHeader
  | .data slab => slab.header
  | .meta slab => slab.header

/-- `ExtraData()`. -/
def extraData : ArraySlab → Option ArrayExtraData
  | .data slab => slab.extraData
  | .meta slab => slab.extraData

/-- `IsData()`. -/
def isData : ArraySlab → Bool
  | .data _ => true
  | .meta _ => false

/-- The ids a metadata slab's children headers name; a data slab has none. -/
def childIDs : ArraySlab → List StorageID
  | .data _ => []
  | .meta slab => slab.childrenHeaders.map ArraySlabHeader.id

end ArraySlab

/-- `uint32(n)` and `uint64(n)` add as the numbers do, modulo the width. -/
theorem uint32_ofNat_add (a b : Nat) : UInt32.ofNat (a + b) = UInt32.ofNat a + UInt32.ofNat b :=
  congrArg UInt32.mk (BitVec.ofNat_add_ofNat ..).symm

theorem uint64_ofNat_add (a b : Nat) : UInt64.ofNat (a + b) = UInt64.ofNat a + UInt64.ofNat b :=
  congrArg UInt64.mk (BitVec.ofNat_add_ofNat ..).symm

/-- An array's slab tree: a data slab, or a metadata slab with the trees of its children. -/
inductive ArrayTree where
  | data (slab : ArrayDataSlab)
  | meta (slab : ArrayMetaDataSlab) (children : List ArrayTree)

namespace ArrayTree

def slab : ArrayTree → ArraySlab
  | .data slab => .data slab
  | .meta slab _ => .meta slab

def children : ArrayTree → List ArrayTree
  | .data _ => []
  | .meta _ children => children

mutual
/-- The array's elements under a tree, left to right. -/
def elements : ArrayTree → List Storable
  | .data slab => slab.elements
  | .meta _ children => forestElements children

def forestElements : List ArrayTree → List Storable
  | [] => []
  | t :: ts => t.elements ++ forestElements ts
end

mutual
/-- The number of levels of a tree. -/
def height : ArrayTree → Nat
  | .data _ => 1
  | .meta _ children => forestHeight children + 1

def forestHeight : List ArrayTree → Nat
  | [] => 0
  | t :: ts => max t.height (forestHeight ts)
end

mutual
/-- The slabs of a tree, each before its children. -/
def slabs : ArrayTree → List ArraySlab
  | .data slab => [.data slab]
  | .meta slab children => .meta slab :: forestSlabs children

def forestSlabs : List ArrayTree → List ArraySlab
  | [] => []
  | t :: ts => t.slabs ++ forestSlabs ts
end

theorem height_eq (t : ArrayTree) : t.height = forestHeight t.children + 1 := by
  cases t <;> rfl

theorem slabs_eq (t : ArrayTree) : t.slabs = t.slab :: forestSlabs t.children := by
  cases t <;> rfl

@[simp] theorem forestHeight_append (ts us : List ArrayTree) :
    forestHeight (ts ++ us) = max (forestHeight ts) (forestHeight us) := by
  induction ts with
  | nil => simp [forestHeight]
  | cons t ts ih => rw [List.cons_append, forestHeight, forestHeight, ih, max_assoc]

@[simp] theorem forestSlabs_append (ts us : List ArrayTree) :
    forestSlabs (ts ++ us) = forestSlabs ts ++ forestSlabs us := by
  induction ts with
  | nil => rfl
  | cons t ts ih => rw [List.cons_append, forestSlabs, forestSlabs, ih, List.append_assoc]

/-- The children of a non-empty forest reach one level less deep. -/
theorem forestHeight_flatMap_children {ts : List ArrayTree} (nonempty : ts ≠ []) :
    forestHeight (ts.flatMap children) + 1 = forestHeight ts := by
  induction ts with
  | nil => contradiction
  | cons t ts ih =>
    rw [List.flatMap_cons, forestHeight_append, forestHeight, height_eq]
    cases ts with
    | nil => simp [forestHeight]
    | cons u us => rw [← ih (List.cons_ne_nil u us)]; omega

/-- A forest's slabs are its roots' slabs and the slabs of the forest one level down. -/
theorem countP_forestSlabs (p : ArraySlab → Bool) (ts : List ArrayTree) :
    (forestSlabs ts).countP p = (ts.map slab).countP p + (forestSlabs (ts.flatMap children)).countP p := by
  induction ts with
  | nil => rfl
  | cons t ts ih =>
    rw [forestSlabs, slabs_eq, List.flatMap_cons, forestSlabs_append, List.map_cons, List.cons_append,
      List.countP_cons, List.countP_cons, List.countP_append, List.countP_append, ih]
    omega

section Stored

variable {ε : Type} (getArraySlab : StorageID → Except ε ArraySlab)

mutual
/-- Storage holds the tree under `id`: `getArraySlab` returns its slab there and holds
each child under the id its parent's children headers give, in order. -/
def Stored (id : StorageID) : ArrayTree → Prop
  | .data slab => getArraySlab id = .ok (.data slab)
  | .meta slab children =>
    getArraySlab id = .ok (.meta slab) ∧ StoredForest (slab.childrenHeaders.map ArraySlabHeader.id) children

/-- Storage holds each tree under the id in the same place. -/
def StoredForest : List StorageID → List ArrayTree → Prop
  | [], [] => True
  | id :: ids, t :: ts => Stored id t ∧ StoredForest ids ts
  | _, _ => False
end

variable {getArraySlab}

private theorem stored_iff {id : StorageID} {t : ArrayTree} :
    t.Stored getArraySlab id ↔
      getArraySlab id = .ok t.slab ∧ StoredForest getArraySlab t.slab.childIDs t.children := by
  cases t <;> simp [Stored, StoredForest, slab, children, ArraySlab.childIDs]

private theorem storedForest_iff_forall₂ {ids : List StorageID} {ts : List ArrayTree} :
    StoredForest getArraySlab ids ts ↔ List.Forall₂ (fun id t => t.Stored getArraySlab id) ids ts := by
  induction ids generalizing ts with
  | nil => cases ts <;> simp [StoredForest]
  | cons id ids ih => cases ts <;> simp [StoredForest, ih]

theorem StoredForest.append {ids ids' : List StorageID} {ts ts' : List ArrayTree}
    (stored : StoredForest getArraySlab ids ts) (stored' : StoredForest getArraySlab ids' ts') :
    StoredForest getArraySlab (ids ++ ids') (ts ++ ts') := by
  induction ids generalizing ts with
  | nil =>
    cases ts with
    | nil => exact stored'
    | cons => cases stored
  | cons id ids ih =>
    cases ts with
    | nil => cases stored
    | cons t ts => exact ⟨stored.1, ih stored.2⟩

/-- Storage returns the roots' slabs under a forest's ids. -/
theorem StoredForest.fetched {ids : List StorageID} {ts : List ArrayTree} (stored : StoredForest getArraySlab ids ts) :
    List.Forall₂ (fun id slab => getArraySlab id = .ok slab) ids (ts.map slab) :=
  List.forall₂_map_right_iff.mpr ((storedForest_iff_forall₂.mp stored).imp fun _ _ held => (stored_iff.mp held).1)

/-- Under the ids the roots' slabs give for their children, storage holds the forest
one level down. -/
theorem StoredForest.next {ids : List StorageID} {ts : List ArrayTree} (stored : StoredForest getArraySlab ids ts) :
    StoredForest getArraySlab ((ts.map slab).flatMap ArraySlab.childIDs) (ts.flatMap children) := by
  induction ids generalizing ts with
  | nil =>
    cases ts with
    | nil => trivial
    | cons => cases stored
  | cons id ids ih =>
    cases ts with
    | nil => cases stored
    | cons t ts =>
      rw [List.map_cons, List.flatMap_cons, List.flatMap_cons]
      exact (stored_iff.mp stored.1).2.append (ih stored.2)

theorem StoredForest.eq_nil {ids : List StorageID} (stored : StoredForest getArraySlab ids []) : ids = [] := by
  cases ids with
  | nil => rfl
  | cons => cases stored

end Stored

end ArrayTree

end Atree

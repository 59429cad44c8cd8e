import Atree.Health.Spec
import Atree.Array.Valid
import Atree.Array.Stats

/-! Storages with a cycle, on which the walks of `CheckHealth`, `Array.valid` and
`ArrayStats` never end: none of them keeps track of the slabs it has been through. -/

namespace Atree

/-- `getArraySlab` returns the array slabs that `slabs` holds. -/
structure ReadsArraySlabs {ε : Type} (getArraySlab : StorageID → Except ε ArraySlab)
    (slabs : AList (fun _ : StorageID => Slab)) : Prop where
  data : ∀ id slab, slabs.lookup id = some (.arrayData slab) → getArraySlab id = .ok (.data slab)
  meta : ∀ id slab, slabs.lookup id = some (.arrayMeta slab) → getArraySlab id = .ok (.meta slab)

/-- The array slabs of `slabs`, and an error for every other id. -/
def arraySlabOf (slabs : AList (fun _ : StorageID => Slab)) (id : StorageID) : Except Unit ArraySlab :=
  match slabs.lookup id with
  | some (.arrayData slab) => .ok (.data slab)
  | some (.arrayMeta slab) => .ok (.meta slab)
  | _ => .error ()

private theorem arraySlabOf_reads (slabs : AList (fun _ : StorageID => Slab)) : ReadsArraySlabs (arraySlabOf slabs) slabs :=
  ⟨fun _ _ found => by simp [arraySlabOf, found], fun _ _ found => by simp [arraySlabOf, found]⟩

def loopID : StorageID := ⟨healthAddress, Bytes8.ofUint64 4⟩

/-- A leaf under `metaID`, which lists `loopID` and the leaf, while `loopID` lists
`metaID` back: each of the two meta slabs is the other's parent. -/
def parentCycle : BasicSlabStorage :=
  ⟨(((∅ : AList (fun _ : StorageID => Slab)).insert leafID
      (.arrayData ⟨⟨leafID, 0, 0⟩, storageIDUndefined, [], none⟩)).insert metaID
      (.arrayMeta ⟨⟨metaID, 0, 0⟩, [⟨loopID, 0, 0⟩, ⟨leafID, 0, 0⟩], none⟩)).insert loopID
      (.arrayMeta ⟨⟨loopID, 0, 0⟩, [⟨metaID, 0, 0⟩], none⟩), ∅⟩

/-- The root of an array whose one child is `loopID`. -/
def selfCycleRoot : ArrayMetaDataSlab := ⟨⟨metaID, 0, 0⟩, [⟨loopID, 0, 0⟩], some ⟨[]⟩⟩

/-- The array under `selfCycleRoot`, whose child `loopID` lists itself as its child. -/
def selfCycle : BasicSlabStorage :=
  ⟨((∅ : AList (fun _ : StorageID => Slab)).insert metaID (.arrayMeta selfCycleRoot)).insert loopID
      (.arrayMeta ⟨⟨loopID, 0, 0⟩, [⟨loopID, 0, 0⟩], none⟩), ∅⟩

private theorem parentCycle_plain : ∀ id slab, parentCycle.slabs.lookup id = some slab → slab.IsPlainArray := by
  intro id slab found
  have listed : ⟨id, slab⟩ ∈ parentCycle.slabs.entries := AList.mem_lookup_iff.mp found
  have entries : parentCycle.slabs.entries =
      [⟨loopID, .arrayMeta ⟨⟨loopID, 0, 0⟩, [⟨metaID, 0, 0⟩], none⟩⟩,
        ⟨metaID, .arrayMeta ⟨⟨metaID, 0, 0⟩, [⟨loopID, 0, 0⟩, ⟨leafID, 0, 0⟩], none⟩⟩,
        ⟨leafID, .arrayData ⟨⟨leafID, 0, 0⟩, storageIDUndefined, [], none⟩⟩] := rfl
  simp only [entries, List.mem_cons, List.mem_singleton, Sigma.mk.inj_iff, List.not_mem_nil, or_false] at listed
  rcases listed with ⟨rfl, same⟩ | ⟨rfl, same⟩ | ⟨rfl, same⟩ <;> cases same <;> simp [Slab.IsPlainArray]

/-- `CheckHealth` never ends on `parentCycle`, whatever the map order: the walk from
the leaf goes round the two meta slabs for ever. -/
theorem checkHealth_parentCycle {ε : Type} (iterate : MapDataSlab → List (Except ε (Storable × Storable)))
    {order : List StorageID} (listed : order.Perm parentCycle.slabs.keys) (fuel : Nat) (n : Int) :
    parentCycle.checkHealth iterate order fuel n = none := by
  obtain ⟨⟨parentOf, leafs⟩, collected⟩ : ∃ result, collectParents iterate parentCycle.slabs order ∅ [] = .ok result :=
    (collectParents_ok_iff_referencedOnce parentCycle_plain listed).mpr (by decide)
  obtain ⟨parents, -, leafsIff⟩ := collectParents_graph parentCycle_plain listed collected
  have closed : ∀ id, id ∈ parentCycle.slabs.keys → ∃ p, parentOf.lookup id = some p ∧
      ownerOf parentCycle.slabs id = ownerOf parentCycle.slabs p ∧ p ∈ parentCycle.slabs.keys := by
    have keys : parentCycle.slabs.keys = [loopID, metaID, leafID] := rfl
    simp only [keys, List.mem_cons, List.mem_singleton, List.not_mem_nil, or_false]
    rintro _ (rfl | rfl | rfl)
    · exact ⟨metaID, (parents _ _).mpr ⟨_, rfl, by decide⟩, rfl, by decide⟩
    · exact ⟨loopID, (parents _ _).mpr ⟨_, rfl, by decide⟩, rfl, by decide⟩
    · exact ⟨metaID, (parents _ _).mpr ⟨_, rfl, by decide⟩, rfl, by decide⟩
  obtain ⟨first, rest, rfl⟩ := List.exists_cons_of_ne_nil (List.ne_nil_of_mem ((leafsIff leafID).mpr ⟨_, rfl, rfl⟩))
  obtain ⟨_, found, -⟩ := (leafsIff first).mp (List.mem_cons_self _ _)
  simp only [BasicSlabStorage.checkHealth, collected, walkLeaves_eq_none_of_closed closed fuel
    (BasicSlabStorage.mem_keys_of_lookup found) rest (Finset.not_mem_empty first)]

section SelfCycle

variable {ε : Type} {getArraySlab : StorageID → Except ε ArraySlab} (reads : ReadsArraySlabs getArraySlab selfCycle.slabs)
include reads

/-- `valid` never ends on the array under `selfCycleRoot`: `_valid` goes down
`loopID` for ever. -/
theorem valid_selfCycle (layout : ArraySlabLayout) (fuel : Nat) :
    Array.valid getArraySlab layout (.meta selfCycleRoot) [] fuel = none := by
  have descends : ∀ id, id = loopID → ∃ meta : ArrayMetaDataSlab, ∃ first rest, getArraySlab id = .ok (.meta meta) ∧
      meta.extraData = none ∧ meta.childrenHeaders = first :: rest ∧ first.id = loopID := by
    rintro _ rfl
    exact ⟨_, _, _, reads.meta loopID _ rfl, rfl, rfl, rfl⟩
  have found : getArraySlab (ArraySlab.meta selfCycleRoot).header.id = .ok (.meta selfCycleRoot) :=
    reads.meta metaID selfCycleRoot rfl
  have children : selfCycleRoot.childrenHeaders = [⟨loopID, 0, 0⟩] := rfl
  exact Array.valid_eq_none_of_descends descends (by rfl) found children (by rfl) fuel

/-- `ArrayStats` never ends on the array under `selfCycleRoot`: every round queues
`loopID` again. -/
theorem arrayStats_selfCycle (count : UInt64) (fuel : Nat) :
    arrayStats getArraySlab (.meta selfCycleRoot) count fuel = none := by
  have cycle : ∀ id, id = metaID ∨ id = loopID → ∃ slab, getArraySlab id = .ok slab ∧ slab.childIDs = [loopID] := by
    rintro _ (rfl | rfl)
    · exact ⟨_, reads.meta metaID selfCycleRoot rfl, rfl⟩
    · exact ⟨_, reads.meta loopID _ rfl, rfl⟩
  have fetched : ∀ id, id = metaID ∨ id = loopID →
      ∃ slab, getArraySlab id = .ok slab ∧ ∀ c ∈ slab.childIDs, c = metaID ∨ c = loopID := by
    intro id member
    obtain ⟨slab, found, children⟩ := cycle id member
    exact ⟨slab, found, fun c child => .inr (by simpa [children] using child)⟩
  have loops : ∀ id, id = metaID ∨ id = loopID →
      ∃ slab, getArraySlab id = .ok slab ∧ ∃ c ∈ slab.childIDs, c = metaID ∨ c = loopID := by
    intro id member
    obtain ⟨slab, found, children⟩ := cycle id member
    exact ⟨slab, found, loopID, by simp [children], .inr rfl⟩
  refine arrayStats_eq_none_of_closed fetched loops ?_ ?_ count fuel <;> exact .inl rfl

end SelfCycle

/-- On storages with a cycle the walks never end, whatever bound they are given:
`CheckHealth` on `parentCycle`, in any map order, and `valid` and `ArrayStats` on the
array under `selfCycleRoot`, whatever function reads its slabs. -/
theorem checks_never_end_on_cycles {ε ε' : Type} (iterate : MapDataSlab → List (Except ε (Storable × Storable)))
    {order : List StorageID} (listed : order.Perm parentCycle.slabs.keys) (n : Int)
    {getArraySlab : StorageID → Except ε' ArraySlab} (reads : ReadsArraySlabs getArraySlab selfCycle.slabs)
    (layout : ArraySlabLayout) (count : UInt64) (fuel : Nat) :
    parentCycle.checkHealth iterate order fuel n = none ∧
      Array.valid getArraySlab layout (.meta selfCycleRoot) [] fuel = none ∧
      arrayStats getArraySlab (.meta selfCycleRoot) count fuel = none :=
  ⟨checkHealth_parentCycle iterate listed fuel n, valid_selfCycle reads layout fuel, arrayStats_selfCycle reads count fuel⟩

theorem checks_never_end_on_cycles_of_arraySlabOf :
    parentCycle.slabs.keys.Perm parentCycle.slabs.keys ∧ ReadsArraySlabs (arraySlabOf selfCycle.slabs) selfCycle.slabs ∧
      parentCycle.checkHealth (fun _ => ([] : List (Except Unit _))) parentCycle.slabs.keys 3 1 = none ∧
      Array.valid (arraySlabOf selfCycle.slabs) Array.boundedLayout (.meta selfCycleRoot) [] 3 = none ∧
      arrayStats (arraySlabOf selfCycle.slabs) (.meta selfCycleRoot) 0 3 = none :=
  ⟨.refl _, arraySlabOf_reads _,
    checks_never_end_on_cycles _ (.refl _) 1 (arraySlabOf_reads _) Array.boundedLayout 0 3⟩

end Atree

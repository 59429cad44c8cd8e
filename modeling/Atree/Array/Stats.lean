import Atree.Array.Tree

/-! `ArrayStats`: rounds over the slab tree level by level that count the levels and the
metadata and data slabs, run with fuel. Over a stored tree it ends within the tree's
height and reports that height and the tree's slab counts. -/

namespace Atree

/-- `Stats`. -/
structure Stats where
  levels : UInt64
  elementCount : UInt64
  metaDataSlabCount : UInt64
  dataSlabCount : UInt64
  deriving DecidableEq

section ArrayStats

variable {ε : Type} (getArraySlab : StorageID → Except ε ArraySlab)

/-- One round of `ArrayStats` over a level's ids, with the counters and the queue for
the next level. -/
def statsLevel (metaDataSlabCount dataSlabCount : UInt64) (nextLevelIDs : List StorageID) :
    List StorageID → Except ε (UInt64 × UInt64 × List StorageID)
  | [] => .ok (metaDataSlabCount, dataSlabCount, nextLevelIDs)
  | id :: ids =>
    match getArraySlab id with
    | .error err => .error err
    | .ok (.data _) => statsLevel metaDataSlabCount (dataSlabCount + 1) nextLevelIDs ids
    | .ok (.meta meta) =>
      statsLevel (metaDataSlabCount + 1) dataSlabCount (nextLevelIDs ++ meta.childrenHeaders.map ArraySlabHeader.id) ids

/-- The rounds of `ArrayStats`, at most `fuel` of them: `none` is a walk that has not ended. -/
def statsLevels : Nat → UInt64 → UInt64 → UInt64 → List StorageID →
    Option (Except ε (UInt64 × UInt64 × UInt64))
  | _, level, metaDataSlabCount, dataSlabCount, [] => some (.ok (level, metaDataSlabCount, dataSlabCount))
  | 0, _, _, _, _ :: _ => none
  | fuel + 1, level, metaDataSlabCount, dataSlabCount, ids@(_ :: _) =>
    match statsLevel getArraySlab metaDataSlabCount dataSlabCount [] ids with
    | .error err => some (.error err)
    | .ok (metaDataSlabCount, dataSlabCount, nextLevelIDs) =>
      statsLevels fuel (level + 1) metaDataSlabCount dataSlabCount nextLevelIDs

/-- `ArrayStats(a)` for the array whose root slab is `root` and whose `Count()` is `count`. -/
def arrayStats (root : ArraySlab) (count : UInt64) (fuel : Nat) : Option (Except ε Stats) :=
  (statsLevels getArraySlab fuel 0 0 0 [root.header.id]).map <| Except.map
    fun (levels, metaDataSlabCount, dataSlabCount) => { levels, elementCount := count, metaDataSlabCount, dataSlabCount }

variable {getArraySlab}

open ArrayTree

private theorem statsLevels_nil (fuel : Nat) (level metaDataSlabCount dataSlabCount : UInt64) :
    statsLevels getArraySlab fuel level metaDataSlabCount dataSlabCount [] =
      some (.ok (level, metaDataSlabCount, dataSlabCount)) := by
  cases fuel <;> rfl

/-- More fuel never changes an answer the walk has given: the fuel only decides
whether it ends. -/
theorem statsLevels_of_le_fuel {fuel fuel' : Nat} (more : fuel ≤ fuel') {ids : List StorageID}
    {level metaDataSlabCount dataSlabCount : UInt64} {r : Except ε (UInt64 × UInt64 × UInt64)}
    (ran : statsLevels getArraySlab fuel level metaDataSlabCount dataSlabCount ids = some r) :
    statsLevels getArraySlab fuel' level metaDataSlabCount dataSlabCount ids = some r := by
  induction fuel generalizing fuel' ids level metaDataSlabCount dataSlabCount with
  | zero =>
    cases ids with
    | nil => rwa [statsLevels_nil] at ran ⊢
    | cons => cases ran
  | succ fuel ih =>
    obtain ⟨fuel', rfl⟩ : ∃ f, fuel' = f + 1 := ⟨fuel' - 1, by omega⟩
    cases ids with
    | nil => rwa [statsLevels_nil] at ran ⊢
    | cons id ids =>
      rcases round : statsLevel getArraySlab metaDataSlabCount dataSlabCount [] (id :: ids) with err | ⟨_, _, _⟩ <;>
        simp only [statsLevels, round] at ran ⊢
      · exact ran
      · exact ih (Nat.le_of_succ_le_succ more) ran

private theorem statsLevel_cons_of_fetched {id : StorageID} {slab : ArraySlab} (found : getArraySlab id = .ok slab)
    (metaDataSlabCount dataSlabCount : UInt64) (nextLevelIDs ids : List StorageID) :
    statsLevel getArraySlab metaDataSlabCount dataSlabCount nextLevelIDs (id :: ids) =
      statsLevel getArraySlab (metaDataSlabCount + if slab.isData then 0 else 1)
        (dataSlabCount + if slab.isData then 1 else 0) (nextLevelIDs ++ slab.childIDs) ids := by
  cases slab <;> simp [statsLevel, found, ArraySlab.isData, ArraySlab.childIDs]

private theorem statsLevel_of_fetched {ids : List StorageID} {slabs : List ArraySlab}
    (fetched : List.Forall₂ (fun id slab => getArraySlab id = .ok slab) ids slabs)
    (metaDataSlabCount dataSlabCount : UInt64) (nextLevelIDs : List StorageID) :
    statsLevel getArraySlab metaDataSlabCount dataSlabCount nextLevelIDs ids =
      .ok (metaDataSlabCount + UInt64.ofNat (slabs.countP fun slab => !slab.isData),
        dataSlabCount + UInt64.ofNat (slabs.countP fun slab => slab.isData),
        nextLevelIDs ++ slabs.flatMap ArraySlab.childIDs) := by
  induction fetched generalizing metaDataSlabCount dataSlabCount nextLevelIDs with
  | nil => simp [statsLevel]
  | @cons id slab ids slabs found _ ih =>
    rw [statsLevel_cons_of_fetched found, ih]
    cases slab <;> simp [ArraySlab.isData, ArraySlab.childIDs, uint64_ofNat_add, add_assoc, add_comm]

/-- Over a forest that storage holds, the rounds end within the forest's height, and
add that height to the level and the forest's metadata and data slabs to the counters. -/
theorem statsLevels_of_stored {fuel : Nat} {ids : List StorageID} {ts : List ArrayTree}
    (stored : StoredForest getArraySlab ids ts) (enough : forestHeight ts ≤ fuel)
    (level metaDataSlabCount dataSlabCount : UInt64) :
    statsLevels getArraySlab fuel level metaDataSlabCount dataSlabCount ids =
      some (.ok (level + UInt64.ofNat (forestHeight ts),
        metaDataSlabCount + UInt64.ofNat ((forestSlabs ts).countP fun slab => !slab.isData),
        dataSlabCount + UInt64.ofNat ((forestSlabs ts).countP fun slab => slab.isData))) := by
  induction fuel generalizing ids ts level metaDataSlabCount dataSlabCount with
  | zero =>
    cases ts with
    | nil => rw [stored.eq_nil, statsLevels_nil]; simp [forestHeight, forestSlabs]
    | cons t ts => rw [forestHeight, height_eq] at enough; omega
  | succ fuel ih =>
    cases ts with
    | nil => rw [stored.eq_nil, statsLevels_nil]; simp [forestHeight, forestSlabs]
    | cons t ts =>
      obtain ⟨id, ids, rfl⟩ : ∃ id ids', ids = id :: ids' := by
        cases ids with
        | nil => cases stored
        | cons id ids => exact ⟨id, ids, rfl⟩
      have lower := forestHeight_flatMap_children (List.cons_ne_nil t ts)
      simp only [statsLevels, statsLevel_of_fetched stored.fetched, List.nil_append]
      rw [ih stored.next (by omega), countP_forestSlabs _ (t :: ts), countP_forestSlabs _ (t :: ts), ← lower]
      simp only [uint64_ofNat_add, add_assoc, add_comm (1 : UInt64)]
      rfl

/-- Over a tree that storage holds under the root's id, `ArrayStats` with fuel for the
tree's height reports the height as the number of levels and counts the tree's
metadata and data slabs. -/
theorem arrayStats_of_stored {root : ArraySlab} {t : ArrayTree} (stored : t.Stored getArraySlab root.header.id)
    {fuel : Nat} (enough : t.height ≤ fuel) (count : UInt64) :
    arrayStats getArraySlab root count fuel = some (.ok
      { levels := UInt64.ofNat t.height, elementCount := count,
        metaDataSlabCount := UInt64.ofNat (t.slabs.countP fun slab => !slab.isData),
        dataSlabCount := UInt64.ofNat (t.slabs.countP fun slab => slab.isData) }) := by
  have storedRoot : StoredForest getArraySlab [root.header.id] [t] := ⟨stored, trivial⟩
  have walked := statsLevels_of_stored storedRoot (by simpa [forestHeight] using enough) 0 0 0
  simp only [forestHeight, forestSlabs, List.append_nil, Nat.max_zero, zero_add] at walked
  simp only [arrayStats, walked, Option.map_some', Except.map]

section Endless

variable {reached looping : StorageID → Prop}
  (fetched : ∀ id, reached id → ∃ slab, getArraySlab id = .ok slab ∧ ∀ c ∈ slab.childIDs, reached c)
  (loops : ∀ id, looping id → ∃ slab, getArraySlab id = .ok slab ∧ ∃ c ∈ slab.childIDs, looping c)
include fetched loops

private theorem statsLevel_of_closed {ids : List StorageID} (inside : ∀ id ∈ ids, reached id)
    (metaDataSlabCount dataSlabCount : UInt64) (nextLevelIDs : List StorageID) :
    ∃ m d next, statsLevel getArraySlab metaDataSlabCount dataSlabCount nextLevelIDs ids = .ok (m, d, nextLevelIDs ++ next) ∧
      (∀ c ∈ next, reached c) ∧ ∀ id ∈ ids, looping id → ∃ c ∈ next, looping c := by
  induction ids generalizing metaDataSlabCount dataSlabCount nextLevelIDs with
  | nil => exact ⟨metaDataSlabCount, dataSlabCount, [], by simp [statsLevel], nofun, nofun⟩
  | cons id ids ih =>
    obtain ⟨slab, found, children⟩ := fetched id (inside id (List.mem_cons_self _ _))
    obtain ⟨m, d, next, round, reachedNext, loopsNext⟩ :=
      ih (fun other member => inside other (List.mem_cons_of_mem _ member)) _ _ (nextLevelIDs ++ slab.childIDs)
    refine ⟨m, d, slab.childIDs ++ next, ?_, ?_, ?_⟩
    · rw [statsLevel_cons_of_fetched found, round, List.append_assoc]
    · intro c member
      rcases List.mem_append.mp member with here | later
      · exact children c here
      · exact reachedNext c later
    · rintro other (_ | ⟨_, later⟩) loopingOther
      · obtain ⟨slab', found', c, child, loopingChild⟩ := loops id loopingOther
        rw [found, Except.ok.injEq] at found'
        exact ⟨c, List.mem_append_left _ (found' ▸ child), loopingChild⟩
      · obtain ⟨c, member, loopingChild⟩ := loopsNext other later loopingOther
        exact ⟨c, List.mem_append_right _ member, loopingChild⟩

/-- From a queue of ids of such a set, one of them looping, the rounds of
`ArrayStats` never end: they return `none` for every fuel. -/
theorem statsLevels_eq_none_of_closed (fuel : Nat) {ids : List StorageID} (inside : ∀ id ∈ ids, reached id)
    (looped : ∃ id ∈ ids, looping id) (level metaDataSlabCount dataSlabCount : UInt64) :
    statsLevels getArraySlab fuel level metaDataSlabCount dataSlabCount ids = none := by
  obtain ⟨id, member, loopingID⟩ := looped
  obtain ⟨first, rest, rfl⟩ : ∃ first rest, ids = first :: rest := List.exists_cons_of_ne_nil (List.ne_nil_of_mem member)
  induction fuel generalizing first rest id level metaDataSlabCount dataSlabCount with
  | zero => rfl
  | succ fuel ih =>
    obtain ⟨m, d, next, round, reachedNext, loopsNext⟩ :=
      statsLevel_of_closed fetched loops inside metaDataSlabCount dataSlabCount []
    obtain ⟨c, child, loopingChild⟩ := loopsNext id member loopingID
    obtain ⟨first', rest', rfl⟩ := List.exists_cons_of_ne_nil (List.ne_nil_of_mem child)
    simp only [statsLevels, round, List.nil_append]
    exact ih _ _ _ c loopingChild first' rest' reachedNext child

/-- `ArrayStats` never ends on an array whose root's id is looping and in such a set. -/
theorem arrayStats_eq_none_of_closed {root : ArraySlab} (inside : reached root.header.id)
    (looped : looping root.header.id) (count : UInt64) (fuel : Nat) : arrayStats getArraySlab root count fuel = none := by
  simp only [arrayStats, statsLevels_eq_none_of_closed fetched loops fuel (List.forall_mem_singleton.mpr inside)
    ⟨_, List.mem_singleton_self _, looped⟩, Option.map_none']

end Endless

end ArrayStats

def statsLeafID : StorageID := ⟨Bytes8.ofUint64 1, Bytes8.ofUint64 2⟩

/-- A data slab of two elements. -/
def statsLeaf : ArrayDataSlab := ⟨⟨statsLeafID, 0, 2⟩, storageIDUndefined, [.value 1, .value 1], none⟩

/-- A root over `statsLeaf`, under the undefined id. -/
def statsRoot : ArrayMetaDataSlab := ⟨⟨storageIDUndefined, 0, 2⟩, [⟨statsLeafID, 0, 2⟩], some ⟨[]⟩⟩

def statsStorage (id : StorageID) : Except Unit ArraySlab :=
  if id = statsLeafID then .ok (.data statsLeaf) else .ok (.meta statsRoot)

theorem arrayStats_of_stored_of_twoLevels :
    (ArrayTree.meta statsRoot [.data statsLeaf]).Stored statsStorage (ArraySlab.meta statsRoot).header.id ∧
      arrayStats statsStorage (.meta statsRoot) 2 2 = some (.ok ⟨2, 2, 1, 1⟩) := by
  have stored : (ArrayTree.meta statsRoot [.data statsLeaf]).Stored statsStorage
      (ArraySlab.meta statsRoot).header.id := ⟨rfl, rfl, trivial⟩
  exact ⟨stored, arrayStats_of_stored stored (le_refl 2) 2⟩

end Atree

import Atree.Array.Tree

/-! `Array.valid` and `_valid`: the walk down the slab tree that checks fill, counts and
sizes, run with fuel, over an `ArraySlabLayout` of the encoding's constants. On the
trees storage holds it verifies exactly the `WellFormed` ones. -/

namespace Atree

/-- The errors of `valid` and `_valid`, with the values their texts print. -/
inductive ValidError (ε : Type) where
  /-- "root slab doesn't have extra data" -/
  | rootWithoutExtraData
  /-- "type information is %v, want %v" -/
  | typeInfo (got want : List UInt8)
  /-- "non-root slab has extra data" -/
  | nonRootExtraData
  /-- An error of `getArraySlab`, returned as it is. -/
  | storage (err : ε)
  deriving DecidableEq

/-- The constants and size predicates of the array encoding that `_valid` reads, all
declared outside `src/`. -/
structure ArraySlabLayout where
  /-- `arrayDataSlabPrefixSize`. -/
  dataSlabPrefixSize : UInt32
  /-- `arrayMetaDataSlabPrefixSize`. -/
  metaDataSlabPrefixSize : UInt32
  /-- `arraySlabHeaderSize`. -/
  slabHeaderSize : Nat
  /-- `IsFull()`. -/
  isFull : ArraySlab → Bool
  /-- The underflow flag of `IsUnderflow()`; `_valid` ignores its other result. -/
  isUnderflow : ArraySlab → Bool
  /-- `ByteSize()` of the two kinds of element that reference a slab. -/
  referenceSize : Storable → UInt32

/-- `ByteSize()` of an element: a plain value's own size, a reference's from the layout. -/
def ArraySlabLayout.byteSize (layout : ArraySlabLayout) : Storable → UInt32
  | .value size => size
  | e => layout.referenceSize e

namespace Array

variable {ε : Type} (getArraySlab : StorageID → Except ε ArraySlab) (layout : ArraySlabLayout)

/-- `validFill`: the root may have any size, any other slab is neither full nor underflowing. -/
def validFill (level : Nat) (slab : ArraySlab) : Bool :=
  level == 0 || (!layout.isFull slab && !layout.isUnderflow slab)

/-- The loop of `_valid` over a metadata slab's children headers: `some (.ok none)`
when a child is not verified, which ends `_valid`, an error when one fails, and
otherwise the sum of their counts. -/
def validChildren (validChild : StorageID → Option (Except (ValidError ε) (Bool × UInt32))) :
    List ArraySlabHeader → UInt32 → Option (Except (ValidError ε) (Option UInt32))
  | [], sum => some (.ok (some sum))
  | h :: headers, sum =>
    match validChild h.id with
    | none => none
    | some (.error err) => some (.error err)
    | some (.ok (false, _)) => some (.ok none)
    | some (.ok (true, count)) => validChildren validChild headers (sum + count)

/-- `Array._valid`, with `fuel` for its recursion: `none` is a walk that has not ended. -/
def _valid : Nat → StorageID → Nat → Option (Except (ValidError ε) (Bool × UInt32))
  | 0, _, _ => none
  | fuel + 1, id, level =>
    match getArraySlab id with
    | .error err => some (.error (.storage err))
    | .ok slab =>
      if level > 0 && slab.extraData.isSome then some (.error .nonRootExtraData)
      else
        match slab with
        | .data dataSlab =>
          let count := UInt32.ofNat dataSlab.elements.length
          let computedSize := dataSlab.elements.foldl (fun size e => size + layout.byteSize e) 0
          some (.ok (validFill layout level slab && count == dataSlab.header.count &&
            layout.dataSlabPrefixSize + computedSize == dataSlab.header.size, count))
        | .meta meta =>
          (validChildren (fun childID => _valid fuel childID (level + 1)) meta.childrenHeaders 0).map fun
            | .error err => .error err
            | .ok none => .ok (false, 0)
            | .ok (some sum) =>
              let computedSize :=
                UInt32.ofNat (meta.childrenHeaders.length * layout.slabHeaderSize) + layout.metaDataSlabPrefixSize
              .ok (validFill layout level slab && sum == meta.header.count && computedSize == meta.header.size, sum)

/-- `Array.valid` for the array whose root slab is `root`. -/
def valid (root : ArraySlab) (typeInfo : List UInt8) (fuel : Nat) : Option (Except (ValidError ε) Bool) :=
  match root.extraData with
  | none => some (.error .rootWithoutExtraData)
  | some extraData =>
    if extraData.typeInfo ≠ typeInfo then some (.error (.typeInfo extraData.typeInfo typeInfo))
    else (_valid getArraySlab layout fuel root.header.id 0).map (Except.map Prod.fst)

end Array

namespace ArrayTree

variable (layout : ArraySlabLayout)

/-- A slab fits at `level`: below the root it holds no extra data and is neither full
nor underflowing. -/
def SlabFits (level : Nat) (slab : ArraySlab) : Prop :=
  0 < level → slab.extraData = none ∧ layout.isFull slab = false ∧ layout.isUnderflow slab = false

mutual
/-- What `valid` is for, over the whole tree under a slab at `level`: every slab fits
at its level, its header's count is the number of the array's elements beneath it,
and its header's size is its encoded size, the prefix and either its elements' sizes
or its children headers. -/
def WellFormed (level : Nat) : ArrayTree → Prop
  | .data slab =>
    SlabFits layout level (.data slab) ∧ slab.header.count = UInt32.ofNat slab.elements.length ∧
      slab.header.size = layout.dataSlabPrefixSize + (slab.elements.map layout.byteSize).sum
  | .meta slab children =>
    SlabFits layout level (.meta slab) ∧ slab.header.count = UInt32.ofNat (forestElements children).length ∧
      slab.header.size =
        UInt32.ofNat (slab.childrenHeaders.length * layout.slabHeaderSize) + layout.metaDataSlabPrefixSize ∧
      ForestWellFormed (level + 1) children

def ForestWellFormed (level : Nat) : List ArrayTree → Prop
  | [] => True
  | t :: ts => t.WellFormed level ∧ ForestWellFormed level ts
end

variable {layout}

/-- The count in a well-formed tree's root header is the number of its elements. -/
theorem WellFormed.count {level : Nat} {t : ArrayTree} (wellFormed : t.WellFormed layout level) :
    t.slab.header.count = UInt32.ofNat t.elements.length := by
  cases t with
  | data => exact wellFormed.2.1
  | meta => exact wellFormed.2.1

end ArrayTree

/-- A child header cut down to its id, the one field of it that `_valid` reads. -/
def ArraySlabHeader.idOnly (h : ArraySlabHeader) : ArraySlabHeader := ⟨h.id, 0, 0⟩

/-- The slab with its children headers cut down to their ids. -/
def ArraySlab.childIDsOnly : ArraySlab → ArraySlab
  | .data slab => .data slab
  | .meta slab => .meta { slab with childrenHeaders := slab.childrenHeaders.map ArraySlabHeader.idOnly }

@[simp] theorem ArraySlab.extraData_childIDsOnly (slab : ArraySlab) : slab.childIDsOnly.extraData = slab.extraData := by
  cases slab <;> rfl

@[simp] theorem ArraySlab.header_childIDsOnly (slab : ArraySlab) : slab.childIDsOnly.header = slab.header := by
  cases slab <;> rfl

namespace Array

open ArrayTree

variable {ε : Type} {getArraySlab : StorageID → Except ε ArraySlab} {layout : ArraySlabLayout}

private theorem slabFits_iff {level : Nat} {slab : ArraySlab} :
    SlabFits layout level slab ↔
      validFill layout level slab = true ∧ (level > 0 && slab.extraData.isSome) = false := by
  rcases Nat.eq_zero_or_pos level with rfl | below
  · simp [SlabFits, validFill]
  · simp [SlabFits, validFill, below, Nat.pos_iff_ne_zero.mp below, Option.isSome_iff_ne_none]
    exact and_comm

private theorem foldl_byteSize (elements : List Storable) :
    elements.foldl (fun size e => size + layout.byteSize e) 0 = (elements.map layout.byteSize).sum := by
  rw [List.sum_eq_foldl, List.foldl_map]

section Children

variable {validChild : StorageID → Option (Except (ValidError ε) (Bool × UInt32))} {level fuel : Nat}

private theorem validChildren_sound
    (sound : ∀ id n, validChild id = some (.ok (true, n)) → ∃ t : ArrayTree, t.Stored getArraySlab id ∧
      t.WellFormed layout level ∧ n = UInt32.ofNat t.elements.length ∧ t.height ≤ fuel)
    {headers : List ArraySlabHeader} {acc sum : UInt32}
    (verified : validChildren validChild headers acc = some (.ok (some sum))) :
    ∃ children, StoredForest getArraySlab (headers.map ArraySlabHeader.id) children ∧
      ForestWellFormed layout level children ∧
      sum = acc + UInt32.ofNat (forestElements children).length ∧ forestHeight children ≤ fuel := by
  induction headers generalizing acc with
  | nil =>
    cases verified
    exact ⟨[], trivial, trivial, by simp [forestElements], Nat.zero_le _⟩
  | cons h headers ih =>
    rcases found : validChild h.id with _ | (_ | ⟨_ | _, count⟩) <;>
      simp only [validChildren, found, Option.some.injEq, Except.ok.injEq, reduceCtorEq] at verified
    obtain ⟨t, stored, wellFormed, rfl, low⟩ := sound h.id count found
    obtain ⟨children, storedRest, wellFormedRest, rfl, lowRest⟩ := ih verified
    refine ⟨t :: children, ⟨stored, storedRest⟩, ⟨wellFormed, wellFormedRest⟩, ?_, max_le low lowRest⟩
    rw [forestElements, List.length_append, uint32_ofNat_add, add_assoc]

private theorem validChildren_complete
    (complete : ∀ id (t : ArrayTree), t.Stored getArraySlab id → t.WellFormed layout level → t.height ≤ fuel →
      validChild id = some (.ok (true, UInt32.ofNat t.elements.length)))
    {headers : List ArraySlabHeader} {children : List ArrayTree}
    (stored : StoredForest getArraySlab (headers.map ArraySlabHeader.id) children)
    (wellFormed : ForestWellFormed layout level children) (enough : forestHeight children ≤ fuel) (acc : UInt32) :
    validChildren validChild headers acc =
      some (.ok (some (acc + UInt32.ofNat (forestElements children).length))) := by
  induction headers generalizing acc children with
  | nil =>
    cases children with
    | nil => simp [validChildren, forestElements]
    | cons => cases stored
  | cons h headers ih =>
    cases children with
    | nil => cases stored
    | cons t children =>
      have low : t.height ≤ fuel ∧ forestHeight children ≤ fuel := max_le_iff.mp enough
      rw [validChildren, complete h.id t stored.1 wellFormed.1 low.1]
      simp only [ih stored.2 wellFormed.2 low.2, forestElements, List.length_append, uint32_ofNat_add, add_assoc]

private theorem validChildren_of_agree {validChild validChild' : StorageID → Option (Except (ValidError ε) (Bool × UInt32))}
    (agree : ∀ id r, validChild id = some r → validChild' id = some r) {headers : List ArraySlabHeader}
    {acc : UInt32} {r : Except (ValidError ε) (Option UInt32)}
    (ran : validChildren validChild headers acc = some r) : validChildren validChild' headers acc = some r := by
  induction headers generalizing acc with
  | nil => exact ran
  | cons h headers ih =>
    rcases found : validChild h.id with _ | answer
    · simp [validChildren, found] at ran
    · rw [validChildren, found] at ran
      rw [validChildren, agree _ _ found]
      rcases answer with _ | ⟨_ | _, count⟩
      · exact ran
      · exact ran
      · exact ih ran

end Children

/-- When `_valid` verifies a slab, storage holds a well-formed tree under it, of height
at most the fuel, and the count returned is the number of the array's elements
beneath it. -/
theorem wellFormed_of_verified {fuel : Nat} {id : StorageID} {level : Nat} {n : UInt32}
    (verified : _valid getArraySlab layout fuel id level = some (.ok (true, n))) :
    ∃ t : ArrayTree, t.Stored getArraySlab id ∧ t.WellFormed layout level ∧
      n = UInt32.ofNat t.elements.length ∧ t.height ≤ fuel := by
  induction fuel generalizing id level n with
  | zero => cases verified
  | succ fuel ih =>
    rcases found : getArraySlab id with err | slab
    · simp [_valid, found] at verified
    by_cases extra : (level > 0 && slab.extraData.isSome) = true
    · simp [_valid, found, extra] at verified
    simp only [Bool.not_eq_true] at extra
    cases slab with
    | data dataSlab =>
      simp only [_valid, found, extra, Bool.false_eq_true, if_false, Option.some.injEq, Except.ok.injEq,
        Prod.mk.injEq, Bool.and_eq_true, beq_iff_eq, foldl_byteSize] at verified
      obtain ⟨⟨⟨fill, count⟩, size⟩, rfl⟩ := verified
      exact ⟨.data dataSlab, found, ⟨slabFits_iff.mpr ⟨fill, extra⟩, count.symm, size.symm⟩, rfl,
        Nat.succ_le_succ (Nat.zero_le _)⟩
    | meta meta =>
      simp only [_valid, found, extra, Bool.false_eq_true, if_false, Option.map_eq_some'] at verified
      obtain ⟨_ | (_ | sum), loop, mapped⟩ := verified <;> simp only [reduceCtorEq, Except.ok.injEq,
        Prod.mk.injEq, Bool.false_eq_true, false_and, Bool.and_eq_true, beq_iff_eq] at mapped
      obtain ⟨⟨⟨fill, count⟩, size⟩, rfl⟩ := mapped
      obtain ⟨children, stored, wellFormed, rfl, low⟩ := validChildren_sound (fun _ _ => ih) loop
      rw [zero_add] at count
      exact ⟨.meta meta children, ⟨found, stored⟩,
        ⟨slabFits_iff.mpr ⟨fill, extra⟩, count.symm, size.symm, wellFormed⟩, zero_add _, Nat.succ_le_succ low⟩

/-- Over a well-formed tree that storage holds, `_valid` with fuel for the tree's
height verifies its root and returns the number of the array's elements. -/
theorem verified_of_wellFormed {fuel : Nat} {id : StorageID} {level : Nat} {t : ArrayTree}
    (stored : t.Stored getArraySlab id) (wellFormed : t.WellFormed layout level) (enough : t.height ≤ fuel) :
    _valid getArraySlab layout fuel id level = some (.ok (true, UInt32.ofNat t.elements.length)) := by
  induction fuel generalizing id level t with
  | zero => rw [height_eq] at enough; omega
  | succ fuel ih =>
    cases t with
    | data dataSlab =>
      obtain ⟨fits, count, size⟩ := wellFormed
      obtain ⟨fill, extra⟩ := slabFits_iff.mp fits
      simp only [_valid, show getArraySlab id = _ from stored, extra, Bool.false_eq_true, if_false, fill,
        count, size, foldl_byteSize, beq_self_eq_true, Bool.and_self, elements]
    | meta meta children =>
      obtain ⟨found, storedChildren⟩ := stored
      obtain ⟨fits, count, size, wellFormedChildren⟩ := wellFormed
      obtain ⟨fill, extra⟩ := slabFits_iff.mp fits
      have loop := validChildren_complete (fun _ _ => ih) storedChildren wellFormedChildren
        (Nat.le_of_succ_le_succ enough) 0
      simp only [_valid, found, extra, Bool.false_eq_true, if_false, loop, zero_add, Option.map_some', fill,
        count, size, beq_self_eq_true, Bool.and_self, elements]

/-- More fuel never changes an answer `_valid` has given: the fuel only decides whether
the walk ends. -/
theorem _valid_of_le_fuel {fuel fuel' : Nat} (more : fuel ≤ fuel') {id : StorageID} {level : Nat}
    {r : Except (ValidError ε) (Bool × UInt32)}
    (ran : _valid getArraySlab layout fuel id level = some r) : _valid getArraySlab layout fuel' id level = some r := by
  induction fuel generalizing fuel' id level r with
  | zero => cases ran
  | succ fuel ih =>
    obtain ⟨fuel', rfl⟩ : ∃ f, fuel' = f + 1 := ⟨fuel' - 1, by omega⟩
    rcases found : getArraySlab id with err | slab
    · simpa [_valid, found] using ran
    by_cases extra : (level > 0 && slab.extraData.isSome) = true
    · simpa [_valid, found, extra] using ran
    simp only [Bool.not_eq_true] at extra
    cases slab with
    | data dataSlab => simpa only [_valid, found] using ran
    | meta meta =>
      simp only [_valid, found, extra, Bool.false_eq_true, if_false, Option.map_eq_some'] at ran ⊢
      obtain ⟨loopResult, loop, mapped⟩ := ran
      exact ⟨loopResult, validChildren_of_agree (fun _ _ => ih (Nat.le_of_succ_le_succ more)) loop, mapped⟩

/-- `valid` accepts an array exactly when its root carries the type information and
storage holds a well-formed tree under the root's id, no higher than the fuel. -/
theorem valid_eq_true_iff {root : ArraySlab} {typeInfo : List UInt8} {fuel : Nat} :
    valid getArraySlab layout root typeInfo fuel = some (.ok true) ↔
      root.extraData.map ArrayExtraData.typeInfo = some typeInfo ∧
      ∃ t : ArrayTree, t.Stored getArraySlab root.header.id ∧ t.WellFormed layout 0 ∧ t.height ≤ fuel := by
  unfold valid
  rcases root.extraData with _ | info
  · simp
  by_cases same : info.typeInfo = typeInfo
  · simp only [same, ne_eq, not_true_eq_false, if_false, Option.map_some', true_and, Option.map_eq_some']
    constructor
    · rintro ⟨_ | ⟨verified, n⟩, ran, mapped⟩
      · cases mapped
      · cases mapped
        obtain ⟨t, stored, wellFormed, -, low⟩ := wellFormed_of_verified ran
        exact ⟨t, stored, wellFormed, low⟩
    · rintro ⟨t, stored, wellFormed, low⟩
      exact ⟨_, verified_of_wellFormed stored wellFormed low, rfl⟩
  · simp [same]

section Descent

variable {descending : StorageID → Prop}
  (descends : ∀ id, descending id → ∃ meta : ArrayMetaDataSlab, ∃ first rest, getArraySlab id = .ok (.meta meta) ∧
    meta.extraData = none ∧ meta.childrenHeaders = first :: rest ∧ descending first.id)
include descends

/-- From a slab of a set whose slabs are metadata slabs without extra data, each with
its first child in the set, `_valid` goes down forever: it returns `none` for every
fuel. -/
theorem _valid_eq_none_of_descends (fuel : Nat) {id : StorageID} (start : descending id) (level : Nat) :
    _valid getArraySlab layout fuel id level = none := by
  induction fuel generalizing id level with
  | zero => rfl
  | succ fuel ih =>
    obtain ⟨meta, first, rest, found, noExtra, children, next⟩ := descends id start
    simp only [_valid, found, ArraySlab.extraData, noExtra, Option.isSome_none, Bool.and_false, Bool.false_eq_true,
      if_false, children, validChildren, ih next, Option.map_none']

/-- `valid` never ends on an array whose stored root is a metadata slab with its first
child in such a set. -/
theorem valid_eq_none_of_descends {root : ArraySlab} {typeInfo : List UInt8}
    (typed : root.extraData.map ArrayExtraData.typeInfo = some typeInfo) {meta : ArrayMetaDataSlab}
    (found : getArraySlab root.header.id = .ok (.meta meta)) {first : ArraySlabHeader} {rest : List ArraySlabHeader}
    (children : meta.childrenHeaders = first :: rest) (start : descending first.id) (fuel : Nat) :
    valid getArraySlab layout root typeInfo fuel = none := by
  obtain ⟨info, extra, rfl⟩ := Option.map_eq_some'.mp typed
  cases fuel <;> simp [valid, extra, _valid, found, children, validChildren,
    _valid_eq_none_of_descends descends _ start]

end Descent

private theorem validChildren_map_idOnly (validChild : StorageID → Option (Except (ValidError ε) (Bool × UInt32)))
    (headers : List ArraySlabHeader) (acc : UInt32) :
    validChildren validChild (headers.map ArraySlabHeader.idOnly) acc = validChildren validChild headers acc := by
  induction headers generalizing acc with
  | nil => rfl
  | cons h headers ih => simp only [List.map_cons, validChildren, ArraySlabHeader.idOnly, ih]

section ChildIDsOnly

variable (fillReadsIDs : ∀ slab : ArraySlab,
  layout.isFull slab.childIDsOnly = layout.isFull slab ∧ layout.isUnderflow slab.childIDsOnly = layout.isUnderflow slab)
include fillReadsIDs

private theorem _valid_childIDsOnly (fuel : Nat) (id : StorageID) (level : Nat) :
    _valid (fun id => (getArraySlab id).map ArraySlab.childIDsOnly) layout fuel id level =
      _valid getArraySlab layout fuel id level := by
  induction fuel generalizing id level with
  | zero => rfl
  | succ fuel ih =>
    rcases found : getArraySlab id with err | (dataSlab | meta)
    · simp only [_valid, found, Except.map]
    · simp only [_valid, found, Except.map, ArraySlab.childIDsOnly]
    · obtain ⟨full, underflow⟩ := fillReadsIDs (.meta meta)
      simp only [ArraySlab.childIDsOnly] at full underflow
      simp only [_valid, found, ih]
      simp only [Except.map, ArraySlab.childIDsOnly, ArraySlab.extraData, validFill, full, underflow,
        validChildren_map_idOnly, List.length_map]

/-- Storages that differ only in the counts and sizes of children headers get the same
answers from `_valid`. -/
theorem _valid_eq_of_sameChildIDs {getArraySlab' : StorageID → Except ε ArraySlab}
    (sameIDs : ∀ id, (getArraySlab id).map ArraySlab.childIDsOnly = (getArraySlab' id).map ArraySlab.childIDsOnly)
    (fuel : Nat) (id : StorageID) (level : Nat) :
    _valid getArraySlab layout fuel id level = _valid getArraySlab' layout fuel id level :=
  calc _valid getArraySlab layout fuel id level
    _ = _valid (fun id => (getArraySlab id).map ArraySlab.childIDsOnly) layout fuel id level :=
        (_valid_childIDsOnly fillReadsIDs fuel id level).symm
    _ = _valid (fun id => (getArraySlab' id).map ArraySlab.childIDsOnly) layout fuel id level := by
        rw [funext sameIDs]
    _ = _valid getArraySlab' layout fuel id level := _valid_childIDsOnly fillReadsIDs fuel id level

/-- `valid` reads the counts and sizes of children headers nowhere: arrays whose root
slabs and stored slabs differ only there get the same answer. -/
theorem valid_eq_of_sameChildIDs {getArraySlab' : StorageID → Except ε ArraySlab}
    (sameIDs : ∀ id, (getArraySlab id).map ArraySlab.childIDsOnly = (getArraySlab' id).map ArraySlab.childIDsOnly)
    {root root' : ArraySlab} (sameRoot : root.childIDsOnly = root'.childIDsOnly) (typeInfo : List UInt8) (fuel : Nat) :
    valid getArraySlab layout root typeInfo fuel = valid getArraySlab' layout root' typeInfo fuel := by
  have extraData : root.extraData = root'.extraData := by simpa using congrArg ArraySlab.extraData sameRoot
  have header : root.header = root'.header := by simpa using congrArg ArraySlab.header sameRoot
  simp only [valid, extraData, header, _valid_eq_of_sameChildIDs fillReadsIDs sameIDs]

end ChildIDsOnly

/-- A layout for the array below: a slab is full over 100 bytes and underflowing
under 20. -/
def boundedLayout : ArraySlabLayout :=
  ⟨10, 10, 16, fun slab => decide (100 < slab.header.size), fun slab => decide (slab.header.size < 20), fun _ => 4⟩

def staleRootID : StorageID := ⟨Bytes8.ofUint64 1, Bytes8.ofUint64 1⟩

def staleLeafID : StorageID := ⟨Bytes8.ofUint64 1, Bytes8.ofUint64 2⟩

/-- A data slab of three 10-byte elements, with a header that says so. -/
def staleLeaf : ArrayDataSlab := ⟨⟨staleLeafID, 40, 3⟩, storageIDUndefined, [.value 10, .value 10, .value 10], none⟩

/-- A root over it whose children header records 7 elements in 99 bytes. -/
def staleRoot : ArrayMetaDataSlab := ⟨⟨staleRootID, 26, 3⟩, [⟨staleLeafID, 99, 7⟩], some ⟨[]⟩⟩

def staleStorage (id : StorageID) : Except Unit ArraySlab :=
  if id = staleLeafID then .ok (.data staleLeaf) else if id = staleRootID then .ok (.meta staleRoot) else .error ()

/-- `valid` accepts an array whose root's children header disagrees with the child it
names on both the count and the size. -/
theorem valid_accepts_stale_children_header :
    valid staleStorage boundedLayout (.meta staleRoot) [] 2 = some (.ok true) ∧
      staleRoot.childrenHeaders.map ArraySlabHeader.id = [staleLeaf.header.id] ∧
      staleRoot.childrenHeaders.map ArraySlabHeader.count ≠ [staleLeaf.header.count] ∧
      staleRoot.childrenHeaders.map ArraySlabHeader.size ≠ [staleLeaf.header.size] :=
  ⟨rfl, rfl, by decide, by decide⟩

/-- `staleRoot` with a children header that agrees with `staleLeaf`. -/
def freshRoot : ArrayMetaDataSlab := ⟨⟨staleRootID, 26, 3⟩, [⟨staleLeafID, 40, 3⟩], some ⟨[]⟩⟩

def freshStorage (id : StorageID) : Except Unit ArraySlab :=
  if id = staleLeafID then .ok (.data staleLeaf) else if id = staleRootID then .ok (.meta freshRoot) else .error ()

theorem valid_eq_of_sameChildIDs_of_fresh :
    (∀ slab : ArraySlab, boundedLayout.isFull slab.childIDsOnly = boundedLayout.isFull slab ∧
        boundedLayout.isUnderflow slab.childIDsOnly = boundedLayout.isUnderflow slab) ∧
      (∀ id, (staleStorage id).map ArraySlab.childIDsOnly = (freshStorage id).map ArraySlab.childIDsOnly) ∧
      (ArraySlab.meta staleRoot).childIDsOnly = (ArraySlab.meta freshRoot).childIDsOnly ∧
      valid staleStorage boundedLayout (.meta staleRoot) [] 2 = valid freshStorage boundedLayout (.meta freshRoot) [] 2 := by
  have fill : ∀ slab : ArraySlab, boundedLayout.isFull slab.childIDsOnly = boundedLayout.isFull slab ∧
      boundedLayout.isUnderflow slab.childIDsOnly = boundedLayout.isUnderflow slab := fun _ => by simp [boundedLayout]
  have sameIDs : ∀ id, (staleStorage id).map ArraySlab.childIDsOnly = (freshStorage id).map ArraySlab.childIDsOnly := by
    intro id
    unfold staleStorage freshStorage
    split_ifs <;> rfl
  have sameRoot : (ArraySlab.meta staleRoot).childIDsOnly = (ArraySlab.meta freshRoot).childIDsOnly := rfl
  exact ⟨fill, sameIDs, sameRoot, valid_eq_of_sameChildIDs fill sameIDs sameRoot [] 2⟩

end Array

end Atree

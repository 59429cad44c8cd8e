import Mathlib.Data.List.Sort
import Atree.Array.Stats

/-! `PrintArray`: the level walk of `ArrayStats`, printing a line for each slab it fetches
and then the overflow slabs of the `StorageIDStorable` elements it shows. A line is
the values its format prints; an element's `fmt.Sprint` text is a parameter. -/

namespace Atree

/-- A line `PrintArray` prints, with the values its format prints. -/
inductive PrintLine (ε : Type) where
  /-- `fmt.Println(err)`. -/
  | error (err : ε)
  /-- `level %d, leaf (%+v): [%s]`, with the strings joined by blanks. -/
  | leaf (level : Nat) (header : ArraySlabHeader) (elemsStr : List String)
  /-- `level %d, meta (%+v) headers: [`, then `%+v ` for each children header, then `]`. -/
  | meta (level : Nat) (header : ArraySlabHeader) (childrenHeaders : List ArraySlabHeader)
  /-- `overflow: (id %d) %s`, with the slab's `String()`. -/
  | overflow (id : StorageID) (slab : ArraySlab)

namespace PrintLine

variable {ε : Type}

/-- The level a slab's line prints; 0 for the other lines. -/
def level : PrintLine ε → Nat
  | .leaf level _ _ | .meta level _ _ => level
  | .error _ | .overflow _ _ => 0

def isLeaf : PrintLine ε → Bool
  | .leaf _ _ _ => true
  | _ => false

def isMeta : PrintLine ε → Bool
  | .meta _ _ _ => true
  | _ => false

def isError : PrintLine ε → Bool
  | .error _ => true
  | _ => false

/-- No line but the last is an error. -/
def ErrorLast (lines : List (PrintLine ε)) : Prop := ∀ line ∈ lines.dropLast, line.isError = false

theorem ErrorLast.append {lines rest : List (PrintLine ε)} (noError : ∀ line ∈ lines, line.isError = false)
    (last : ErrorLast rest) : ErrorLast (lines ++ rest) := by
  intro line member
  by_cases empty : rest = []
  · subst empty
    rw [List.append_nil] at member
    exact noError line (List.dropLast_subset _ member)
  · rw [List.dropLast_append_of_ne_nil _ empty] at member
    exact (List.mem_append.mp member).elim (noError line) (last line)

theorem ErrorLast.nil : ErrorLast ([] : List (PrintLine ε)) := fun line member => absurd member (List.not_mem_nil line)

theorem ErrorLast.cons {line : PrintLine ε} {rest : List (PrintLine ε)} (notError : line.isError = false)
    (last : ErrorLast rest) : ErrorLast (line :: rest) :=
  @ErrorLast.append ε [line] rest (by simpa using notError) last

end PrintLine

/-- The elements a data slab's line shows: all of them up to six, else the first three
and the last three. -/
def shownElements (elements : List Storable) : List Storable :=
  if elements.length ≤ 6 then elements else elements.take 3 ++ elements.drop (elements.length - 3)

/-- The id of a `StorageIDStorable` element, which `PrintArray` queues as an overflow id. -/
def Storable.overflowID : Storable → Option StorageID
  | .storageID id => some id
  | _ => none

/-- The overflow ids a slab's line queues. -/
def ArraySlab.shownOverflowIDs : ArraySlab → List StorageID
  | .data slab => (shownElements slab.elements).filterMap Storable.overflowID
  | .meta _ => []

section PrintArray

variable {ε : Type} (getArraySlab : StorageID → Except ε ArraySlab) (sprint : Storable → String)

/-- `elemsStr`: the shown elements' `fmt.Sprint`, with `...` put fourth when some are
left out. -/
def elemsStr (elements : List Storable) : List String :=
  let shown := (shownElements elements).map sprint
  if elements.length > 6 then shown.take 3 ++ "..." :: shown.drop 3 else shown

/-- The line of a slab at `level`, counted from 1. -/
def slabLine (level : Nat) : ArraySlab → PrintLine ε
  | .data slab => .leaf level slab.header (elemsStr sprint slab.elements)
  | .meta slab => .meta level slab.header slab.childrenHeaders

@[simp] theorem level_slabLine (level : Nat) (slab : ArraySlab) : (slabLine sprint level slab : PrintLine ε).level = level := by
  cases slab <;> rfl

@[simp] theorem isLeaf_slabLine (level : Nat) (slab : ArraySlab) :
    (slabLine sprint level slab : PrintLine ε).isLeaf = slab.isData := by
  cases slab <;> rfl

@[simp] theorem isMeta_slabLine (level : Nat) (slab : ArraySlab) :
    (slabLine sprint level slab : PrintLine ε).isMeta = !slab.isData := by
  cases slab <;> rfl

/-- One round of `PrintArray` over a level's ids, the level counted from 0: the lines it
prints, and the overflow ids and next level's ids it has queued, or `none` for them
when it returns at an error. -/
def printLevel (level : Nat) (overflowIDs nextLevelIDs : List StorageID) :
    List StorageID → List (PrintLine ε) × Option (List StorageID × List StorageID)
  | [] => ([], some (overflowIDs, nextLevelIDs))
  | id :: ids =>
    match getArraySlab id with
    | .error err => ([.error err], none)
    | .ok (.data dataSlab) =>
      let rest := printLevel level
        (overflowIDs ++ (shownElements dataSlab.elements).filterMap Storable.overflowID) nextLevelIDs ids
      (.leaf (level + 1) dataSlab.header (elemsStr sprint dataSlab.elements) :: rest.1, rest.2)
    | .ok (.meta meta) =>
      let rest := printLevel level overflowIDs (nextLevelIDs ++ meta.childrenHeaders.map ArraySlabHeader.id) ids
      (.meta (level + 1) meta.header meta.childrenHeaders :: rest.1, rest.2)

/-- The rounds of `PrintArray`, at most `fuel` of them: the lines they print and the
overflow ids queued, or `none` for these when it returns at an error; `none` is a walk
that has not ended. -/
def printLevels : Nat → Nat → List StorageID → List StorageID →
    Option (List (PrintLine ε) × Option (List StorageID))
  | _, _, overflowIDs, [] => some ([], some overflowIDs)
  | 0, _, _, _ :: _ => none
  | fuel + 1, level, overflowIDs, ids@(_ :: _) =>
    match printLevel getArraySlab sprint level overflowIDs [] ids with
    | (lines, none) => some (lines, none)
    | (lines, some (overflowIDs, nextLevelIDs)) =>
      (printLevels fuel (level + 1) overflowIDs nextLevelIDs).map fun (rest, queued) => (lines ++ rest, queued)

/-- The loop over the overflow ids. -/
def printOverflow : List StorageID → List (PrintLine ε)
  | [] => []
  | id :: ids =>
    match getArraySlab id with
    | .error err => [.error err]
    | .ok slab => .overflow id slab :: printOverflow ids

/-- `PrintArray(a)` for the array whose root slab is `root`: the lines it prints. -/
def printArray (root : ArraySlab) (fuel : Nat) : Option (List (PrintLine ε)) :=
  (printLevels getArraySlab sprint fuel 0 [] [root.header.id]).map fun (lines, queued) =>
    lines ++ match queued with
      | none => []
      | some overflowIDs => printOverflow getArraySlab overflowIDs

end PrintArray

namespace ArrayTree

/-- The slabs of a forest level by level from the roots, `n` levels of them, each with
its level, the roots' being `level + 1`: the order of a breadth-first walk. -/
def forestLevelOrder : Nat → Nat → List ArrayTree → List (Nat × ArraySlab)
  | 0, _, _ => []
  | n + 1, level, ts => ts.map (fun t => (level + 1, t.slab)) ++ forestLevelOrder n (level + 1) (ts.flatMap children)

/-- A tree's slabs with their levels, in the order of a breadth-first walk from its root. -/
def levelOrder (t : ArrayTree) : List (Nat × ArraySlab) := forestLevelOrder t.height 0 [t]

@[simp] theorem forestLevelOrder_nil (n level : Nat) : forestLevelOrder n level [] = [] := by
  induction n generalizing level <;> simp [forestLevelOrder, *]

private theorem forestSlabs_perm (ts : List ArrayTree) :
    (forestSlabs ts).Perm (ts.map slab ++ forestSlabs (ts.flatMap children)) := by
  induction ts with
  | nil => rfl
  | cons t ts ih =>
    rw [forestSlabs, slabs_eq, List.flatMap_cons, forestSlabs_append, List.map_cons, List.cons_append,
      List.cons_append]
    refine .cons _ ((List.Perm.append_left _ ih).trans ?_)
    simpa only [← List.append_assoc] using List.Perm.append_right _ List.perm_append_comm

private theorem level_lt_of_mem_forestLevelOrder {n level : Nat} {ts : List ArrayTree} {p : Nat × ArraySlab}
    (member : p ∈ forestLevelOrder n level ts) : level < p.1 := by
  induction n generalizing level ts with
  | zero => cases member
  | succ n ih =>
    rcases List.mem_append.mp member with root | below
    · obtain ⟨t, -, rfl⟩ := List.mem_map.mp root
      exact Nat.lt_succ_self level
    · exact Nat.lt_of_succ_lt (ih below)

/-- The breadth-first order goes level by level. -/
theorem forestLevelOrder_sorted (n level : Nat) (ts : List ArrayTree) :
    ((forestLevelOrder n level ts).map Prod.fst).Sorted (· ≤ ·) := by
  induction n generalizing level ts with
  | zero => exact List.sorted_nil
  | succ n ih =>
    rw [forestLevelOrder, List.map_append, List.map_map, List.Sorted, List.pairwise_append]
    refine ⟨List.pairwise_map.mpr (List.Pairwise.imp (fun _ => le_refl _) (List.pairwise_of_forall fun _ _ => trivial)),
      ih _ _, fun a root b below => ?_⟩
    obtain ⟨t, -, rfl⟩ := List.mem_map.mp root
    obtain ⟨p, member, rfl⟩ := List.mem_map.mp below
    exact (level_lt_of_mem_forestLevelOrder member).le

/-- Enough levels of the breadth-first order hold each slab of the forest once. -/
theorem forestLevelOrder_perm {n : Nat} {ts : List ArrayTree} (enough : forestHeight ts ≤ n) (level : Nat) :
    ((forestLevelOrder n level ts).map Prod.snd).Perm (forestSlabs ts) := by
  induction n generalizing level ts with
  | zero =>
    cases ts with
    | nil => rfl
    | cons t ts => rw [forestHeight, height_eq] at enough; omega
  | succ n ih =>
    cases ts with
    | nil => rw [forestLevelOrder_nil]; rfl
    | cons t ts =>
      have lower := forestHeight_flatMap_children (List.cons_ne_nil t ts)
      rw [forestLevelOrder, List.map_append, List.map_map]
      exact ((ih (by omega) _).append_left _).trans (forestSlabs_perm _).symm

private theorem foldr_max_forestLevelOrder (ts : List ArrayTree) (level : Nat) :
    ((forestLevelOrder (forestHeight ts) level ts).map Prod.fst).foldr max 0 =
      if ts.isEmpty then 0 else level + forestHeight ts := by
  suffices ∀ n ts, forestHeight ts = n → ∀ level,
      ((forestLevelOrder n level ts).map Prod.fst).foldr max 0 = if ts.isEmpty then 0 else level + n from
    this _ ts rfl level
  intro n
  induction n with
  | zero =>
    intro ts flat level
    cases ts with
    | nil => rfl
    | cons t ts => rw [forestHeight, height_eq] at flat; omega
  | succ n ih =>
    intro ts high level
    cases ts with
    | nil => cases high
    | cons t ts =>
      have lower := forestHeight_flatMap_children (List.cons_ne_nil t ts)
      have roots : ∀ us : List ArrayTree, ∀ c, ((t :: us).map fun u => level + 1).foldr max c = max (level + 1) c := by
        intro us c
        induction us with
        | nil => rfl
        | cons u us ih' =>
          simp only [List.map_cons, List.foldr_cons] at ih' ⊢
          rw [← max_assoc, max_self, ih']
      rw [forestLevelOrder, List.map_append, List.map_map, List.foldr_append, ih _ (by omega)]
      simp only [Function.comp_def, roots, List.isEmpty_cons, Bool.false_eq_true, if_false]
      split_ifs with leaves
      · rw [List.isEmpty_iff.mp leaves, forestHeight] at lower; omega
      · omega

end ArrayTree

section Stored

variable {ε : Type} {getArraySlab : StorageID → Except ε ArraySlab} (sprint : Storable → String)

open ArrayTree

private theorem printLevel_of_fetched {ids : List StorageID} {slabs : List ArraySlab}
    (fetched : List.Forall₂ (fun id slab => getArraySlab id = .ok slab) ids slabs)
    (level : Nat) (overflowIDs nextLevelIDs : List StorageID) :
    printLevel getArraySlab sprint level overflowIDs nextLevelIDs ids =
      (slabs.map (slabLine sprint (level + 1)),
        some (overflowIDs ++ slabs.flatMap ArraySlab.shownOverflowIDs, nextLevelIDs ++ slabs.flatMap ArraySlab.childIDs)) := by
  induction fetched generalizing overflowIDs nextLevelIDs with
  | nil => simp [printLevel]
  | @cons id slab ids slabs found _ ih =>
    cases slab <;> simp [printLevel, found, ih, slabLine, ArraySlab.shownOverflowIDs, ArraySlab.childIDs]

/-- Over a forest that storage holds, the rounds end within the forest's height and
print the lines of its slabs in breadth-first order, queueing their shown overflow ids
in the same order. -/
theorem printLevels_of_stored {fuel : Nat} {ids : List StorageID} {ts : List ArrayTree}
    (stored : StoredForest getArraySlab ids ts) (enough : forestHeight ts ≤ fuel) (level : Nat)
    (overflowIDs : List StorageID) :
    printLevels getArraySlab sprint fuel level overflowIDs ids =
      some ((forestLevelOrder (forestHeight ts) level ts).map (fun p => slabLine sprint p.1 p.2),
        some (overflowIDs ++ (forestLevelOrder (forestHeight ts) level ts).flatMap fun p => p.2.shownOverflowIDs)) := by
  induction fuel generalizing ids ts level overflowIDs with
  | zero =>
    cases ts with
    | nil => rw [stored.eq_nil]; simp [printLevels]
    | cons t ts => rw [forestHeight, height_eq] at enough; omega
  | succ fuel ih =>
    cases ts with
    | nil => rw [stored.eq_nil]; simp [printLevels]
    | cons t ts =>
      obtain ⟨id, ids, rfl⟩ : ∃ id ids', ids = id :: ids' := by
        cases ids with
        | nil => cases stored
        | cons id ids => exact ⟨id, ids, rfl⟩
      have lower := forestHeight_flatMap_children (List.cons_ne_nil t ts)
      simp only [printLevels, printLevel_of_fetched sprint stored.fetched, List.nil_append]
      rw [ih stored.next (by omega), ← lower]
      simp only [List.map_cons, List.map_map, Function.comp_def, List.cons_append, List.flatMap_cons,
        forestHeight_append, List.flatMap_map, List.append_assoc, Option.map_some', forestLevelOrder, List.map_append,
        List.flatMap_append]

private theorem printOverflow_of_fetched {ids : List StorageID} {slabs : List ArraySlab}
    (fetched : List.Forall₂ (fun id slab => getArraySlab id = .ok slab) ids slabs) (rest : List StorageID) :
    printOverflow getArraySlab (ids ++ rest) = List.zipWith .overflow ids slabs ++ printOverflow getArraySlab rest := by
  induction fetched with
  | nil => rfl
  | cons found _ ih =>
    rw [List.cons_append, List.zipWith_cons_cons, List.cons_append, ← ih]
    simp only [printOverflow, found]

/-- Over a tree that storage holds under the root's id, with fuel for its height,
`PrintArray` prints the line of each slab of the tree once, level by level from the
root, and then one overflow line for each id of a `StorageIDStorable` among the
elements the data slabs' lines showed, in order, with the slab storage returns for it,
up to the first id storage rejects, whose error it prints last. -/
theorem printArray_of_stored {root : ArraySlab} {t : ArrayTree} (stored : t.Stored getArraySlab root.header.id)
    {fuel : Nat} (enough : t.height ≤ fuel) :
    ∃ overflowLines, printArray getArraySlab sprint root fuel =
        some (t.levelOrder.map (fun p => slabLine sprint p.1 p.2) ++ overflowLines) ∧
      (∀ slabs, List.Forall₂ (fun id slab => getArraySlab id = .ok slab)
          (t.levelOrder.flatMap fun p => p.2.shownOverflowIDs) slabs →
        overflowLines = List.zipWith .overflow (t.levelOrder.flatMap fun p => p.2.shownOverflowIDs) slabs) ∧
      (∀ accepted slabs id err rejected, t.levelOrder.flatMap (fun p => p.2.shownOverflowIDs) = accepted ++ id :: rejected →
        List.Forall₂ (fun id slab => getArraySlab id = .ok slab) accepted slabs → getArraySlab id = .error err →
        overflowLines = List.zipWith .overflow accepted slabs ++ [.error err]) ∧
      (t.levelOrder.map Prod.snd).Perm t.slabs ∧ (t.levelOrder.map Prod.fst).Sorted (· ≤ ·) := by
  have height : forestHeight [t] = t.height := by simp [forestHeight]
  have storedRoot : StoredForest getArraySlab [root.header.id] [t] := ⟨stored, trivial⟩
  have walked := printLevels_of_stored sprint storedRoot (height ▸ enough) 0 []
  rw [height] at walked
  refine ⟨printOverflow getArraySlab (t.levelOrder.flatMap fun p => p.2.shownOverflowIDs),
    by simp [printArray, walked, levelOrder], fun slabs fetched => ?_,
    fun accepted slabs id err rejected split fetched failed => ?_, ?_, forestLevelOrder_sorted _ _ _⟩
  · simpa [printOverflow] using printOverflow_of_fetched fetched []
  · rw [split, printOverflow_of_fetched fetched, printOverflow, failed]
  · simpa [forestSlabs] using @forestLevelOrder_perm t.height [t] height.le 0

def printLeafID : StorageID := ⟨Bytes8.ofUint64 1, Bytes8.ofUint64 3⟩

def shownOverflowID : StorageID := ⟨Bytes8.ofUint64 1, Bytes8.ofUint64 4⟩

def hiddenOverflowID : StorageID := ⟨Bytes8.ofUint64 1, Bytes8.ofUint64 5⟩

/-- A data slab of eight elements: the first refers to a slab stored on its own, and so
does the fourth, which its line leaves out. -/
def printLeaf : ArrayDataSlab :=
  ⟨⟨printLeafID, 0, 8⟩, storageIDUndefined,
    [.storageID shownOverflowID, .value 1, .value 1, .storageID hiddenOverflowID, .value 1, .value 1, .value 1,
      .value 1], none⟩

/-- A root over `printLeaf`, under the undefined id. -/
def printRoot : ArrayMetaDataSlab := ⟨⟨storageIDUndefined, 0, 8⟩, [⟨printLeafID, 0, 8⟩], some ⟨[]⟩⟩

def overflowSlab : ArraySlab := .data ⟨⟨shownOverflowID, 0, 0⟩, storageIDUndefined, [], none⟩

/-- Storage with the root, the leaf and the slab the leaf's first element refers to;
the slab of its fourth is missing. -/
def printStorage (id : StorageID) : Except Unit ArraySlab :=
  if id = printLeafID then .ok (.data printLeaf)
  else if id = storageIDUndefined then .ok (.meta printRoot)
  else if id = shownOverflowID then .ok overflowSlab
  else .error ()

theorem printArray_of_stored_of_printStorage :
    (ArrayTree.meta printRoot [.data printLeaf]).Stored printStorage (ArraySlab.meta printRoot).header.id ∧
      ∃ overflowLines, printArray printStorage (fun _ => "v") (.meta printRoot) 2 =
          some ([.meta 1 printRoot.header printRoot.childrenHeaders,
            .leaf 2 printLeaf.header ["v", "v", "v", "...", "v", "v", "v"]] ++ overflowLines) ∧
        overflowLines = [.overflow shownOverflowID overflowSlab] := by
  have stored : (ArrayTree.meta printRoot [.data printLeaf]).Stored printStorage
      (ArraySlab.meta printRoot).header.id := ⟨rfl, rfl, trivial⟩
  obtain ⟨overflowLines, printed, allFetched, -⟩ := printArray_of_stored (fun _ => "v") stored (le_refl 2)
  exact ⟨stored, overflowLines, printed, allFetched [overflowSlab] (.cons rfl .nil)⟩

private theorem printOverflow_no_slab_line (ids : List StorageID) (c : Nat) :
    ((printOverflow getArraySlab ids).map PrintLine.level).foldr max c = c ∧
      (printOverflow getArraySlab ids).countP PrintLine.isLeaf = 0 ∧
      (printOverflow getArraySlab ids).countP PrintLine.isMeta = 0 := by
  induction ids with
  | nil => exact ⟨rfl, rfl, rfl⟩
  | cons id ids ih =>
    simp only [printOverflow]
    split <;> simp [PrintLine.level, PrintLine.isLeaf, PrintLine.isMeta, ih]

/-- Over a tree that storage holds under the root's id, with fuel for its height,
`PrintArray` and `ArrayStats` agree: the deepest level printed is the number of levels,
and the meta and leaf lines printed are as many as the metadata and data slabs counted. -/
theorem printArray_agrees_with_arrayStats {root : ArraySlab} {t : ArrayTree}
    (stored : t.Stored getArraySlab root.header.id) {fuel : Nat} (enough : t.height ≤ fuel) (count : UInt64) :
    ∃ lines, printArray getArraySlab sprint root fuel = some lines ∧
      arrayStats getArraySlab root count fuel = some (.ok
        { levels := UInt64.ofNat ((lines.map PrintLine.level).foldr max 0), elementCount := count,
          metaDataSlabCount := UInt64.ofNat (lines.countP PrintLine.isMeta),
          dataSlabCount := UInt64.ofNat (lines.countP PrintLine.isLeaf) }) := by
  have height : forestHeight [t] = t.height := by simp [forestHeight]
  have storedRoot : StoredForest getArraySlab [root.header.id] [t] := ⟨stored, trivial⟩
  have walked := printLevels_of_stored sprint storedRoot (height ▸ enough) 0 []
  have counted := statsLevels_of_stored storedRoot (height ▸ enough) 0 0 0
  have slabs := forestLevelOrder_perm (le_refl (forestHeight [t])) 0
  obtain ⟨noDeeper, noLeaf, noMeta⟩ := @printOverflow_no_slab_line ε getArraySlab
    ((forestLevelOrder (forestHeight [t]) 0 [t]).flatMap fun p => p.2.shownOverflowIDs) 0
  simp only [printArray, walked, Option.map_some', List.nil_append, Option.some.injEq, exists_eq_left', arrayStats,
    counted, Except.map, List.map_append, List.foldr_append, noDeeper, List.countP_append, noLeaf, noMeta,
    List.map_map, Function.comp_def, level_slabLine, List.countP_map, isLeaf_slabLine, isMeta_slabLine]
  have deepest := foldr_max_forestLevelOrder [t] 0
  have counts : ∀ p : ArraySlab → Bool, (forestSlabs [t]).countP p =
      (forestLevelOrder (forestHeight [t]) 0 [t]).countP (fun x => p x.2) := fun p => by
    rw [← slabs.countP_eq p, List.countP_map]
    rfl
  simp only [List.isEmpty_cons, Bool.false_eq_true, if_false, zero_add] at deepest
  rw [counts, counts]
  simp only [zero_add, add_zero, Except.ok.injEq, Stats.mk.injEq, and_true]
  exact congrArg UInt64.ofNat deepest.symm

theorem printArray_agrees_with_arrayStats_of_printStorage :
    (ArrayTree.meta printRoot [.data printLeaf]).Stored printStorage (ArraySlab.meta printRoot).header.id ∧
      ∃ lines, printArray printStorage (fun _ => "v") (.meta printRoot) 2 = some lines ∧
        arrayStats printStorage (.meta printRoot) 8 2 = some (.ok
          { levels := UInt64.ofNat ((lines.map PrintLine.level).foldr max 0), elementCount := 8,
            metaDataSlabCount := UInt64.ofNat (lines.countP PrintLine.isMeta),
            dataSlabCount := UInt64.ofNat (lines.countP PrintLine.isLeaf) }) := by
  have stored : (ArrayTree.meta printRoot [.data printLeaf]).Stored printStorage
      (ArraySlab.meta printRoot).header.id := ⟨rfl, rfl, trivial⟩
  exact ⟨stored, printArray_agrees_with_arrayStats (fun _ => "v") stored (le_refl 2) 8⟩

end Stored

section Errors

variable {ε : Type} {getArraySlab : StorageID → Except ε ArraySlab} (sprint : Storable → String)

open PrintLine

private theorem printLevel_errorLast (level : Nat) (overflowIDs nextLevelIDs ids : List StorageID) :
    ErrorLast (printLevel getArraySlab sprint level overflowIDs nextLevelIDs ids).1 ∧
      ((printLevel getArraySlab sprint level overflowIDs nextLevelIDs ids).2.isSome →
        ∀ line ∈ (printLevel getArraySlab sprint level overflowIDs nextLevelIDs ids).1, line.isError = false) := by
  induction ids generalizing overflowIDs nextLevelIDs with
  | nil => exact ⟨.nil, fun _ line member => absurd member (List.not_mem_nil line)⟩
  | cons id ids ih =>
    simp only [printLevel]
    split
    · exact ⟨ErrorLast.nil, fun stopped => absurd stopped Bool.false_ne_true⟩
    · obtain ⟨last, going⟩ := ih _ nextLevelIDs
      exact ⟨last.cons rfl, fun some => List.forall_mem_cons.mpr ⟨rfl, going some⟩⟩
    · obtain ⟨last, going⟩ := ih overflowIDs _
      exact ⟨last.cons rfl, fun some => List.forall_mem_cons.mpr ⟨rfl, going some⟩⟩

/-- The rounds print an error only as their last line, and none when the overflow loop
follows. -/
theorem printLevels_errorLast {fuel level : Nat} {overflowIDs ids : List StorageID}
    {lines : List (PrintLine ε)} {queued : Option (List StorageID)}
    (ran : printLevels getArraySlab sprint fuel level overflowIDs ids = some (lines, queued)) :
    ErrorLast lines ∧ (queued.isSome → ∀ line ∈ lines, line.isError = false) := by
  induction fuel generalizing level overflowIDs ids lines queued with
  | zero =>
    cases ids with
    | nil => cases ran; exact ⟨.nil, fun _ line member => absurd member (List.not_mem_nil line)⟩
    | cons => cases ran
  | succ fuel ih =>
    cases ids with
    | nil => cases ran; exact ⟨.nil, fun _ line member => absurd member (List.not_mem_nil line)⟩
    | cons id ids =>
      obtain ⟨last, going⟩ := @printLevel_errorLast ε getArraySlab sprint level overflowIDs [] (id :: ids)
      rcases round : printLevel getArraySlab sprint level overflowIDs [] (id :: ids) with ⟨printed, _ | ⟨queued', next⟩⟩
      · simp only [printLevels, round, Option.some.injEq, Prod.mk.injEq] at ran
        obtain ⟨rfl, rfl⟩ := ran
        rw [round] at last
        exact ⟨last, fun stopped => absurd stopped Bool.false_ne_true⟩
      · simp only [printLevels, round, Option.map_eq_some', Prod.exists, Prod.mk.injEq] at ran
        obtain ⟨rest, queued'', walked, rfl, rfl⟩ := ran
        rw [round] at going
        have noError := going rfl
        obtain ⟨restLast, restGoing⟩ := ih walked
        exact ⟨.append noError restLast, fun some line member =>
          (List.mem_append.mp member).elim (noError line) (restGoing some line)⟩

private theorem printOverflow_errorLast (ids : List StorageID) : ErrorLast (printOverflow getArraySlab ids) := by
  induction ids with
  | nil => exact .nil
  | cons id ids ih =>
    simp only [printOverflow]
    split
    · exact ErrorLast.nil
    · exact ih.cons rfl

/-- Whatever storage holds, `PrintArray` stops at the first error it prints: an error
line is always its last line. -/
theorem printArray_error_last {root : ArraySlab} {fuel : Nat} {lines : List (PrintLine ε)}
    (printed : printArray getArraySlab sprint root fuel = some lines) :
    ∀ line ∈ lines.dropLast, line.isError = false := by
  obtain ⟨⟨walkedLines, queued⟩, walked, rfl⟩ := Option.map_eq_some'.mp printed
  obtain ⟨last, going⟩ := printLevels_errorLast sprint walked
  cases queued with
  | none => simpa using last
  | some overflowIDs => exact ErrorLast.append (going rfl) (printOverflow_errorLast overflowIDs)

/-- `printStorage` without the slab the leaf's first element refers to. -/
def missingOverflowStorage (id : StorageID) : Except Unit ArraySlab :=
  if id = shownOverflowID then .error () else printStorage id

theorem printArray_error_last_of_missingOverflow :
    printArray missingOverflowStorage (fun _ => "v") (.meta printRoot) 2 =
        some [.meta 1 printRoot.header printRoot.childrenHeaders,
          .leaf 2 printLeaf.header ["v", "v", "v", "...", "v", "v", "v"], .error ()] ∧
      ∀ line ∈ ([.meta 1 printRoot.header printRoot.childrenHeaders,
          .leaf 2 printLeaf.header ["v", "v", "v", "...", "v", "v", "v"], .error ()] : List (PrintLine Unit)).dropLast,
        line.isError = false := by
  have printed : printArray missingOverflowStorage (fun _ => "v") (.meta printRoot) 2 =
      some [.meta 1 printRoot.header printRoot.childrenHeaders,
        .leaf 2 printLeaf.header ["v", "v", "v", "...", "v", "v", "v"], .error ()] := rfl
  exact ⟨printed, printArray_error_last _ printed⟩

end Errors

end Atree

import Mathlib.Algebra.Order.BigOperators.Group.List
import Mathlib.Data.Finset.Card
import Atree.BaseStorage

/-! The usage reporter of `InMemBaseStorage`: the counters `Retrieve`, `Store` and
`Remove` keep beside the segments, `ResetReporter`, and the methods that report them.
Go's `int` byte counters wrap at `2 ^ 63`; what memory holds is counted in `Nat`. -/

namespace Atree

/-- Go's `int` addition on a 64-bit platform: two's complement, wrapping at `2 ^ 63`. -/
def addInt (a b : Int) : Int := (a + b).bmod (2 ^ 64)

/-- The counters of an `InMemBaseStorage`. -/
structure InMemUsage where
  bytesRetrieved : Int
  bytesStored : Int
  segmentsReturned : Finset StorageID
  segmentsUpdated : Finset StorageID
  segmentsTouched : Finset StorageID

/-- The counters `NewInMemBaseStorageFromMap` starts from and `ResetReporter` restores. -/
def InMemUsage.zero : InMemUsage := ⟨0, 0, ∅, ∅, ∅⟩

/-- A call of `InMemBaseStorage` as its counters see it. -/
inductive UsageCall where
  | retrieve (id : StorageID)
  | store (id : StorageID) (data : Bytes)
  | remove (id : StorageID)
  | resetReporter

/-- The bytes a call stores. -/
def UsageCall.storedLength : UsageCall → Nat
  | .store _ data => data.length
  | _ => 0

namespace InMemBaseStorage

/-- `SegmentCounts()`. -/
def segmentCounts (s : InMemBaseStorage) : Nat := s.segments.keys.length

/-- `Size()`: the bytes of all the segments held. -/
def size (s : InMemBaseStorage) : Nat := (s.segments.entries.map fun entry => entry.2.length).sum

/-- `Retrieve`, with what it adds to the counters. -/
def retrieveCounted (s : InMemBaseStorage) (usage : InMemUsage) (id : StorageID) : (Bytes × Bool) × InMemUsage :=
  let (seg, ok) := s.retrieve id
  ((seg, ok), { usage with
    bytesRetrieved := addInt usage.bytesRetrieved seg.length,
    segmentsReturned := insert id usage.segmentsReturned,
    segmentsTouched := insert id usage.segmentsTouched })

/-- `Store`, with what it adds to the counters. -/
def storeCounted (s : InMemBaseStorage) (usage : InMemUsage) (id : StorageID) (data : Bytes) :
    InMemBaseStorage × InMemUsage :=
  (s.store id data, { usage with
    bytesStored := addInt usage.bytesStored data.length,
    segmentsUpdated := insert id usage.segmentsUpdated,
    segmentsTouched := insert id usage.segmentsTouched })

/-- `Remove`, with what it adds to the counters. -/
def removeCounted (s : InMemBaseStorage) (usage : InMemUsage) (id : StorageID) : InMemBaseStorage × InMemUsage :=
  (s.remove id, { usage with
    segmentsUpdated := insert id usage.segmentsUpdated,
    segmentsTouched := insert id usage.segmentsTouched })

/-- A call's effect on the store and its counters. -/
def usageStep : InMemBaseStorage × InMemUsage → UsageCall → InMemBaseStorage × InMemUsage
  | (s, usage), .retrieve id => (s, (s.retrieveCounted usage id).2)
  | (s, usage), .store id data => s.storeCounted usage id data
  | (s, usage), .remove id => s.removeCounted usage id
  | (s, _), .resetReporter => (s, InMemUsage.zero)

/-- The store and counters after `calls`. -/
def runUsage (state : InMemBaseStorage × InMemUsage) (calls : List UsageCall) : InMemBaseStorage × InMemUsage :=
  calls.foldl usageStep state

private theorem size_store (s : InMemBaseStorage) (id : StorageID) (data : Bytes) :
    (s.store id data).size = (s.remove id).size + data.length := by
  simp only [size, store, remove, AList.insert_entries, List.map_cons, List.sum_cons, add_comm]
  rfl

private theorem size_remove_le (s : InMemBaseStorage) (id : StorageID) : (s.remove id).size ≤ s.size :=
  ((List.kerase_sublist id s.segments.entries).map _).sum_le_sum fun _ _ => Nat.zero_le _

private theorem bmod_of_lt {x : Nat} (small : x < 2 ^ 63) : (x : Int).bmod (2 ^ 64) = x := by
  have small' : (x : Int) < 2 ^ 63 := by exact_mod_cast small
  have reduced : (x : Int) % (2 ^ 64 : Nat) = x := Int.emod_eq_of_lt (by omega) (by omega)
  rw [Int.bmod_pos _ _ (by rw [reduced]; omega), reduced]

private theorem addInt_bmod (n len : Nat) :
    addInt ((n : Int).bmod (2 ^ 64)) len = ((n + len : Nat) : Int).bmod (2 ^ 64) := by
  rw [addInt, Int.bmod_add_bmod_congr, Int.natCast_add]

/-- The touched segments are the returned and the updated ones. -/
def TouchedSplit (usage : InMemUsage) : Prop :=
  usage.segmentsTouched = usage.segmentsReturned ∪ usage.segmentsUpdated

private theorem touchedSplit_step {state : InMemBaseStorage × InMemUsage} (split : TouchedSplit state.2)
    (call : UsageCall) : TouchedSplit (usageStep state call).2 := by
  obtain ⟨s, usage⟩ := state
  unfold TouchedSplit at split ⊢
  dsimp only at split
  cases call <;>
    simp only [usageStep, retrieveCounted, storeCounted, removeCounted, InMemUsage.zero, split,
      Finset.insert_union, Finset.union_insert, Finset.empty_union]

/-- In every state a new store reaches, resets included, the segments touched are
exactly those returned or updated. -/
theorem touched_eq_returned_union_updated (calls : List UsageCall) :
    (runUsage (newInMemBaseStorage, InMemUsage.zero) calls).2.segmentsTouched =
      (runUsage (newInMemBaseStorage, InMemUsage.zero) calls).2.segmentsReturned ∪
        (runUsage (newInMemBaseStorage, InMemUsage.zero) calls).2.segmentsUpdated := by
  suffices ∀ state : InMemBaseStorage × InMemUsage, TouchedSplit state.2 → TouchedSplit (runUsage state calls).2 from
    this _ rfl
  induction calls with
  | nil => exact fun _ split => split
  | cons call calls ih => exact fun state split => ih _ (touchedSplit_step split call)

/-- What the counters say of the store until a reset, `stored` bytes having been stored:
every segment held has been updated, the segments hold at most `stored` bytes, and
`bytesStored` is `stored` as Go's `int` wraps it. -/
structure Tracks (stored : Nat) (state : InMemBaseStorage × InMemUsage) : Prop where
  updated : ∀ id ∈ state.1.segments.keys, id ∈ state.2.segmentsUpdated
  sized : state.1.size ≤ stored
  counted : state.2.bytesStored = (stored : Int).bmod (2 ^ 64)

private theorem tracks_step {stored : Nat} {state : InMemBaseStorage × InMemUsage} (tracks : Tracks stored state)
    {call : UsageCall} (noReset : call ≠ .resetReporter) : Tracks (stored + call.storedLength) (usageStep state call) := by
  obtain ⟨s, usage⟩ := state
  obtain ⟨updated, sized, counted⟩ := tracks
  dsimp only at updated sized counted
  cases call with
  | retrieve id => exact ⟨updated, sized, counted⟩
  | store id data =>
    refine ⟨fun id' held => ?_, ?_, ?_⟩
    · simp only [usageStep, storeCounted, store, AList.keys_insert, List.mem_cons] at held
      rcases held with rfl | kept
      · exact Finset.mem_insert_self _ _
      · exact Finset.mem_insert_of_mem (updated id' (List.mem_of_mem_erase kept))
    · simp only [usageStep, storeCounted, size_store, UsageCall.storedLength]
      have := size_remove_le s id
      omega
    · simp only [usageStep, storeCounted, UsageCall.storedLength, counted, addInt_bmod]
  | remove id =>
    refine ⟨fun id' held => ?_, (size_remove_le s id).trans sized, counted⟩
    simp only [usageStep, removeCounted, remove, AList.keys_erase] at held
    exact Finset.mem_insert_of_mem (updated id' (List.mem_of_mem_erase held))
  | resetReporter => exact absurd rfl noReset

private theorem tracks_runUsage {calls : List UsageCall} (noReset : UsageCall.resetReporter ∉ calls) :
    ∀ {stored state}, Tracks stored state →
      Tracks (stored + (calls.map UsageCall.storedLength).sum) (runUsage state calls) := by
  induction calls with
  | nil => exact fun tracks => tracks
  | cons call calls ih =>
    intro stored state tracks
    have step := tracks_step tracks fun same => noReset (same ▸ List.mem_cons_self _ _)
    rw [List.map_cons, List.sum_cons, ← Nat.add_assoc]
    exact ih (fun member => noReset (List.mem_cons_of_mem _ member)) step

/-- From a new store and until the first `ResetReporter`, as long as fewer than `2 ^ 63`
bytes are stored in all, `SegmentCounts()` is at most `SegmentsUpdated()` and `Size()`
at most `BytesStored()`. -/
theorem reports_bounded_until_reset {calls : List UsageCall} (noReset : UsageCall.resetReporter ∉ calls)
    (noWrap : (calls.map UsageCall.storedLength).sum < 2 ^ 63) :
    (runUsage (newInMemBaseStorage, InMemUsage.zero) calls).1.segmentCounts ≤
        (runUsage (newInMemBaseStorage, InMemUsage.zero) calls).2.segmentsUpdated.card ∧
      ((runUsage (newInMemBaseStorage, InMemUsage.zero) calls).1.size : Int) ≤
        (runUsage (newInMemBaseStorage, InMemUsage.zero) calls).2.bytesStored := by
  obtain ⟨updated, sized, counted⟩ :=
    tracks_runUsage noReset (⟨nofun, le_rfl, rfl⟩ : Tracks 0 (newInMemBaseStorage, InMemUsage.zero))
  rw [Nat.zero_add] at sized counted
  refine ⟨?_, ?_⟩
  · rw [segmentCounts, ← List.toFinset_card_of_nodup (AList.keys_nodup _)]
    exact Finset.card_le_card fun id held => updated id (List.mem_toFinset.mp held)
  · rw [counted, bmod_of_lt noWrap]
    exact_mod_cast sized

theorem reports_bounded_until_reset_of_store :
    UsageCall.resetReporter ∉ [.store storageIDUndefined [0], .retrieve storageIDUndefined, .remove storageIDUndefined] ∧
      ([.store storageIDUndefined [0], .retrieve storageIDUndefined, .remove storageIDUndefined].map
        UsageCall.storedLength).sum < 2 ^ 63 ∧
      ((runUsage (newInMemBaseStorage, InMemUsage.zero)
          [.store storageIDUndefined [0], .retrieve storageIDUndefined, .remove storageIDUndefined]).1.size : Int) ≤
        (runUsage (newInMemBaseStorage, InMemUsage.zero)
          [.store storageIDUndefined [0], .retrieve storageIDUndefined, .remove storageIDUndefined]).2.bytesStored := by
  have noReset : UsageCall.resetReporter ∉
      [.store storageIDUndefined [0], .retrieve storageIDUndefined, .remove storageIDUndefined] := by
    simp only [List.mem_cons, reduceCtorEq, List.not_mem_nil, or_self, not_false_eq_true]
  have noWrap : ([.store storageIDUndefined [0], .retrieve storageIDUndefined, .remove storageIDUndefined].map
      UsageCall.storedLength).sum < 2 ^ 63 := by decide
  exact ⟨noReset, noWrap, (reports_bounded_until_reset noReset noWrap).2⟩

/-- A reset clears the counters and not the store. -/
example : (runUsage (newInMemBaseStorage, InMemUsage.zero) [.store storageIDUndefined [0], .resetReporter]).2.bytesStored <
    (runUsage (newInMemBaseStorage, InMemUsage.zero) [.store storageIDUndefined [0], .resetReporter]).1.size := by
  decide

end InMemBaseStorage

end Atree

import Mathlib.Data.List.AList
import Atree.Slab

/-! The byte-level `BaseStorage` interface, `InMemBaseStorage` and `BasicSlabStorage`,
with Go maps as association lists. -/

namespace Atree

/-- Go's `[]byte`; `nil` and the empty slice are both `[]`. -/
abbrev Bytes := List UInt8

/-- A base-store call that changes the store. -/
inductive BaseCall where
  | store (id : StorageID) (data : Bytes)
  | remove (id : StorageID)
  deriving DecidableEq

/-- The id a call is about. -/
def BaseCall.id : BaseCall → StorageID
  | .store id _ => id
  | .remove id => id

/-- The segment a successful call leaves under its id: the data stored, or none. -/
def BaseCall.written : BaseCall → Option Bytes
  | .store _ data => some data
  | .remove _ => none

/-- The segment under `id` after `calls`, from `segment` before them: the last call on `id` decides. -/
def lastWrite (calls : List BaseCall) (id : StorageID) (segment : Option Bytes) : Option Bytes :=
  calls.foldl (fun segment call => if call.id = id then call.written else segment) segment

theorem lastWrite_of_not_mem {calls : List BaseCall} {id : StorageID} (absent : id ∉ calls.map BaseCall.id)
    (segment : Option Bytes) : lastWrite calls id segment = segment := by
  induction calls generalizing segment with
  | nil => rfl
  | cons call calls ih =>
    simp only [List.map_cons, List.mem_cons, not_or] at absent
    simp only [lastWrite, List.foldl_cons, if_neg (Ne.symm absent.1)] at ih ⊢
    exact ih absent.2 segment

/-- Once a call is on `id`, the segment before the calls no longer matters. -/
theorem lastWrite_of_mem {calls : List BaseCall} {id : StorageID} (present : id ∈ calls.map BaseCall.id)
    (segment segment' : Option Bytes) : lastWrite calls id segment = lastWrite calls id segment' := by
  induction calls generalizing segment segment' with
  | nil => cases present
  | cons call calls ih =>
    simp only [lastWrite, List.foldl_cons] at ih ⊢
    by_cases onId : call.id = id
    · simp only [if_pos onId]
    · simp only [if_neg onId]
      exact ih (by simpa [Ne.symm onId] using present) _ _

/-- The `BaseStorage` interface over a store state `σ`; a call that fails
returns its error and leaves the state as it was. -/
structure BaseStorage (σ ε : Type) where
  store : σ → StorageID → Bytes → Except ε σ
  retrieve : σ → StorageID → Except ε (Bytes × Bool)
  remove : σ → StorageID → Except ε σ
  generateStorageID : σ → Address → Except ε (StorageID × σ)

namespace BaseStorage

variable {σ ε : Type} (B : BaseStorage σ ε)

def call (base : σ) : BaseCall → Except ε σ
  | .store id data => B.store base id data
  | .remove id => B.remove base id

/-- Issue `calls` in order and stop at the first error: the store reached and that error. -/
def runCalls : σ → List BaseCall → σ × Option ε
  | base, [] => (base, none)
  | base, call :: calls =>
    match B.call base call with
    | .ok base' => runCalls base' calls
    | .error err => (base, some err)

@[simp] theorem runCalls_nil (base : σ) : B.runCalls base [] = (base, none) := rfl

theorem runCalls_cons_ok {base base' : σ} {call : BaseCall} (calls : List BaseCall)
    (succeeded : B.call base call = .ok base') :
    B.runCalls base (call :: calls) = B.runCalls base' calls := by
  simp [runCalls, succeeded]

private theorem runCalls_cons_error {base : σ} {call : BaseCall} {err : ε} (calls : List BaseCall)
    (failed : B.call base call = .error err) :
    B.runCalls base (call :: calls) = (base, some err) := by
  simp [runCalls, failed]

end BaseStorage

/-- The per-address index allocator of `InMemBaseStorage.GenerateStorageID` and
`BasicSlabStorage.GenerateStorageID`, which have the same body. -/
def generateStorageIDFrom (storageIndex : AList (fun _ : Address => StorageIndex))
    (address : Address) : StorageID × AList (fun _ : Address => StorageIndex) :=
  let index := (storageIndex.lookup address).getD storageIndexUndefined
  let nextIndex := index.next
  (newStorageID address nextIndex, storageIndex.insert address nextIndex)

structure InMemBaseStorage where
  segments : AList (fun _ : StorageID => Bytes)
  storageIndex : AList (fun _ : Address => StorageIndex)

def newInMemBaseStorageFromMap (segments : AList (fun _ : StorageID => Bytes)) : InMemBaseStorage :=
  ⟨segments, ∅⟩

def newInMemBaseStorage : InMemBaseStorage := newInMemBaseStorageFromMap ∅

namespace InMemBaseStorage

def retrieve (s : InMemBaseStorage) (id : StorageID) : Bytes × Bool :=
  match s.segments.lookup id with
  | some seg => (seg, true)
  | none => ([], false)

def store (s : InMemBaseStorage) (id : StorageID) (data : Bytes) : InMemBaseStorage :=
  { s with segments := s.segments.insert id data }

def remove (s : InMemBaseStorage) (id : StorageID) : InMemBaseStorage :=
  { s with segments := s.segments.erase id }

def generateStorageID (s : InMemBaseStorage) (address : Address) : StorageID × InMemBaseStorage :=
  let (id, storageIndex) := generateStorageIDFrom s.storageIndex address
  (id, { s with storageIndex })

end InMemBaseStorage

/-- The errors a base store's calls may fail with: for each call, the error if it fails. -/
structure BaseFaults (ε : Type) where
  store : StorageID → Bytes → Option ε
  retrieve : StorageID → Option ε
  remove : StorageID → Option ε

/-- The error a call fails with, if any. -/
def BaseFaults.failure {ε : Type} (faults : BaseFaults ε) : BaseCall → Option ε
  | .store id data => faults.store id data
  | .remove id => faults.remove id

/-- A base store that never fails. -/
def BaseFaults.none {ε : Type} : BaseFaults ε := ⟨fun _ _ => .none, fun _ => .none, fun _ => .none⟩

/-- `InMemBaseStorage` behind the `BaseStorage` interface, each call failing where
`faults` says: with `BaseFaults.none` it is the store of the source, and otherwise
any key-value base store with I/O faults. -/
def InMemBaseStorage.withFaults {ε : Type} (faults : BaseFaults ε) : BaseStorage InMemBaseStorage ε where
  store s id data := match faults.store id data with
    | some err => .error err
    | .none => .ok (s.store id data)
  retrieve s id := match faults.retrieve id with
    | some err => .error err
    | .none => .ok (s.retrieve id)
  remove s id := match faults.remove id with
    | some err => .error err
    | .none => .ok (s.remove id)
  generateStorageID s address := .ok (s.generateStorageID address)

/-- `InMemBaseStorage` as the source has it: no call ever fails. -/
def InMemBaseStorage.reliable {ε : Type} : BaseStorage InMemBaseStorage ε := withFaults BaseFaults.none

namespace InMemBaseStorage

variable {ε : Type} {faults : BaseFaults ε}

@[simp] theorem store_storageIndex (s : InMemBaseStorage) (id : StorageID) (data : Bytes) :
    (s.store id data).storageIndex = s.storageIndex := rfl

@[simp] theorem remove_storageIndex (s : InMemBaseStorage) (id : StorageID) :
    (s.remove id).storageIndex = s.storageIndex := rfl

private theorem withFaults_call_frame {base base' : InMemBaseStorage} {call : BaseCall} {id : StorageID}
    (succeeded : (withFaults faults).call base call = .ok base') (other : call.id ≠ id) :
    base'.segments.lookup id = base.segments.lookup id ∧ base'.storageIndex = base.storageIndex := by
  cases call with
  | store callId data =>
    simp only [BaseStorage.call, withFaults] at succeeded
    split at succeeded
    · cases succeeded
    · cases succeeded
      exact ⟨AList.lookup_insert_ne (Ne.symm other), rfl⟩
  | remove callId =>
    simp only [BaseStorage.call, withFaults] at succeeded
    split at succeeded
    · cases succeeded
    · cases succeeded
      exact ⟨AList.lookup_erase_ne (Ne.symm other), rfl⟩

/-- Calls on other ids leave the segments under `id`, and the allocator, as they were. -/
theorem withFaults_runCalls_frame (base : InMemBaseStorage) (calls : List BaseCall) {id : StorageID}
    (untouched : id ∉ calls.map BaseCall.id) :
    ((withFaults faults).runCalls base calls).1.segments.lookup id = base.segments.lookup id ∧
      ((withFaults faults).runCalls base calls).1.storageIndex = base.storageIndex := by
  induction calls generalizing base with
  | nil => exact ⟨rfl, rfl⟩
  | cons call calls ih =>
    simp only [List.map_cons, List.mem_cons, not_or] at untouched
    cases succeeded : (withFaults faults).call base call with
    | ok base' =>
      obtain ⟨sameSegment, sameIndex⟩ := withFaults_call_frame succeeded (Ne.symm untouched.1)
      rw [BaseStorage.runCalls_cons_ok _ _ succeeded, (ih base' untouched.2).1, (ih base' untouched.2).2,
        sameSegment, sameIndex]
      exact ⟨rfl, rfl⟩
    | error err =>
      rw [BaseStorage.runCalls_cons_error _ _ succeeded]
      exact ⟨rfl, rfl⟩

private theorem withFaults_call_ok {base : InMemBaseStorage} {call : BaseCall} (noFault : faults.failure call = .none) :
    (withFaults faults).call base call = .ok
      { base with segments := match call.written with
        | some data => base.segments.insert call.id data
        | .none => base.segments.erase call.id } := by
  cases call <;> simp_all [BaseStorage.call, withFaults, BaseFaults.failure, BaseCall.written, BaseCall.id,
    InMemBaseStorage.store, InMemBaseStorage.remove]

private theorem withFaults_call_error {base : InMemBaseStorage} {call : BaseCall} {err : ε}
    (fault : faults.failure call = some err) : (withFaults faults).call base call = .error err := by
  cases call <;> simp_all [BaseStorage.call, withFaults, BaseFaults.failure]

/-- Whether calls go through depends on the calls only, not on the store they meet. -/
theorem withFaults_runCalls_none_iff (base : InMemBaseStorage) (calls : List BaseCall) :
    ((withFaults faults).runCalls base calls).2 = .none ↔ ∀ call ∈ calls, faults.failure call = .none := by
  induction calls generalizing base with
  | nil => simp
  | cons call calls ih =>
    cases fault : faults.failure call with
    | none => simp [BaseStorage.runCalls_cons_ok _ _ (withFaults_call_ok fault), ih, fault]
    | some err => simp [BaseStorage.runCalls_cons_error _ _ (withFaults_call_error fault), fault]

theorem withFaults_runCalls_storageIndex (base : InMemBaseStorage) (calls : List BaseCall) :
    ((withFaults faults).runCalls base calls).1.storageIndex = base.storageIndex := by
  induction calls generalizing base with
  | nil => rfl
  | cons call calls ih =>
    cases fault : faults.failure call with
    | none => rw [BaseStorage.runCalls_cons_ok _ _ (withFaults_call_ok fault), ih]
    | some err => rw [BaseStorage.runCalls_cons_error _ _ (withFaults_call_error fault)]

/-- After calls that all went through, each segment is the last write to it. -/
theorem withFaults_runCalls_lookup {base base' : InMemBaseStorage} {calls : List BaseCall}
    (ran : (withFaults faults).runCalls base calls = (base', .none)) (id : StorageID) :
    base'.segments.lookup id = lastWrite calls id (base.segments.lookup id) := by
  induction calls generalizing base with
  | nil => cases ran; rfl
  | cons call calls ih =>
    cases fault : faults.failure call with
    | some err => rw [BaseStorage.runCalls_cons_error _ _ (withFaults_call_error fault)] at ran; cases ran
    | none =>
      rw [BaseStorage.runCalls_cons_ok _ _ (withFaults_call_ok fault)] at ran
      rw [ih ran]
      simp only [lastWrite, List.foldl_cons]
      congr 1
      by_cases onId : call.id = id
      · cases written : call.written <;> simp [onId, written, AList.lookup_insert, AList.lookup_erase]
      · cases call.written <;> simp [onId, AList.lookup_insert_ne (Ne.symm onId),
          AList.lookup_erase_ne (Ne.symm onId)]

theorem withFaults_retrieve_congr {base base' : InMemBaseStorage} {id : StorageID}
    (same : base.segments.lookup id = base'.segments.lookup id) :
    (withFaults faults).retrieve base id = (withFaults faults).retrieve base' id := by
  simp [withFaults, InMemBaseStorage.retrieve, same]

end InMemBaseStorage

structure BasicSlabStorage where
  slabs : AList (fun _ : StorageID => Slab)
  storageIndex : AList (fun _ : Address => StorageIndex)

def newBasicSlabStorage : BasicSlabStorage := ⟨∅, ∅⟩

namespace BasicSlabStorage

def generateStorageID (s : BasicSlabStorage) (address : Address) : StorageID × BasicSlabStorage :=
  let (id, storageIndex) := generateStorageIDFrom s.storageIndex address
  (id, { s with storageIndex })

def retrieve (s : BasicSlabStorage) (id : StorageID) : Option Slab × Bool :=
  match s.slabs.lookup id with
  | some slab => (some slab, true)
  | none => (none, false)

def store (s : BasicSlabStorage) (id : StorageID) (slab : Slab) : BasicSlabStorage :=
  { s with slabs := s.slabs.insert id slab }

def remove (s : BasicSlabStorage) (id : StorageID) : BasicSlabStorage :=
  { s with slabs := s.slabs.erase id }

def count (s : BasicSlabStorage) : Nat := s.slabs.keys.length

end BasicSlabStorage

end Atree

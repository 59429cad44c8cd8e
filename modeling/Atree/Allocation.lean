import Atree.Persistent.Refinement

/-! Storage-id allocation: the k-th `GenerateStorageID` for an address gets index k,
from `storageIndex` or `tempStorageIndex`, since no other call moves those counters. -/

namespace Atree

/-- The ids a run of requests gets, in the allocators' own terms: after `issued a`
earlier requests for `a`, the next one gets index `issued a + 1`. -/
def numberedIDsFrom (issued : Address → Nat) : List Address → List StorageID
  | [] => []
  | a :: rest =>
    ⟨a, Bytes8.ofUint64 (issued a + 1)⟩ :: numberedIDsFrom (Function.update issued a (issued a + 1)) rest

/-- The k-th request for an address gets index k. -/
def numberedIDs (requests : List Address) : List StorageID := numberedIDsFrom (fun _ => 0) requests

private theorem Bytes8.ofUint64_mod (n : Nat) : Bytes8.ofUint64 (n % 2 ^ 64) = Bytes8.ofUint64 n :=
  Bytes8.toUint64_injective (by simp)

private theorem mem_numberedIDsFrom {issued : Address → Nat} {requests : List Address} {id : StorageID}
    (member : id ∈ numberedIDsFrom issued requests) :
    ∃ k, issued id.address < k ∧ k ≤ issued id.address + requests.count id.address ∧
      id.index = Bytes8.ofUint64 k := by
  induction requests generalizing issued with
  | nil => cases member
  | cons a rest ih =>
    rcases List.mem_cons.mp member with rfl | later
    · exact ⟨issued a + 1, Nat.lt_succ_self _, by simp only [List.count_cons_self]; omega, rfl⟩
    · obtain ⟨k, above, within, numbered⟩ := ih later
      by_cases same : id.address = a
      · rw [same, Function.update_same] at above within
        rw [same, List.count_cons_self]
        exact ⟨k, by omega, by omega, numbered⟩
      · rw [Function.update_noteq same] at above within
        rw [List.count_cons_of_ne same]
        exact ⟨k, above, within, numbered⟩

private theorem nodup_numberedIDsFrom {issued : Address → Nat} {requests : List Address}
    (bounded : ∀ a, issued a + requests.count a < 2 ^ 64) : (numberedIDsFrom issued requests).Nodup := by
  induction requests generalizing issued with
  | nil => exact List.nodup_nil
  | cons a rest ih =>
    refine List.nodup_cons.mpr ⟨fun member => ?_, ih fun b => ?_⟩
    · obtain ⟨k, above, within, numbered⟩ := mem_numberedIDsFrom member
      have bound := bounded a
      simp only [Function.update_same, List.count_cons_self] at above within bound
      have same := congrArg Bytes8.toUint64 numbered
      rw [Bytes8.toUint64_ofUint64, Bytes8.toUint64_ofUint64, Nat.mod_eq_of_lt (by omega),
        Nat.mod_eq_of_lt (by omega)] at same
      omega
    · have bound := bounded b
      by_cases same : b = a
      · subst same; simp only [Function.update_same, List.count_cons_self] at bound ⊢; omega
      · simp only [Function.update_noteq same, List.count_cons_of_ne same] at bound ⊢; omega

private theorem valid_of_mem_numberedIDsFrom {issued : Address → Nat} {requests : List Address}
    (bounded : ∀ a, issued a + requests.count a < 2 ^ 64) {id : StorageID}
    (member : id ∈ numberedIDsFrom issued requests) : id.valid = .ok () := by
  obtain ⟨k, above, within, numbered⟩ := mem_numberedIDsFrom member
  have bound := bounded id.address
  rw [StorageID.valid_eq_ok_iff, StorageID.indexAsUint64, numbered, Bytes8.toUint64_ofUint64,
    Nat.mod_eq_of_lt (by omega)]
  omega

/-- A call in a run on a storage: a `GenerateStorageID`, or any other call. -/
inductive AllocEvent (Op : Type) where
  | generate (address : Address)
  | other (op : Op)

/-- The addresses a run of events requests ids for, in order. -/
def AllocEvent.requests {Op : Type} : List (AllocEvent Op) → List Address
  | [] => []
  | .generate a :: events => a :: requests events
  | .other _ :: events => requests events

section Run

variable {τ Op ε : Type} (generate : τ → Address → Except ε (StorageID × τ)) (apply : τ → Op → τ)

/-- A run of events: the state it ends in and the ids `GenerateStorageID` returned,
or the first error a `GenerateStorageID` returned. -/
def runEvents : τ → List (AllocEvent Op) → Except ε (τ × List StorageID)
  | t, [] => .ok (t, [])
  | t, .generate a :: events =>
    match generate t a with
    | .error err => .error err
    | .ok (id, t') =>
      match runEvents t' events with
      | .error err => .error err
      | .ok (t'', ids) => .ok (t'', id :: ids)
  | t, .other op :: events => runEvents (apply t op) events

/-- An allocator counting per address: `counter t a` requests were served for `a`,
modulo `2^64`; a request gets the next index and bumps its own address's counter
only, and every other call leaves the counters alone. -/
structure CountingAllocator (counter : τ → Address → Nat) : Prop where
  generates : ∀ t a, ∃ t', generate t a = .ok (⟨a, Bytes8.ofUint64 (counter t a + 1)⟩, t') ∧
    counter t' = Function.update (counter t) a ((counter t a + 1) % 2 ^ 64)
  otherFrame : ∀ t op, counter (apply t op) = counter t

variable {generate apply} {counter : τ → Address → Nat}

/-- Every run of a counting allocator succeeds and hands out the numbered ids. -/
theorem CountingAllocator.runEvents_eq (allocator : CountingAllocator generate apply counter)
    (events : List (AllocEvent Op)) (t : τ) (issued : Address → Nat)
    (counted : ∀ a, counter t a = issued a % 2 ^ 64) :
    ∃ t', runEvents generate apply t events = .ok (t', numberedIDsFrom issued (AllocEvent.requests events)) := by
  induction events generalizing t issued with
  | nil => exact ⟨t, rfl⟩
  | cons event events ih =>
    cases event with
    | other op =>
      exact ih _ issued fun a => by rw [allocator.otherFrame, counted]
    | generate a =>
      obtain ⟨t', generated, bumped⟩ := allocator.generates t a
      have counted' : ∀ b, counter t' b = Function.update issued a (issued a + 1) b % 2 ^ 64 := by
        intro b
        by_cases same : b = a
        · subst same; simp [bumped, counted, Nat.add_mod]
        · simp [bumped, Function.update_noteq same, counted]
      obtain ⟨t'', ran⟩ := ih t' _ counted'
      refine ⟨t'', ?_⟩
      have index : Bytes8.ofUint64 (counter t a + 1) = Bytes8.ofUint64 (issued a + 1) := by
        rw [counted, ← Bytes8.ofUint64_mod, Nat.add_mod, Nat.mod_mod, ← Nat.add_mod, Bytes8.ofUint64_mod]
      simp only [runEvents, generated, ran, AllocEvent.requests, numberedIDsFrom, index]

end Run

/-- The counter `storageIndex` keeps for an address: the last index handed out. -/
def indexCounter (storageIndex : AList (fun _ : Address => StorageIndex)) (a : Address) : Nat :=
  ((storageIndex.lookup a).getD storageIndexUndefined).toUint64

@[simp] theorem indexCounter_empty (a : Address) : indexCounter ∅ a = 0 := by
  simp [indexCounter, storageIndexUndefined]

private theorem generateStorageIDFrom_counter (storageIndex : AList (fun _ : Address => StorageIndex)) (a : Address) :
    indexCounter (generateStorageIDFrom storageIndex a).2 =
      Function.update (indexCounter storageIndex) a ((indexCounter storageIndex a + 1) % 2 ^ 64) := by
  funext b
  by_cases same : b = a
  · subst same
    simp [indexCounter, generateStorageIDFrom, AList.lookup_insert, StorageIndex.next]
  · simp [indexCounter, generateStorageIDFrom, AList.lookup_insert_ne same, Function.update_noteq same]

namespace InMemBaseStorage

variable {ε : Type} (faults : BaseFaults ε)

theorem withFaults_countingAllocator :
    CountingAllocator (withFaults faults).generateStorageID
      (fun base call => ((withFaults faults).runCalls base [call]).1)
      (fun base => indexCounter base.storageIndex) where
  generates base a := ⟨_, rfl, generateStorageIDFrom_counter base.storageIndex a⟩
  otherFrame base call := by rw [withFaults_runCalls_storageIndex]

@[simp] theorem generateStorageID_storageIndex (base : InMemBaseStorage) (a : Address) :
    (base.generateStorageID a).2.storageIndex = (generateStorageIDFrom base.storageIndex a).2 := rfl

variable {faults}

private theorem withFaults_store_storageIndex {base base' : InMemBaseStorage} {id : StorageID} {data : Bytes}
    (stored : (withFaults faults).store base id data = .ok base') : base'.storageIndex = base.storageIndex := by
  simp only [withFaults] at stored
  split at stored <;> cases stored
  rfl

private theorem withFaults_remove_storageIndex {base base' : InMemBaseStorage} {id : StorageID}
    (removed : (withFaults faults).remove base id = .ok base') : base'.storageIndex = base.storageIndex := by
  simp only [withFaults] at removed
  split at removed <;> cases removed
  rfl

end InMemBaseStorage

/-- The calls on a `BasicSlabStorage` that change it, besides `GenerateStorageID`. -/
inductive BasicSlabStorage.Call where
  | store (id : StorageID) (slab : Slab)
  | remove (id : StorageID)

def BasicSlabStorage.applyCall (s : BasicSlabStorage) : BasicSlabStorage.Call → BasicSlabStorage
  | .store id slab => s.store id slab
  | .remove id => s.remove id

theorem BasicSlabStorage.countingAllocator :
    CountingAllocator (fun (s : BasicSlabStorage) a => (.ok (s.generateStorageID a) : Except Unit _))
      BasicSlabStorage.applyCall (fun s => indexCounter s.storageIndex) where
  generates s a := ⟨_, rfl, generateStorageIDFrom_counter s.storageIndex a⟩
  otherFrame s call := by cases call <;> rfl

namespace PersistentSlabStorage

variable {ε S : Type} {faults : BaseFaults ε} (codec : Codec ε S)

/-- The counters of a persistent storage: `tempStorageIndex` for temporary ids, the
base store's `storageIndex` for the others. -/
def idCounter (s : PersistentSlabStorage InMemBaseStorage S) (a : Address) : Nat :=
  if a = addressUndefined then s.tempStorageIndex else indexCounter s.baseStorage.storageIndex a

private theorem store_withFaults_storageIndex (s : PersistentSlabStorage InMemBaseStorage S) (id : StorageID) (slab : S) :
    (s.store (InMemBaseStorage.withFaults faults) codec id slab).1.baseStorage.storageIndex =
      s.baseStorage.storageIndex := by
  unfold store
  split
  · split
    · rfl
    · split
      · rfl
      · rename_i stored; exact InMemBaseStorage.withFaults_store_storageIndex stored
  · rfl

private theorem remove_withFaults_storageIndex (s : PersistentSlabStorage InMemBaseStorage S) (id : StorageID) :
    (s.remove (InMemBaseStorage.withFaults faults) id).1.baseStorage.storageIndex = s.baseStorage.storageIndex := by
  unfold remove
  split
  · split
    · rfl
    · rename_i removed; exact InMemBaseStorage.withFaults_remove_storageIndex removed
  · rfl

private theorem LoopOutcome.withFaults_storageIndex {plan : StorageID → Except ε BaseCall}
    {step : StorageID → SlabMap S → SlabMap S} {keys : List StorageID} {base : InMemBaseStorage}
    {cache : SlabMap S} {result : InMemBaseStorage × SlabMap S × Option ε}
    (outcome : LoopOutcome (InMemBaseStorage.withFaults faults) plan step keys base cache result) :
    result.1.storageIndex = base.storageIndex := by
  obtain ⟨-, -, calls, -, ran, -⟩ := outcome
  have kept : ((InMemBaseStorage.withFaults faults).runCalls base calls).1.storageIndex = base.storageIndex :=
    InMemBaseStorage.withFaults_runCalls_storageIndex _ _
  rwa [ran] at kept

private theorem commit_withFaults_storageIndex (s : PersistentSlabStorage InMemBaseStorage S) :
    (commit (InMemBaseStorage.withFaults faults) codec s).1.baseStorage.storageIndex = s.baseStorage.storageIndex :=
  (commit_outcome (InMemBaseStorage.withFaults faults) codec s).withFaults_storageIndex

private theorem fastCommit_withFaults_storageIndex (s : PersistentSlabStorage InMemBaseStorage S)
    (arrivals : List (EncodedSlabs ε)) :
    (fastCommit (InMemBaseStorage.withFaults faults) s arrivals).1.baseStorage.storageIndex =
      s.baseStorage.storageIndex := by
  rcases fastCommit_outcome (InMemBaseStorage.withFaults faults) s arrivals with
    ⟨_, -, failed⟩ | ⟨_, -, outcome, -⟩
  · rw [failed]
  · exact outcome.withFaults_storageIndex

/-- No call but `GenerateStorageID` moves a counter. -/
theorem applyOp_idCounter (s : PersistentSlabStorage InMemBaseStorage S) (op : StorageOp S) :
    idCounter (applyOp (InMemBaseStorage.withFaults faults) codec s op).1 = idCounter s := by
  have frame : ∀ t : PersistentSlabStorage InMemBaseStorage S, t.tempStorageIndex = s.tempStorageIndex →
      t.baseStorage.storageIndex = s.baseStorage.storageIndex → idCounter t = idCounter s := by
    intro t sameTemp sameIndex
    funext a
    simp only [idCounter, sameTemp, sameIndex]
  cases op with
  | store id slab => exact frame _ (store_tempStorageIndex ..) (store_withFaults_storageIndex ..)
  | remove id => exact frame _ (remove_tempStorageIndex ..) (remove_withFaults_storageIndex ..)
  | retrieve id => simp only [applyOp]; rw [retrieve_eq_cache]; rfl
  | commit => exact frame (commit _ codec s).1 (commit_tempStorageIndex ..) (commit_withFaults_storageIndex ..)
  | fastCommit choice =>
    exact frame _ (fastCommit_tempStorageIndex ..) (fastCommit_withFaults_storageIndex s (arrivalsAt codec s choice))
  | dropDeltas => rfl
  | dropCache => rfl

theorem withFaults_countingAllocator :
    CountingAllocator (generateStorageID (InMemBaseStorage.withFaults faults))
      (fun s op => (applyOp (InMemBaseStorage.withFaults faults) codec s op).1) idCounter where
  generates s a := by
    by_cases temporary : a = addressUndefined
    · subst temporary
      refine ⟨{ s with tempStorageIndex := (s.tempStorageIndex + 1) % 2 ^ 64 }, ?_, ?_⟩
      · simp only [generateStorageID, if_pos, idCounter, newStorageID]
        rw [Bytes8.ofUint64_mod]
      · funext b
        by_cases same : b = addressUndefined
        · subst same; simp [idCounter]
        · simp [idCounter, same, Function.update_noteq same]
    · refine ⟨{ s with baseStorage := (s.baseStorage.generateStorageID a).2 }, ?_, ?_⟩
      · simp only [generateStorageID, idCounter, if_neg temporary, InMemBaseStorage.withFaults]
        rfl
      · funext b
        by_cases same : b = a
        · subst same; simp [idCounter, temporary, generateStorageIDFrom_counter]
        · by_cases undefined : b = addressUndefined
          · subst undefined; simp [idCounter, Function.update_noteq same]
          · simp [idCounter, undefined, Function.update_noteq same, generateStorageIDFrom_counter]
  otherFrame s op := applyOp_idCounter codec s op

end PersistentSlabStorage

private theorem nodup_valid_numberedIDs {requests : List Address} (bounded : ∀ a, requests.count a < 2 ^ 64) :
    (numberedIDs requests).Nodup ∧ ∀ id ∈ numberedIDs requests, id.valid = .ok () := by
  have bounded' : ∀ a, (fun _ => 0) a + requests.count a < 2 ^ 64 := fun a => by simpa using bounded a
  exact ⟨nodup_numberedIDsFrom bounded', fun _ => valid_of_mem_numberedIDsFrom bounded'⟩

variable {ε S : Type}

/-- `InMemBaseStorage`, `BasicSlabStorage`, and `PersistentSlabStorage` over an
`InMemBaseStorage`, as their constructors make them, hand the k-th
`GenerateStorageID(a)` of any run index k, whatever other calls the run makes and
whichever of them fail; while fewer than `2^64` ids are requested for one address,
the ids are distinct and valid. -/
theorem generateStorageID_numbers_per_address (faults : BaseFaults ε) (codec : Codec ε S)
    (segments : AList (fun _ : StorageID => Bytes)) (autoCommit : Bool) :
    (∀ events : List (AllocEvent BaseCall), ∃ base,
      runEvents (InMemBaseStorage.withFaults faults).generateStorageID
        (fun base call => ((InMemBaseStorage.withFaults faults).runCalls base [call]).1)
        (newInMemBaseStorageFromMap segments) events = .ok (base, numberedIDs (AllocEvent.requests events))) ∧
    (∀ events : List (AllocEvent BasicSlabStorage.Call), ∃ s,
      runEvents (fun (s : BasicSlabStorage) a => (.ok (s.generateStorageID a) : Except Unit _))
        BasicSlabStorage.applyCall newBasicSlabStorage events = .ok (s, numberedIDs (AllocEvent.requests events))) ∧
    (∀ events : List (AllocEvent (StorageOp S)), ∃ s,
      runEvents (PersistentSlabStorage.generateStorageID (InMemBaseStorage.withFaults faults))
        (fun s op => (PersistentSlabStorage.applyOp (InMemBaseStorage.withFaults faults) codec s op).1)
        (newPersistentSlabStorage (newInMemBaseStorageFromMap segments) (if autoCommit then [withAutoCommit] else []))
        events = .ok (s, numberedIDs (AllocEvent.requests events))) ∧
    ∀ requests : List Address, (∀ a, requests.count a < 2 ^ 64) →
      (numberedIDs requests).Nodup ∧ ∀ id ∈ numberedIDs requests, id.valid = .ok () := by
  refine ⟨fun events => ?_, fun events => ?_, fun events => ?_, fun _ bounded => nodup_valid_numberedIDs bounded⟩
  · exact (InMemBaseStorage.withFaults_countingAllocator faults).runEvents_eq events _ _ fun a => by
      simp [newInMemBaseStorageFromMap]
  · exact BasicSlabStorage.countingAllocator.runEvents_eq events _ _ fun a => by simp [newBasicSlabStorage]
  · refine (PersistentSlabStorage.withFaults_countingAllocator codec).runEvents_eq events _ _ fun a => ?_
    cases autoCommit <;>
      simp [PersistentSlabStorage.idCounter, newPersistentSlabStorage, withAutoCommit, newInMemBaseStorageFromMap]

end Atree

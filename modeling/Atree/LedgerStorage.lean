import Atree.Reporter

/-! `LedgerBaseStorage` over an account `Ledger`, which lies outside `src/`. Over the
ledger the spec describes it answers and counts as `InMemBaseStorage` does, as long
as no empty segment is stored. -/

namespace Atree

/-- The `Ledger` calls `LedgerBaseStorage` makes, over a ledger state `τ`. -/
structure Ledger (τ ε : Type) where
  getValue : τ → Bytes → Bytes → Except ε Bytes
  setValue : τ → Bytes → Bytes → Bytes → Except ε τ
  allocateStorageIndex : τ → Bytes → Except ε (StorageIndex × τ)

namespace LedgerBaseStorage

variable {τ ε : Type} (ledger : Ledger τ ε) (slabPrefix : Bytes)

/-- `[]byte(LedgerBaseStorageSlabPrefix + string(id.Index[:]))`; the prefix is declared
outside `src/`. -/
def prefixedKey (id : StorageID) : Bytes := slabPrefix ++ id.index.bytes

/-- `NewLedgerBaseStorage(ledger)` behind the `BaseStorage` interface, without its
usage counters. -/
def newLedgerBaseStorage : BaseStorage τ ε where
  store t id data := ledger.setValue t id.address.bytes (prefixedKey slabPrefix id) data
  retrieve t id :=
    (ledger.getValue t id.address.bytes (prefixedKey slabPrefix id)).map fun v => (v, decide (0 < v.length))
  remove t id := ledger.setValue t id.address.bytes (prefixedKey slabPrefix id) []
  generateStorageID t address :=
    (ledger.allocateStorageIndex t address.bytes).map fun (index, t') => (newStorageID address index, t')

private theorem prefixedKey_injective {id id' : StorageID} (sameOwner : id.address.bytes = id'.address.bytes)
    (sameKey : prefixedKey slabPrefix id = prefixedKey slabPrefix id') : id = id' := by
  obtain ⟨⟨address, _⟩, ⟨index, _⟩⟩ := id
  obtain ⟨⟨address', _⟩, ⟨index', _⟩⟩ := id'
  obtain rfl : index = index' := List.append_cancel_left sameKey
  obtain rfl : address = address' := sameOwner
  rfl

end LedgerBaseStorage

/-- Modelled from the spec: the account ledger of its external interfaces, a map from
owner and key to value in which setting the empty value deletes. The spec says only
that `allocate_index` hands out a new index under the owner; here each owner's
indices are numbered in turn, as `InMemBaseStorage` numbers them. It never fails. -/
structure SpecLedger where
  values : AList (fun _ : Bytes × Bytes => Bytes)
  indices : AList (fun _ : Bytes => StorageIndex)

def SpecLedger.empty : SpecLedger := ⟨∅, ∅⟩

def specLedger {ε : Type} : Ledger SpecLedger ε where
  getValue t owner key := .ok ((t.values.lookup (owner, key)).getD [])
  setValue t owner key value :=
    .ok { t with values := if value = [] then t.values.erase (owner, key) else t.values.insert (owner, key) value }
  allocateStorageIndex t owner :=
    let index := ((t.indices.lookup owner).getD storageIndexUndefined).next
    .ok (index, { t with indices := t.indices.insert owner index })

namespace LedgerBaseStorage

variable {ε : Type} (slabPrefix : Bytes)

/-- The spec's ledger holds each slab's segment under its owner and key as the
in-memory store holds it under its id, and the in-memory store holds no empty segment. -/
structure Agrees (t : SpecLedger) (base : InMemBaseStorage) : Prop where
  lookup : ∀ id, t.values.lookup (id.address.bytes, prefixedKey slabPrefix id) = base.segments.lookup id
  nonEmpty : ∀ id seg, base.segments.lookup id = some seg → seg ≠ []

private theorem agrees_empty : Agrees slabPrefix SpecLedger.empty newInMemBaseStorage :=
  ⟨fun _ => rfl, fun _ _ found => by cases found⟩

variable {slabPrefix}

theorem Agrees.retrieve {t : SpecLedger} {base : InMemBaseStorage} (agrees : Agrees slabPrefix t base)
    (id : StorageID) :
    (newLedgerBaseStorage (specLedger : Ledger SpecLedger ε) slabPrefix).retrieve t id =
      (InMemBaseStorage.reliable : BaseStorage InMemBaseStorage ε).retrieve base id := by
  simp only [newLedgerBaseStorage, specLedger, InMemBaseStorage.reliable, InMemBaseStorage.withFaults,
    BaseFaults.none, InMemBaseStorage.retrieve, agrees.lookup id, Except.map]
  cases found : base.segments.lookup id with
  | none => rfl
  | some seg => simp [List.length_pos.mpr (agrees.nonEmpty id seg found)]

private theorem lookup_insert_prefixedKey {values : AList (fun _ : Bytes × Bytes => Bytes)} {id id' : StorageID}
    (differ : id' ≠ id) (data : Bytes) :
    (values.insert (id.address.bytes, prefixedKey slabPrefix id) data).lookup
      (id'.address.bytes, prefixedKey slabPrefix id') =
      values.lookup (id'.address.bytes, prefixedKey slabPrefix id') :=
  AList.lookup_insert_ne fun same => differ (prefixedKey_injective slabPrefix
    (congrArg Prod.fst same) (congrArg Prod.snd same))

private theorem lookup_erase_prefixedKey {values : AList (fun _ : Bytes × Bytes => Bytes)} {id id' : StorageID}
    (differ : id' ≠ id) :
    (values.erase (id.address.bytes, prefixedKey slabPrefix id)).lookup
      (id'.address.bytes, prefixedKey slabPrefix id') =
      values.lookup (id'.address.bytes, prefixedKey slabPrefix id') :=
  AList.lookup_erase_ne fun same => differ (prefixedKey_injective slabPrefix
    (congrArg Prod.fst same) (congrArg Prod.snd same))

private theorem getD_lookup_setValue (values : AList (fun _ : Bytes × Bytes => Bytes)) (key : Bytes × Bytes) (data : Bytes) :
    ((if data = [] then values.erase key else values.insert key data).lookup key).getD [] = data := by
  split_ifs with empty
  · rw [AList.lookup_erase, Option.getD_none, empty]
  · rw [AList.lookup_insert, Option.getD_some]

private theorem lookup_setValue_prefixedKey {values : AList (fun _ : Bytes × Bytes => Bytes)} {id id' : StorageID}
    (differ : id' ≠ id) (data : Bytes) :
    (if data = [] then values.erase (id.address.bytes, prefixedKey slabPrefix id)
        else values.insert (id.address.bytes, prefixedKey slabPrefix id) data).lookup
      (id'.address.bytes, prefixedKey slabPrefix id') =
      values.lookup (id'.address.bytes, prefixedKey slabPrefix id') := by
  split_ifs
  · exact lookup_erase_prefixedKey differ
  · exact lookup_insert_prefixedKey differ data

/-- A call that stores no empty segment succeeds on both stores and keeps them agreeing. -/
theorem Agrees.call {t : SpecLedger} {base : InMemBaseStorage} (agrees : Agrees slabPrefix t base)
    {call : BaseCall} (nonEmpty : ∀ id data, call = .store id data → data ≠ []) :
    ∃ t' base', (newLedgerBaseStorage (specLedger : Ledger SpecLedger ε) slabPrefix).call t call = .ok t' ∧
      (InMemBaseStorage.reliable : BaseStorage InMemBaseStorage ε).call base call = .ok base' ∧
      Agrees slabPrefix t' base' := by
  cases call with
  | store id data =>
    have written := nonEmpty id data rfl
    refine ⟨_, _, rfl, rfl, fun id' => ?_, fun id' seg found => ?_⟩
    · by_cases same : id' = id
      · subst same
        simp [specLedger, written, InMemBaseStorage.store]
      · simp only [specLedger, written, if_false, InMemBaseStorage.store, BaseFaults.none,
          lookup_insert_prefixedKey same, AList.lookup_insert_ne same, agrees.lookup id']
    · by_cases same : id' = id
      · subst same
        simp only [InMemBaseStorage.store, AList.lookup_insert, Option.some.injEq] at found
        exact found ▸ written
      · simp only [InMemBaseStorage.store, AList.lookup_insert_ne same] at found
        exact agrees.nonEmpty id' seg found
  | remove id =>
    refine ⟨_, _, rfl, rfl, fun id' => ?_, fun id' seg found => ?_⟩
    · by_cases same : id' = id
      · subst same
        simp [specLedger, InMemBaseStorage.remove]
      · simp only [specLedger, if_true, InMemBaseStorage.remove, BaseFaults.none,
          lookup_erase_prefixedKey same, AList.lookup_erase_ne same, agrees.lookup id']
    · by_cases same : id' = id
      · subst same
        simp [InMemBaseStorage.remove] at found
      · simp only [InMemBaseStorage.remove, AList.lookup_erase_ne same] at found
        exact agrees.nonEmpty id' seg found

/-- Runs that store no empty segment keep the stores agreeing. -/
theorem Agrees.runCalls {t : SpecLedger} {base : InMemBaseStorage} (agrees : Agrees slabPrefix t base)
    {calls : List BaseCall} (nonEmpty : ∀ id data, BaseCall.store id data ∈ calls → data ≠ []) :
    Agrees slabPrefix ((newLedgerBaseStorage (specLedger : Ledger SpecLedger ε) slabPrefix).runCalls t calls).1
      ((InMemBaseStorage.reliable : BaseStorage InMemBaseStorage ε).runCalls base calls).1 := by
  induction calls generalizing t base with
  | nil => exact agrees
  | cons call calls ih =>
    obtain ⟨t', base', ledgerCall, inMemCall, agrees'⟩ :=
      agrees.call (fun id data same => nonEmpty id data (same ▸ List.mem_cons_self _ _))
    rw [BaseStorage.runCalls_cons_ok _ _ ledgerCall, BaseStorage.runCalls_cons_ok _ _ inMemCall]
    exact ih agrees' fun id data member => nonEmpty id data (List.mem_cons_of_mem _ member)

/-- Over the spec's ledger, `LedgerBaseStorage` answers every `Retrieve` as
`InMemBaseStorage` does after any run of `Store` and `Remove` calls from empty stores
that stores no empty segment. -/
theorem retrieve_eq_inMem (calls : List BaseCall) (nonEmpty : ∀ id data, BaseCall.store id data ∈ calls → data ≠ [])
    (id : StorageID) :
    (newLedgerBaseStorage (specLedger : Ledger SpecLedger ε) slabPrefix).retrieve
        ((newLedgerBaseStorage (specLedger : Ledger SpecLedger ε) slabPrefix).runCalls SpecLedger.empty calls).1 id =
      (InMemBaseStorage.reliable : BaseStorage InMemBaseStorage ε).retrieve
        ((InMemBaseStorage.reliable : BaseStorage InMemBaseStorage ε).runCalls newInMemBaseStorage calls).1 id :=
  ((agrees_empty slabPrefix).runCalls nonEmpty).retrieve id

theorem retrieve_eq_inMem_of_rewrite :
    (∀ id data, BaseCall.store id data ∈
        [.store storageIDUndefined [1], .remove storageIDUndefined, .store storageIDUndefined [2]] → data ≠ []) ∧
      (newLedgerBaseStorage (specLedger : Ledger SpecLedger Unit) [7]).retrieve
          ((newLedgerBaseStorage (specLedger : Ledger SpecLedger Unit) [7]).runCalls SpecLedger.empty
            [.store storageIDUndefined [1], .remove storageIDUndefined, .store storageIDUndefined [2]]).1
          storageIDUndefined =
        (InMemBaseStorage.reliable : BaseStorage InMemBaseStorage Unit).retrieve
          ((InMemBaseStorage.reliable : BaseStorage InMemBaseStorage Unit).runCalls newInMemBaseStorage
            [.store storageIDUndefined [1], .remove storageIDUndefined, .store storageIDUndefined [2]]).1
          storageIDUndefined := by
  have nonEmpty : ∀ id data, BaseCall.store id data ∈
      [.store storageIDUndefined [1], .remove storageIDUndefined, .store storageIDUndefined [2]] → data ≠ [] := by
    intro id data member
    simp only [List.mem_cons, BaseCall.store.injEq, reduceCtorEq, false_or, List.not_mem_nil, or_false] at member
    rcases member with ⟨-, rfl⟩ | ⟨-, rfl⟩ <;> simp
  exact ⟨nonEmpty, retrieve_eq_inMem _ nonEmpty _⟩

/-- An empty segment is found in the in-memory store and not over the ledger. -/
theorem retrieve_after_empty_store (id : StorageID) :
    (newLedgerBaseStorage (specLedger : Ledger SpecLedger ε) slabPrefix).retrieve
        ((newLedgerBaseStorage (specLedger : Ledger SpecLedger ε) slabPrefix).runCalls SpecLedger.empty
          [.store id []]).1 id = .ok ([], false) ∧
      (InMemBaseStorage.reliable : BaseStorage InMemBaseStorage ε).retrieve
        ((InMemBaseStorage.reliable : BaseStorage InMemBaseStorage ε).runCalls newInMemBaseStorage
          [.store id []]).1 id = .ok ([], true) := by
  refine ⟨rfl, ?_⟩
  simp [InMemBaseStorage.reliable, InMemBaseStorage.withFaults, BaseStorage.runCalls, BaseStorage.call,
    BaseFaults.none, InMemBaseStorage.retrieve, InMemBaseStorage.store, newInMemBaseStorage,
    newInMemBaseStorageFromMap, AList.lookup_insert, -AList.insert_empty]

end LedgerBaseStorage

/-- The counters of a `LedgerBaseStorage`. -/
structure LedgerUsage where
  bytesRetrieved : Int
  bytesStored : Int

/-- The counters `NewLedgerBaseStorage` starts from and `ResetReporter` restores. -/
def LedgerUsage.zero : LedgerUsage := ⟨0, 0⟩

namespace LedgerBaseStorage

variable {τ ε : Type} (ledger : Ledger τ ε) (slabPrefix : Bytes)

/-- `Retrieve`, with what it adds to `bytesRetrieved`: the length of the value
`GetValue` returns, none when it fails. -/
def retrieveCounted (t : τ) (usage : LedgerUsage) (id : StorageID) : Except ε (Bytes × Bool) × LedgerUsage :=
  let value := (ledger.getValue t id.address.bytes (prefixedKey slabPrefix id)).toOption.getD []
  ((newLedgerBaseStorage ledger slabPrefix).retrieve t id,
    { usage with bytesRetrieved := addInt usage.bytesRetrieved value.length })

/-- `Store`, which adds the data's length to `bytesStored` before `SetValue`, whether
that fails or not. -/
def storeCounted (t : τ) (usage : LedgerUsage) (id : StorageID) (data : Bytes) : Except ε τ × LedgerUsage :=
  ((newLedgerBaseStorage ledger slabPrefix).store t id data,
    { usage with bytesStored := addInt usage.bytesStored data.length })

/-- A call's effect on the ledger and the counters; a call that fails leaves the ledger
as it was. -/
def usageStep : τ × LedgerUsage → UsageCall → τ × LedgerUsage
  | (t, usage), .retrieve id => (t, (retrieveCounted ledger slabPrefix t usage id).2)
  | (t, usage), .store id data =>
    ((storeCounted ledger slabPrefix t usage id data).1.toOption.getD t, (storeCounted ledger slabPrefix t usage id data).2)
  | (t, usage), .remove id => (((newLedgerBaseStorage ledger slabPrefix).remove t id).toOption.getD t, usage)
  | (t, _), .resetReporter => (t, LedgerUsage.zero)

/-- The ledger and counters after `calls`. -/
def runUsage (state : τ × LedgerUsage) (calls : List UsageCall) : τ × LedgerUsage :=
  calls.foldl (usageStep ledger slabPrefix) state

end LedgerBaseStorage

namespace LedgerBaseStorage

variable {ε : Type} {slabPrefix : Bytes}

/-- The spec's ledger and the in-memory store hold the same bytes under each slab, the
empty value standing for a missing segment, and their byte counters agree. -/
structure ReportsAlike (slabPrefix : Bytes) (ledgerState : SpecLedger × LedgerUsage)
    (inMemState : InMemBaseStorage × InMemUsage) : Prop where
  bytes : ∀ id, (ledgerState.1.values.lookup (id.address.bytes, prefixedKey slabPrefix id)).getD [] =
    (inMemState.1.segments.lookup id).getD []
  retrieved : ledgerState.2.bytesRetrieved = inMemState.2.bytesRetrieved
  stored : ledgerState.2.bytesStored = inMemState.2.bytesStored

private theorem inMem_retrieve_fst (s : InMemBaseStorage) (id : StorageID) :
    (s.retrieve id).1 = (s.segments.lookup id).getD [] := by
  unfold InMemBaseStorage.retrieve
  split <;> simp_all

theorem ReportsAlike.step {ledgerState : SpecLedger × LedgerUsage} {inMemState : InMemBaseStorage × InMemUsage}
    (alike : ReportsAlike slabPrefix ledgerState inMemState) (call : UsageCall) :
    ReportsAlike slabPrefix (usageStep (specLedger : Ledger SpecLedger ε) slabPrefix ledgerState call)
      (InMemBaseStorage.usageStep inMemState call) := by
  obtain ⟨t, usage⟩ := ledgerState
  obtain ⟨s, usage'⟩ := inMemState
  obtain ⟨bytes, retrieved, stored⟩ := alike
  dsimp only at bytes retrieved stored
  cases call with
  | retrieve id =>
    refine ⟨bytes, ?_, stored⟩
    simp only [usageStep, retrieveCounted, specLedger, retrieved, Except.toOption, bytes id, Option.getD_some,
      InMemBaseStorage.usageStep, InMemBaseStorage.retrieveCounted, inMem_retrieve_fst]
  | store id data =>
    refine ⟨fun id' => ?_, retrieved, by
      simp only [usageStep, storeCounted, stored, InMemBaseStorage.usageStep, InMemBaseStorage.storeCounted]⟩
    simp only [usageStep, storeCounted, newLedgerBaseStorage, specLedger, Except.toOption, Option.getD_some,
      InMemBaseStorage.usageStep, InMemBaseStorage.storeCounted, InMemBaseStorage.store]
    by_cases same : id' = id
    · subst same
      rw [getD_lookup_setValue, AList.lookup_insert, Option.getD_some]
    · rw [lookup_setValue_prefixedKey same, AList.lookup_insert_ne same, bytes id']
  | remove id =>
    refine ⟨fun id' => ?_, retrieved, stored⟩
    simp only [usageStep, newLedgerBaseStorage, specLedger, Except.toOption, Option.getD_some, ↓reduceIte,
      InMemBaseStorage.usageStep, InMemBaseStorage.removeCounted, InMemBaseStorage.remove]
    by_cases same : id' = id
    · subst same
      rw [AList.lookup_erase, AList.lookup_erase]
    · rw [lookup_erase_prefixedKey same, AList.lookup_erase_ne same, bytes id']
  | resetReporter => exact ⟨bytes, rfl, rfl⟩

theorem ReportsAlike.runUsage {ledgerState : SpecLedger × LedgerUsage} {inMemState : InMemBaseStorage × InMemUsage}
    (alike : ReportsAlike slabPrefix ledgerState inMemState) (calls : List UsageCall) :
    ReportsAlike slabPrefix (runUsage (specLedger : Ledger SpecLedger ε) slabPrefix ledgerState calls)
      (InMemBaseStorage.runUsage inMemState calls) := by
  induction calls generalizing ledgerState inMemState with
  | nil => exact alike
  | cons call calls ih => exact ih (alike.step call)

/-- Over the spec's ledger, after every run of calls from empty stores, empty segments
included, `LedgerBaseStorage` reports the `BytesRetrieved()` and `BytesStored()` that
`InMemBaseStorage` reports, and its `Retrieve` returns the same bytes. -/
theorem reports_bytes_as_inMem (calls : List UsageCall) :
    (runUsage (specLedger : Ledger SpecLedger ε) slabPrefix (SpecLedger.empty, LedgerUsage.zero) calls).2.bytesRetrieved =
        (InMemBaseStorage.runUsage (newInMemBaseStorage, InMemUsage.zero) calls).2.bytesRetrieved ∧
      (runUsage (specLedger : Ledger SpecLedger ε) slabPrefix (SpecLedger.empty, LedgerUsage.zero) calls).2.bytesStored =
        (InMemBaseStorage.runUsage (newInMemBaseStorage, InMemUsage.zero) calls).2.bytesStored ∧
      ∀ id, ((newLedgerBaseStorage (specLedger : Ledger SpecLedger ε) slabPrefix).retrieve
          (runUsage (specLedger : Ledger SpecLedger ε) slabPrefix (SpecLedger.empty, LedgerUsage.zero) calls).1 id).map
          Prod.fst =
        .ok ((InMemBaseStorage.runUsage (newInMemBaseStorage, InMemUsage.zero) calls).1.retrieve id).1 := by
  have alike := @ReportsAlike.runUsage ε slabPrefix (SpecLedger.empty, LedgerUsage.zero)
    (newInMemBaseStorage, InMemUsage.zero) ⟨fun _ => rfl, rfl, rfl⟩ calls
  refine ⟨alike.retrieved, alike.stored, fun id => ?_⟩
  rw [inMem_retrieve_fst, ← alike.bytes id]
  rfl

end LedgerBaseStorage

end Atree

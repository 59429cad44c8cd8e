import Atree.Persistent.Order

/-! What `Commit` does to the base store and the read cache: one call per owned
delta, in the order of `sortedOwnedDeltaKeys`, stopping at the first error, and
afterwards no delta at all, owned or temporary. -/

namespace Atree

namespace PersistentSlabStorage

variable {σ ε S : Type} (B : BaseStorage σ ε) (codec : Codec ε S)

/-- The call `Commit` makes for one key, or the error encoding its slab fails with. -/
def deltaCall (deltas : SlabMap S) (id : StorageID) : Except ε BaseCall :=
  match deltas.get id with
  | none => .ok (.remove id)
  | some slab =>
    match codec.encode slab with
    | .ok data => .ok (.store id data)
    | .error err => .error err

/-- How `Commit` updates the read cache once the call for `id` succeeded. -/
def cacheStep (deltas : SlabMap S) (id : StorageID) (cache : SlabMap S) : SlabMap S :=
  match deltas.get id with
  | some slab => cache.insert id (some slab)
  | none => cache

/-- What a commit loop over `keys` leaves, for a loop whose call for each key is
`plan id` and which updates the cache by `step` after each successful call: the
calls of a prefix of the keys were issued and their cache updates made, and only a
loop that went through every key reports no error. -/
def LoopOutcome (plan : StorageID → Except ε BaseCall) (step : StorageID → SlabMap S → SlabMap S)
    (keys : List StorageID) (base : σ) (cache : SlabMap S) (result : σ × SlabMap S × Option ε) : Prop :=
  ∃ k ≤ keys.length, ∃ calls, List.Forall₂ (fun id call => plan id = .ok call) (keys.take k) calls ∧
    B.runCalls base calls = (result.1, none) ∧
    result.2.1 = (keys.take k).foldl (fun cache id => step id cache) cache ∧
    (result.2.2 = none → k = keys.length)

variable {B} {plan : StorageID → Except ε BaseCall} {step : StorageID → SlabMap S → SlabMap S}

theorem LoopOutcome.stop {id : StorageID} {ids : List StorageID} {base : σ} {cache : SlabMap S}
    (err : ε) : LoopOutcome B plan step (id :: ids) base cache (base, cache, some err) :=
  ⟨0, Nat.zero_le _, [], .nil, rfl, rfl, nofun⟩

theorem LoopOutcome.cons {id : StorageID} {ids : List StorageID} {base base' : σ}
    {cache cache' : SlabMap S} {call : BaseCall} {result : σ × SlabMap S × Option ε}
    (planned : plan id = .ok call) (called : B.call base call = .ok base')
    (stepped : step id cache = cache') (rest : LoopOutcome B plan step ids base' cache' result) :
    LoopOutcome B plan step (id :: ids) base cache result := by
  subst stepped
  obtain ⟨k, bounded, calls, issued, run, cached, complete⟩ := rest
  refine ⟨k + 1, by simpa using bounded, call :: calls, ?_, ?_, ?_, ?_⟩
  · rw [List.take_succ_cons]
    exact .cons planned issued
  · rw [BaseStorage.runCalls_cons_ok B _ called, run]
  · simpa using cached
  · intro done
    simpa using complete done

/-- A successful loop issued the call of every key. -/
theorem LoopOutcome.success {keys : List StorageID} {base : σ} {cache : SlabMap S}
    {result : σ × SlabMap S × Option ε} (outcome : LoopOutcome B plan step keys base cache result)
    (succeeded : result.2.2 = none) :
    ∃ calls, List.Forall₂ (fun id call => plan id = .ok call) keys calls ∧
      B.runCalls base calls = (result.1, none) ∧
      result.2.1 = keys.foldl (fun cache id => step id cache) cache := by
  obtain ⟨k, _, calls, issued, run, cached, complete⟩ := outcome
  rw [complete succeeded, List.take_length] at issued cached
  exact ⟨calls, issued, run, cached⟩

variable (B)

theorem commitLoop_outcome (deltas : SlabMap S) (keys : List StorageID) (base : σ) (cache : SlabMap S) :
    LoopOutcome B (deltaCall codec deltas) (cacheStep deltas) keys base cache
      (commitLoop B codec deltas keys base cache) := by
  induction keys generalizing base cache with
  | nil => exact ⟨0, Nat.zero_le _, [], .nil, rfl, rfl, fun _ => rfl⟩
  | cons id ids ih =>
    cases found : deltas.get id with
    | none =>
      have planned : deltaCall codec deltas id = .ok (.remove id) := by simp [deltaCall, found]
      cases removed : B.remove base id with
      | error err => simpa [commitLoop, found, removed] using LoopOutcome.stop err
      | ok base' =>
        simpa [commitLoop, found, removed] using
          LoopOutcome.cons planned removed (by simp [cacheStep, found]) (ih base' cache)
    | some slab =>
      cases encoded : codec.encode slab with
      | error err => simpa [commitLoop, found, encoded] using LoopOutcome.stop err
      | ok data =>
        have planned : deltaCall codec deltas id = .ok (.store id data) := by
          simp [deltaCall, found, encoded]
        cases stored : B.store base id data with
        | error err => simpa [commitLoop, found, encoded, stored] using LoopOutcome.stop err
        | ok base' =>
          simpa [commitLoop, found, encoded, stored] using
            LoopOutcome.cons planned stored (by simp [cacheStep, found]) (ih base' (cache.insert id (some slab)))

/-- The spec of `Commit`: its base store, cache and error are those of a loop outcome. -/
theorem commit_outcome (s : PersistentSlabStorage σ S) :
    LoopOutcome B (deltaCall codec s.deltas) (cacheStep s.deltas) (sortedOwnedDeltaKeys s.deltas.keys)
      s.baseStorage s.cache ((commit B codec s).1.baseStorage, (commit B codec s).1.cache, (commit B codec s).2) := by
  have outcome := commitLoop_outcome B codec s.deltas (sortedOwnedDeltaKeys s.deltas.keys) s.baseStorage s.cache
  unfold commit
  split <;> simp_all

theorem commit_deltas (s : PersistentSlabStorage σ S) :
    (commit B codec s).1.deltas = match (commit B codec s).2 with
      | none => ∅
      | some _ => s.deltas := by
  unfold commit
  split <;> simp_all

@[simp] theorem commit_tempStorageIndex (s : PersistentSlabStorage σ S) :
    (commit B codec s).1.tempStorageIndex = s.tempStorageIndex := by
  unfold commit; split <;> rfl

@[simp] theorem commit_autoCommit (s : PersistentSlabStorage σ S) :
    (commit B codec s).1.autoCommit = s.autoCommit := by
  unfold commit; split <;> rfl

/-- A loop whose calls are each about their own key issues calls on its keys only. -/
theorem map_id_of_forall₂ (planOwnId : ∀ id call, plan id = .ok call → call.id = id)
    {keys : List StorageID} {calls : List BaseCall}
    (issued : List.Forall₂ (fun id call => plan id = .ok call) keys calls) :
    calls.map BaseCall.id = keys := by
  induction issued with
  | nil => rfl
  | cons planned _ ih => rw [List.map_cons, ih, planOwnId _ _ planned]

/-- Cache updates on other keys leave the cache under `id` as it was. -/
theorem lookup_foldl_step_of_not_mem {id : StorageID} (stepFrame : ∀ key cache, key ≠ id → (step key cache).lookup id = cache.lookup id)
    {keys : List StorageID} (cache : SlabMap S) (absent : id ∉ keys) :
    (keys.foldl (fun cache key => step key cache) cache).lookup id = cache.lookup id := by
  induction keys generalizing cache with
  | nil => rfl
  | cons key keys ih =>
    simp only [List.mem_cons, not_or] at absent
    rw [List.foldl_cons, ih _ absent.2, stepFrame _ _ (Ne.symm absent.1)]

theorem deltaCall_id {deltas : SlabMap S} {id : StorageID} {call : BaseCall}
    (planned : deltaCall codec deltas id = .ok call) : call.id = id := by
  unfold deltaCall at planned
  split at planned
  · cases planned; rfl
  · split at planned
    · cases planned; rfl
    · cases planned

theorem cacheStep_lookup_ne (deltas : SlabMap S) {key id : StorageID} (cache : SlabMap S) (other : key ≠ id) :
    (cacheStep deltas key cache).lookup id = cache.lookup id := by
  unfold cacheStep
  split
  · exact AList.lookup_insert_ne (Ne.symm other)
  · rfl

/-- A successful `Commit` calls the base store once for each owned delta, a `Remove`
for a deleted slab and a `Store` of the encoding otherwise, in the order of the
keys: ascending (`AddressAsUint64`, `IndexAsUint64`), which is the order of the raw
bytes, whatever order the map iteration yielded the keys in. -/
theorem commit_calls_sorted_owned_deltas (s : PersistentSlabStorage σ S)
    (committed : (commit B codec s).2 = none) :
    (∃ calls, List.Forall₂ (fun id call => deltaCall codec s.deltas id = .ok call)
        (sortedOwnedDeltaKeys s.deltas.keys) calls ∧
      B.runCalls s.baseStorage calls = ((commit B codec s).1.baseStorage, none)) ∧
    (sortedOwnedDeltaKeys s.deltas.keys).Perm (s.deltas.keys.filter StorageID.owned) ∧
    (sortedOwnedDeltaKeys s.deltas.keys).Sorted (fun a b => a.addressAsUint64 < b.addressAsUint64 ∨
      (a.addressAsUint64 = b.addressAsUint64 ∧ a.indexAsUint64 < b.indexAsUint64)) ∧
    (sortedOwnedDeltaKeys s.deltas.keys).Sorted (fun a b => a.rawBytes < b.rawBytes) ∧
    ∀ order : List StorageID, order.Perm s.deltas.keys →
      sortedOwnedDeltaKeys order = sortedOwnedDeltaKeys s.deltas.keys := by
  obtain ⟨calls, issued, run, -⟩ := (commit_outcome B codec s).success committed
  have strict := sortedOwnedDeltaKeys_strictly_sorted s.deltas.keys_nodup
  refine ⟨⟨calls, issued, run⟩, sortedOwnedDeltaKeys_perm _, ?_, ?_, fun order perm =>
    sortedOwnedDeltaKeys_eq_of_perm perm⟩
  · exact strict.imp (fun less => (storageIDLess_iff_lex _ _).mp less)
  · exact strict.imp (fun less => (storageIDLess_iff_rawBytes _ _).mp less)

/-- An owned id: its address is not `AddressUndefined`. -/
def ownedID : StorageID := ⟨Bytes8.ofUint64 1, Bytes8.ofUint64 1⟩

/-- A second owned id under the same address, allocated after `ownedID`. -/
def nextOwnedID : StorageID := ⟨Bytes8.ofUint64 1, Bytes8.ofUint64 2⟩

/-- A fresh storage over an empty store after `Store(nextOwnedID)`, `Store(ownedID)`
and `Remove` of a temporary id. -/
def pendingWrites : PersistentSlabStorage InMemBaseStorage Unit :=
  let fresh := newPersistentSlabStorage newInMemBaseStorage []
  let first := (fresh.store InMemBaseStorage.reliable unitCodec nextOwnedID ()).1
  let second := (first.store InMemBaseStorage.reliable unitCodec ownedID ()).1
  (second.remove (InMemBaseStorage.reliable : BaseStorage _ Unit) ⟨addressUndefined, Bytes8.ofUint64 1⟩).1

theorem commit_calls_sorted_owned_deltas_of_pendingWrites :
    (∃ calls, List.Forall₂ (fun id call => deltaCall unitCodec pendingWrites.deltas id = .ok call)
        (sortedOwnedDeltaKeys pendingWrites.deltas.keys) calls ∧
      (InMemBaseStorage.reliable : BaseStorage _ Unit).runCalls pendingWrites.baseStorage calls =
        ((commit InMemBaseStorage.reliable unitCodec pendingWrites).1.baseStorage, none)) ∧
    (sortedOwnedDeltaKeys pendingWrites.deltas.keys).Perm (pendingWrites.deltas.keys.filter StorageID.owned) ∧
    (sortedOwnedDeltaKeys pendingWrites.deltas.keys).Sorted (fun a b => a.addressAsUint64 < b.addressAsUint64 ∨
      (a.addressAsUint64 = b.addressAsUint64 ∧ a.indexAsUint64 < b.indexAsUint64)) ∧
    (sortedOwnedDeltaKeys pendingWrites.deltas.keys).Sorted (fun a b => a.rawBytes < b.rawBytes) ∧
    ∀ order : List StorageID, order.Perm pendingWrites.deltas.keys →
      sortedOwnedDeltaKeys order = sortedOwnedDeltaKeys pendingWrites.deltas.keys :=
  commit_calls_sorted_owned_deltas InMemBaseStorage.reliable unitCodec pendingWrites (by decide)

end PersistentSlabStorage

end Atree

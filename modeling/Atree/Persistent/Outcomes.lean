import Atree.Persistent.FastCommit

/-! Commits over a base store that may fail at any call (`InMemBaseStorage.withFaults`):
a failed commit can be retried, and a successful one drops every delta. -/

namespace Atree

namespace PersistentSlabStorage

variable {σ ε S : Type} (codec : Codec ε S)

private theorem retrieve_result_congr (B : BaseStorage σ ε) {s s' : PersistentSlabStorage σ S} {id : StorageID}
    (deltasAt : s.deltas.lookup id = s'.deltas.lookup id) (cacheAt : s.cache.lookup id = s'.cache.lookup id)
    (baseAt : B.retrieve s.baseStorage id = B.retrieve s'.baseStorage id) :
    (s.retrieve B codec id).1 = (s'.retrieve B codec id).1 := by
  unfold retrieve
  rw [deltasAt, cacheAt, baseAt]
  split
  · rfl
  · split
    · rfl
    · split
      · rfl
      · split <;> rfl

private theorem retrieve_result_of_delta (B : BaseStorage σ ε) {s s' : PersistentSlabStorage σ S} {id : StorageID}
    {slab : Option S} (recorded : s.deltas.lookup id = some slab) (recorded' : s'.deltas.lookup id = some slab) :
    (s.retrieve B codec id).1 = (s'.retrieve B codec id).1 := by
  simp [retrieve, recorded, recorded']

theorem commit_snd (B : BaseStorage σ ε) (s : PersistentSlabStorage σ S) :
    (commit B codec s).2 =
      (commitLoop B codec s.deltas (sortedOwnedDeltaKeys s.deltas.keys) s.baseStorage s.cache).2.2 := by
  unfold commit
  split <;> simp_all

/-- The cache after `Commit`'s updates for `keys`: the stored slab of every key that has one. -/
theorem lookup_foldl_cacheStep (deltas : SlabMap S) (keys : List StorageID) (cache : SlabMap S)
    (id : StorageID) :
    (keys.foldl (fun cache key => cacheStep deltas key cache) cache).lookup id =
      if id ∈ keys ∧ (deltas.get id).isSome then some (deltas.get id) else cache.lookup id := by
  induction keys generalizing cache with
  | nil => simp
  | cons key keys ih =>
    rw [List.foldl_cons, ih]
    by_cases same : key = id
    · subst same
      unfold cacheStep
      cases found : deltas.get key <;> simp [found, AList.lookup_insert]
    · rw [cacheStep_lookup_ne deltas cache same]
      simp [Ne.symm same]

private theorem forall₂_deltaCall_unique {deltas : SlabMap S} {keys : List StorageID} {calls calls' : List BaseCall}
    (issued : List.Forall₂ (fun id call => deltaCall codec deltas id = .ok call) keys calls)
    (issued' : List.Forall₂ (fun id call => deltaCall codec deltas id = .ok call) keys calls') :
    calls = calls' := by
  induction issued generalizing calls' with
  | nil => exact (List.forall₂_nil_left_iff.mp issued').symm
  | cons planned _ ih =>
    cases issued' with
    | cons planned' rest' =>
      rw [planned] at planned'
      rw [Except.ok.inj planned', ih rest']

variable {faults : BaseFaults ε}

/-- A commit loop whose calls are all planned and none faults goes through. -/
theorem commitLoop_withFaults_succeeds (deltas : SlabMap S) {keys : List StorageID} {calls : List BaseCall}
    (issued : List.Forall₂ (fun id call => deltaCall codec deltas id = .ok call) keys calls)
    (noFault : ∀ call ∈ calls, faults.failure call = none) (base : InMemBaseStorage) (cache : SlabMap S) :
    (commitLoop (InMemBaseStorage.withFaults faults) codec deltas keys base cache).2.2 = none := by
  induction issued generalizing base cache with
  | nil => rfl
  | @cons id call ids calls planned _ ih =>
    have rest := fun base cache => ih (fun call member => noFault call (List.mem_cons_of_mem _ member)) base cache
    have clear := noFault call (List.mem_cons_self _ _)
    unfold deltaCall at planned
    cases found : deltas.get id with
    | none =>
      simp only [found, Except.ok.injEq] at planned
      subst planned
      simp only [BaseFaults.failure] at clear
      simpa [commitLoop, found, InMemBaseStorage.withFaults, clear] using rest _ _
    | some slab =>
      cases encoded : codec.encode slab with
      | error err => simp [found, encoded] at planned
      | ok data =>
        simp only [found, encoded, Except.ok.injEq] at planned
        subst planned
        simp only [BaseFaults.failure] at clear
        simpa [commitLoop, found, encoded, InMemBaseStorage.withFaults, clear] using rest _ _

/-- Two storages hold the same base segments, allocator state and read cache, as Go
maps: the same value under every id. -/
def SameContent (t t' : PersistentSlabStorage InMemBaseStorage S) : Prop :=
  (∀ id, t.baseStorage.segments.lookup id = t'.baseStorage.segments.lookup id) ∧
    t.baseStorage.storageIndex = t'.baseStorage.storageIndex ∧
    ∀ id, t.cache.lookup id = t'.cache.lookup id

/-- What a failed commit may leave as `s'` from `s`: the same deltas, the same result
of every `Retrieve`, the base store with the calls of a prefix of the sorted owned
deltas applied, and a state from which a successful `Commit` ends where one
successful `Commit` from `s` ends. -/
def RecoverableFailure (faults : BaseFaults ε) (s s' : PersistentSlabStorage InMemBaseStorage S) : Prop :=
  s'.deltas = s.deltas ∧
  (∀ id, (s'.retrieve (InMemBaseStorage.withFaults faults) codec id).1 =
    (s.retrieve (InMemBaseStorage.withFaults faults) codec id).1) ∧
  (∃ k calls, List.Forall₂ (fun id call => deltaCall codec s.deltas id = .ok call)
      ((sortedOwnedDeltaKeys s.deltas.keys).take k) calls ∧
    (InMemBaseStorage.withFaults faults).runCalls s.baseStorage calls = (s'.baseStorage, none)) ∧
  ∀ faults' : BaseFaults ε, (commit (InMemBaseStorage.withFaults faults') codec s').2 = none →
    (commit (InMemBaseStorage.withFaults faults') codec s).2 = none ∧
    SameContent (commit (InMemBaseStorage.withFaults faults') codec s').1
      (commit (InMemBaseStorage.withFaults faults') codec s).1

/-- A state with the same deltas, a prefix of the planned calls applied and the
cache updates of that prefix made is repaired by any successful `Commit`. -/
theorem retry_after_prefix {faults₁ : BaseFaults ε} {s s' : PersistentSlabStorage InMemBaseStorage S}
    {k : Nat} {calls : List BaseCall} (sameDeltas : s'.deltas = s.deltas)
    (issued : List.Forall₂ (fun id call => deltaCall codec s.deltas id = .ok call)
      ((sortedOwnedDeltaKeys s.deltas.keys).take k) calls)
    (ran : (InMemBaseStorage.withFaults faults₁).runCalls s.baseStorage calls = (s'.baseStorage, none))
    (cached : s'.cache = ((sortedOwnedDeltaKeys s.deltas.keys).take k).foldl
      (fun cache key => cacheStep s.deltas key cache) s.cache)
    (faults' : BaseFaults ε) (retried : (commit (InMemBaseStorage.withFaults faults') codec s').2 = none) :
    (commit (InMemBaseStorage.withFaults faults') codec s).2 = none ∧
    SameContent (commit (InMemBaseStorage.withFaults faults') codec s').1
      (commit (InMemBaseStorage.withFaults faults') codec s).1 := by
  obtain ⟨calls', issued', ran', cached'⟩ := (commit_outcome _ codec s').success retried
  rw [sameDeltas] at issued' cached'
  have noFault := (InMemBaseStorage.withFaults_runCalls_none_iff _ _).mp (congrArg Prod.snd ran')
  have direct : (commit (InMemBaseStorage.withFaults faults') codec s).2 = none := by
    rw [commit_snd]
    exact commitLoop_withFaults_succeeds codec s.deltas issued' noFault _ _
  obtain ⟨callsDirect, issuedDirect, ranDirect, cachedDirect⟩ := (commit_outcome _ codec s).success direct
  dsimp only at ran' cached' ranDirect cachedDirect
  obtain rfl := forall₂_deltaCall_unique codec issuedDirect issued'
  have prefixCalls : calls = callsDirect.take k :=
    forall₂_deltaCall_unique codec issued (List.forall₂_take k issued')
  refine ⟨direct, fun id => ?_, ?_, fun id => ?_⟩
  · rw [InMemBaseStorage.withFaults_runCalls_lookup ran' id, InMemBaseStorage.withFaults_runCalls_lookup ran id,
      InMemBaseStorage.withFaults_runCalls_lookup ranDirect id]
    by_cases touched : id ∈ calls.map BaseCall.id
    · rw [prefixCalls, List.map_take] at touched
      exact lastWrite_of_mem (List.mem_of_mem_take touched) _ _
    · rw [lastWrite_of_not_mem touched]
  · have after : ((InMemBaseStorage.withFaults faults').runCalls s'.baseStorage callsDirect).1.storageIndex =
        s'.baseStorage.storageIndex := InMemBaseStorage.withFaults_runCalls_storageIndex _ _
    have before : ((InMemBaseStorage.withFaults faults₁).runCalls s.baseStorage calls).1.storageIndex =
        s.baseStorage.storageIndex := InMemBaseStorage.withFaults_runCalls_storageIndex _ _
    have directIndex : ((InMemBaseStorage.withFaults faults').runCalls s.baseStorage callsDirect).1.storageIndex =
        s.baseStorage.storageIndex := InMemBaseStorage.withFaults_runCalls_storageIndex _ _
    rw [ran'] at after
    rw [ran] at before
    rw [ranDirect] at directIndex
    rw [after, before, directIndex]
  · rw [cached', cachedDirect, cached, lookup_foldl_cacheStep, lookup_foldl_cacheStep, lookup_foldl_cacheStep]
    by_cases present : id ∈ sortedOwnedDeltaKeys s.deltas.keys ∧ (s.deltas.get id).isSome
    · rw [if_pos present, if_pos present]
    · rw [if_neg present, if_neg present, if_neg (fun inPrefix => present ⟨List.mem_of_mem_take inPrefix.1, inPrefix.2⟩)]

private theorem recoverableFailure_self (faults : BaseFaults ε) (s : PersistentSlabStorage InMemBaseStorage S) :
    RecoverableFailure codec faults s s :=
  ⟨rfl, fun _ => rfl, ⟨0, [], by simp, rfl⟩, fun _ retried => ⟨retried, fun _ => rfl, rfl, fun _ => rfl⟩⟩

theorem commit_failure_recoverable (faults : BaseFaults ε) (s : PersistentSlabStorage InMemBaseStorage S)
    (failed : (commit (InMemBaseStorage.withFaults faults) codec s).2.isSome) :
    RecoverableFailure codec faults s (commit (InMemBaseStorage.withFaults faults) codec s).1 := by
  obtain ⟨k, -, calls, issued, ran, cached, -⟩ := commit_outcome (InMemBaseStorage.withFaults faults) codec s
  dsimp only at ran cached
  have sameDeltas : (commit (InMemBaseStorage.withFaults faults) codec s).1.deltas = s.deltas := by
    rw [commit_deltas]
    obtain ⟨err, erred⟩ := Option.isSome_iff_exists.mp failed
    rw [erred]
  refine ⟨sameDeltas, fun id => ?_, ⟨k, calls, issued, ran⟩,
    fun faults' retried => retry_after_prefix codec sameDeltas issued ran cached faults' retried⟩
  cases recorded : s.deltas.lookup id with
  | some slab => exact retrieve_result_of_delta codec _ (sameDeltas ▸ recorded) recorded
  | none =>
    have absent : id ∉ (sortedOwnedDeltaKeys s.deltas.keys).take k := fun member =>
      (AList.lookup_eq_none.mp recorded) (AList.mem_keys.mpr (mem_sortedOwnedDeltaKeys.mp
        (List.mem_of_mem_take member)).1)
    have untouched : id ∉ calls.map BaseCall.id := by
      rwa [map_id_of_forall₂ (fun _ _ => deltaCall_id codec) issued]
    apply retrieve_result_congr codec _ (by rw [sameDeltas])
    · rw [cached, lookup_foldl_step_of_not_mem (fun _ _ other => cacheStep_lookup_ne s.deltas _ other) _ absent]
    · apply InMemBaseStorage.withFaults_retrieve_congr
      have frame : ((InMemBaseStorage.withFaults faults).runCalls s.baseStorage calls).1.segments.lookup id =
          s.baseStorage.segments.lookup id := (InMemBaseStorage.withFaults_runCalls_frame _ _ untouched).1
      rwa [ran] at frame

theorem fastCommit_failure_recoverable (nonEmpty : ∀ slab data, codec.encode slab = .ok data → data ≠ [])
    (faults : BaseFaults ε) (s : PersistentSlabStorage InMemBaseStorage S) (arrivals : List (EncodedSlabs ε))
    (delivered : arrivals.Perm ((sortedOwnedDeltaKeys s.deltas.keys).map (encodeJob codec s.deltas)))
    (failed : (fastCommit (InMemBaseStorage.withFaults faults) s arrivals).2.isSome) :
    RecoverableFailure codec faults s (fastCommit (InMemBaseStorage.withFaults faults) s arrivals).1 ∧
    ((∃ id ∈ sortedOwnedDeltaKeys s.deltas.keys, ∃ slab err,
        s.deltas.get id = some slab ∧ codec.encode slab = .error err) →
      (fastCommit (InMemBaseStorage.withFaults faults) s arrivals).1 = s) := by
  by_cases allEncode : ∀ id ∈ sortedOwnedDeltaKeys s.deltas.keys, ∀ slab, s.deltas.get id = some slab →
      ∃ data, codec.encode slab = .ok data ∧ data ≠ []
  · rw [fastCommit_eq_commit _ codec s arrivals delivered allEncode] at failed ⊢
    refine ⟨commit_failure_recoverable codec faults s failed, ?_⟩
    rintro ⟨id, owned, slab, err, found, erred⟩
    obtain ⟨data, encoded, -⟩ := allEncode id owned slab found
    rw [encoded] at erred
    cases erred
  · push_neg at allEncode
    obtain ⟨id, owned, slab, found, noData⟩ := allEncode
    obtain ⟨err, erred⟩ : ∃ err, codec.encode slab = .error err := by
      cases encoded : codec.encode slab with
      | error err => exact ⟨err, rfl⟩
      | ok data => exact absurd (noData data encoded) (nonEmpty slab data encoded)
    have jobFails : (encodeJob codec s.deltas id).err.isSome := by simp [encodeJob, found, erred]
    have arrived := delivered.symm.subset (List.mem_map_of_mem (encodeJob codec s.deltas) owned)
    obtain ⟨err', received⟩ := receiveResults_of_error arrived jobFails ∅
    have unchanged : fastCommit (InMemBaseStorage.withFaults faults) s arrivals = (s, some err') := by
      simp [fastCommit, received]
    rw [unchanged]
    exact ⟨recoverableFailure_self codec faults s, fun _ => rfl⟩

/-- A failed `Commit`, or a failed `FastCommit` whose encoder output is never empty,
leaves the deltas as they were, every `Retrieve` answering as before, and the base
store with the calls of a prefix of the sorted owned deltas applied (none, when
`FastCommit` fails in `Encode`); a successful `Commit` from there ends with the base
store and cache one successful `Commit` from the start would have left. -/
theorem failed_commit_recoverable (faults : BaseFaults ε) (s : PersistentSlabStorage InMemBaseStorage S) :
    ((commit (InMemBaseStorage.withFaults faults) codec s).2.isSome →
      RecoverableFailure codec faults s (commit (InMemBaseStorage.withFaults faults) codec s).1) ∧
    ((∀ slab data, codec.encode slab = .ok data → data ≠ []) →
      ∀ arrivals, arrivals.Perm ((sortedOwnedDeltaKeys s.deltas.keys).map (encodeJob codec s.deltas)) →
      (fastCommit (InMemBaseStorage.withFaults faults) s arrivals).2.isSome →
      RecoverableFailure codec faults s (fastCommit (InMemBaseStorage.withFaults faults) s arrivals).1 ∧
      ((∃ id ∈ sortedOwnedDeltaKeys s.deltas.keys, ∃ slab err,
          s.deltas.get id = some slab ∧ codec.encode slab = .error err) →
        (fastCommit (InMemBaseStorage.withFaults faults) s arrivals).1 = s)) :=
  ⟨commit_failure_recoverable codec faults s, fun nonEmpty arrivals delivered failed =>
    fastCommit_failure_recoverable codec nonEmpty faults s arrivals delivered failed⟩

/-- A commit loop leaves the segment and the cache entry of an id outside its keys as
they were. -/
theorem LoopOutcome.frame {faults : BaseFaults ε} {plan : StorageID → Except ε BaseCall}
    {step : StorageID → SlabMap S → SlabMap S} {keys : List StorageID} {base : InMemBaseStorage}
    {cache : SlabMap S} {result : InMemBaseStorage × SlabMap S × Option ε}
    (outcome : LoopOutcome (InMemBaseStorage.withFaults faults) plan step keys base cache result)
    (planOwnId : ∀ key call, plan key = .ok call → call.id = key) {id : StorageID}
    (stepFrame : ∀ key cache, key ≠ id → (step key cache).lookup id = cache.lookup id) (absent : id ∉ keys) :
    result.1.segments.lookup id = base.segments.lookup id ∧ result.2.1.lookup id = cache.lookup id := by
  obtain ⟨k, -, calls, issued, ran, cached, -⟩ := outcome
  have untaken : id ∉ keys.take k := fun listed => absent (List.mem_of_mem_take listed)
  have frame : ((InMemBaseStorage.withFaults faults).runCalls base calls).1.segments.lookup id =
      base.segments.lookup id :=
    (InMemBaseStorage.withFaults_runCalls_frame _ _ (by rwa [map_id_of_forall₂ planOwnId issued])).1
  rw [ran] at frame
  exact ⟨frame, by rw [cached, lookup_foldl_step_of_not_mem stepFrame _ untaken]⟩

private theorem retrieve_after_loop {faults : BaseFaults ε} {plan : StorageID → Except ε BaseCall}
    {step : StorageID → SlabMap S → SlabMap S} {s t : PersistentSlabStorage InMemBaseStorage S}
    {keys : List StorageID} {id : StorageID}
    (planOwnId : ∀ key call, plan key = .ok call → call.id = key)
    (stepFrame : ∀ key cache, key ≠ id → (step key cache).lookup id = cache.lookup id)
    (cleared : t.deltas = ∅) (absent : id ∉ keys)
    (outcome : LoopOutcome (InMemBaseStorage.withFaults faults) plan step keys s.baseStorage s.cache
      (t.baseStorage, t.cache, none)) :
    (∃ calls, List.Forall₂ (fun key call => plan key = .ok call) keys calls ∧
        (InMemBaseStorage.withFaults faults).runCalls s.baseStorage calls = (t.baseStorage, none) ∧
        id ∉ calls.map BaseCall.id) ∧
      (t.retrieve (InMemBaseStorage.withFaults faults) codec id).1 =
        (s.dropDeltas.retrieve (InMemBaseStorage.withFaults faults) codec id).1 := by
  obtain ⟨segment, cacheAt⟩ := outcome.frame planOwnId stepFrame absent
  obtain ⟨calls, issued, ran, -⟩ := outcome.success rfl
  refine ⟨⟨calls, issued, ran, by rwa [map_id_of_forall₂ planOwnId issued]⟩,
    retrieve_result_congr codec _ (by rw [cleared]; rfl) cacheAt ?_⟩
  exact InMemBaseStorage.withFaults_retrieve_congr segment

theorem fastCall_id {encSlabByID : AList (fun _ : StorageID => Bytes)} {id : StorageID} {call : BaseCall}
    (planned : (fastCall encSlabByID id : Except ε BaseCall) = .ok call) : call.id = id := by
  unfold fastCall at planned
  split at planned <;> (cases planned; rfl)

theorem fastCacheStep_lookup_ne (deltas : SlabMap S) (encSlabByID : AList (fun _ : StorageID => Bytes))
    {key id : StorageID} (cache : SlabMap S) (other : key ≠ id) :
    (fastCacheStep deltas encSlabByID key cache).lookup id = cache.lookup id := by
  unfold fastCacheStep
  split
  · rfl
  · exact AList.lookup_insert_ne (Ne.symm other)

/-- A successful `Commit` or `FastCommit` calls the base store once for each owned
delta key, in order, so never for a temporary id, and drops its delta with all the
others: `Retrieve(id)` afterwards answers as it does once the deltas are dropped,
from the read cache and the base store. -/
theorem commit_drops_temporary_delta (faults : BaseFaults ε) (s : PersistentSlabStorage InMemBaseStorage S)
    {id : StorageID} (temporary : id.address = addressUndefined) :
    ((commit (InMemBaseStorage.withFaults faults) codec s).2 = none →
      (∃ calls, List.Forall₂ (fun key call => deltaCall codec s.deltas key = .ok call)
          (sortedOwnedDeltaKeys s.deltas.keys) calls ∧
        (InMemBaseStorage.withFaults faults).runCalls s.baseStorage calls =
          ((commit (InMemBaseStorage.withFaults faults) codec s).1.baseStorage, none) ∧
          id ∉ calls.map BaseCall.id) ∧
        ((commit (InMemBaseStorage.withFaults faults) codec s).1.retrieve
          (InMemBaseStorage.withFaults faults) codec id).1 =
          (s.dropDeltas.retrieve (InMemBaseStorage.withFaults faults) codec id).1) ∧
    ∀ arrivals : List (EncodedSlabs ε), (fastCommit (InMemBaseStorage.withFaults faults) s arrivals).2 = none →
      (∃ encSlabByID calls, receiveResults arrivals ∅ = .ok encSlabByID ∧
        List.Forall₂ (fun key call => (fastCall encSlabByID key : Except ε BaseCall) = .ok call)
          (sortedOwnedDeltaKeys s.deltas.keys) calls ∧
        (InMemBaseStorage.withFaults faults).runCalls s.baseStorage calls =
          ((fastCommit (InMemBaseStorage.withFaults faults) s arrivals).1.baseStorage, none) ∧
          id ∉ calls.map BaseCall.id) ∧
        ((fastCommit (InMemBaseStorage.withFaults faults) s arrivals).1.retrieve
          (InMemBaseStorage.withFaults faults) codec id).1 =
          (s.dropDeltas.retrieve (InMemBaseStorage.withFaults faults) codec id).1 := by
  have absent : id ∉ sortedOwnedDeltaKeys s.deltas.keys := fun member =>
    (mem_sortedOwnedDeltaKeys.mp member).2 temporary
  constructor
  · intro committed
    have outcome := commit_outcome (InMemBaseStorage.withFaults faults) codec s
    rw [committed] at outcome
    have cleared := commit_deltas (InMemBaseStorage.withFaults faults) codec s
    rw [committed] at cleared
    exact retrieve_after_loop codec (fun _ _ => deltaCall_id codec)
      (fun _ _ other => cacheStep_lookup_ne s.deltas _ other) cleared absent outcome
  · intro arrivals committed
    rcases fastCommit_outcome (InMemBaseStorage.withFaults faults) s arrivals with
      ⟨_, -, failed⟩ | ⟨encSlabByID, received, outcome, shape⟩
    · rw [failed] at committed
      cases committed
    rw [committed] at outcome shape
    obtain ⟨⟨calls, issued, ran, untouched⟩, read⟩ := retrieve_after_loop codec (fun _ _ => fastCall_id)
      (fun _ _ other => fastCacheStep_lookup_ne s.deltas encSlabByID _ other) (by rw [shape]; rfl) absent outcome
    exact ⟨⟨encSlabByID, calls, received, issued, ran, untouched⟩, read⟩

/-- The first temporary id `GenerateStorageID(AddressUndefined)` hands out. -/
def temporaryID : StorageID := ⟨addressUndefined, Bytes8.ofUint64 1⟩

/-- A fresh storage over an empty store, with one slab stored under `temporaryID`. -/
def temporaryStored : PersistentSlabStorage InMemBaseStorage Unit :=
  ((newPersistentSlabStorage newInMemBaseStorage []).store InMemBaseStorage.reliable unitCodec temporaryID ()).1

theorem commit_drops_temporary_delta_of_temporaryStored :
    ((commit InMemBaseStorage.reliable unitCodec temporaryStored).2 = none →
      (∃ calls, List.Forall₂ (fun key call => deltaCall unitCodec temporaryStored.deltas key = .ok call)
          (sortedOwnedDeltaKeys temporaryStored.deltas.keys) calls ∧
        (InMemBaseStorage.reliable : BaseStorage _ Unit).runCalls temporaryStored.baseStorage calls =
          ((commit InMemBaseStorage.reliable unitCodec temporaryStored).1.baseStorage, none) ∧
          temporaryID ∉ calls.map BaseCall.id) ∧
        ((commit InMemBaseStorage.reliable unitCodec temporaryStored).1.retrieve InMemBaseStorage.reliable unitCodec temporaryID).1 =
          (temporaryStored.dropDeltas.retrieve InMemBaseStorage.reliable unitCodec temporaryID).1) ∧
    ∀ arrivals : List (EncodedSlabs Unit), (fastCommit InMemBaseStorage.reliable temporaryStored arrivals).2 = none →
      (∃ encSlabByID calls, receiveResults arrivals ∅ = .ok encSlabByID ∧
        List.Forall₂ (fun key call => (fastCall encSlabByID key : Except Unit BaseCall) = .ok call)
          (sortedOwnedDeltaKeys temporaryStored.deltas.keys) calls ∧
        (InMemBaseStorage.reliable : BaseStorage _ Unit).runCalls temporaryStored.baseStorage calls =
          ((fastCommit InMemBaseStorage.reliable temporaryStored arrivals).1.baseStorage, none) ∧
          temporaryID ∉ calls.map BaseCall.id) ∧
        ((fastCommit InMemBaseStorage.reliable temporaryStored arrivals).1.retrieve InMemBaseStorage.reliable unitCodec temporaryID).1 =
          (temporaryStored.dropDeltas.retrieve InMemBaseStorage.reliable unitCodec temporaryID).1 :=
  commit_drops_temporary_delta unitCodec BaseFaults.none temporaryStored rfl

/-- A slab stored under a temporary id is found before a successful `Commit` and
gone after it. -/
theorem commit_loses_temporary_slab :
    (temporaryStored.retrieve InMemBaseStorage.reliable unitCodec temporaryID).1 = (some (), true, none) ∧
    (commit InMemBaseStorage.reliable unitCodec temporaryStored).2 = none ∧
    ((commit InMemBaseStorage.reliable unitCodec temporaryStored).1.retrieve InMemBaseStorage.reliable unitCodec temporaryID).1 =
      (none, false, some ()) := by
  decide

/-- Over the in-memory store with any faults, when `DecodeSlab` rejects empty data: a
second `Retrieve` of an id returns what the first one returned, from the read cache
when the first one filled it. A decoder that accepted empty data would have the first
`Retrieve` of a missing slab report it not found and the second, from the cache, found. -/
theorem retrieve_retrieve (rejectsEmpty : ∀ id, ∃ err, codec.decodeSlab id [] = .error err)
    (s : PersistentSlabStorage InMemBaseStorage S) (id : StorageID) :
    ((s.retrieve (InMemBaseStorage.withFaults faults) codec id).2.retrieve (InMemBaseStorage.withFaults faults) codec
      id).1 = (s.retrieve (InMemBaseStorage.withFaults faults) codec id).1 := by
  cases delta : s.deltas.lookup id with
  | some slab => simp only [retrieve, delta]
  | none =>
    cases cached : s.cache.lookup id with
    | some slab => simp only [retrieve, delta, cached]
    | none =>
      cases fault : faults.retrieve id with
      | some err => simp only [retrieve, delta, cached, InMemBaseStorage.withFaults, fault]
      | none =>
        cases found : s.baseStorage.segments.lookup id with
        | none =>
          obtain ⟨err, rejected⟩ := rejectsEmpty id
          simp only [retrieve, delta, cached, InMemBaseStorage.withFaults, InMemBaseStorage.retrieve, fault, found,
            rejected]
        | some seg =>
          cases decoded : codec.decodeSlab id seg <;>
            simp only [retrieve, delta, cached, InMemBaseStorage.withFaults, InMemBaseStorage.retrieve, fault, found,
              decoded, AList.lookup_insert]

theorem retrieve_retrieve_of_unitCodec :
    (∀ id, ∃ err, unitCodec.decodeSlab id [] = .error err) ∧
      (((newPersistentSlabStorage (newInMemBaseStorageFromMap ((∅ : AList _).insert ownedID [1])) [] :
          PersistentSlabStorage InMemBaseStorage Unit).retrieve (InMemBaseStorage.withFaults BaseFaults.none) unitCodec
          ownedID).2.retrieve (InMemBaseStorage.withFaults BaseFaults.none) unitCodec ownedID).1 =
        (some (), true, none) := by
  have rejectsEmpty : ∀ id, ∃ err, unitCodec.decodeSlab id [] = .error err := fun _ => ⟨(), rfl⟩
  exact ⟨rejectsEmpty, (retrieve_retrieve unitCodec rejectsEmpty _ ownedID).trans rfl⟩

end PersistentSlabStorage

end Atree

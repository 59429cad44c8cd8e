import Mathlib.Data.List.Permutation
import Atree.Persistent.Commit

/-! `FastCommit` against `Commit`: its result loop files the encodings by id, so in every
order of delivery, with non-empty encodings, it makes the calls `Commit` makes. -/

namespace Atree

namespace PersistentSlabStorage

variable {σ ε S : Type} (B : BaseStorage σ ε) (codec : Codec ε S)

/-- The call `FastCommit` makes for one key, given what the result loop filed. -/
def fastCall (encSlabByID : AList (fun _ : StorageID => Bytes)) (id : StorageID) : Except ε BaseCall :=
  if (encSlabByID.lookup id).getD [] = [] then .ok (.remove id)
  else .ok (.store id ((encSlabByID.lookup id).getD []))

/-- How `FastCommit` updates the read cache once the call for `id` succeeded. -/
def fastCacheStep (deltas : SlabMap S) (encSlabByID : AList (fun _ : StorageID => Bytes))
    (id : StorageID) (cache : SlabMap S) : SlabMap S :=
  if (encSlabByID.lookup id).getD [] = [] then cache else cache.insert id (deltas.get id)

theorem fastCommitLoop_outcome (deltas : SlabMap S) (encSlabByID : AList (fun _ : StorageID => Bytes))
    (keys : List StorageID) (base : σ) (cache : SlabMap S) :
    LoopOutcome B (fastCall encSlabByID) (fastCacheStep deltas encSlabByID) keys base cache
      (fastCommitLoop B deltas encSlabByID keys base cache) := by
  induction keys generalizing base cache with
  | nil => exact ⟨0, Nat.zero_le _, [], .nil, rfl, rfl, fun _ => rfl⟩
  | cons id ids ih =>
    by_cases empty : (encSlabByID.lookup id).getD [] = []
    · have planned : fastCall encSlabByID id = (.ok (.remove id) : Except ε BaseCall) := by simp [fastCall, empty]
      cases removed : B.remove base id with
      | error err =>
        simpa [fastCommitLoop, empty, removed] using LoopOutcome.stop err
      | ok base' =>
        simpa [fastCommitLoop, empty, removed] using
          LoopOutcome.cons planned removed (by simp [fastCacheStep, empty]) (ih base' cache)
    · have planned : fastCall encSlabByID id =
        (.ok (.store id ((encSlabByID.lookup id).getD [])) : Except ε BaseCall) := by
        simp [fastCall, empty]
      cases stored : B.store base id ((encSlabByID.lookup id).getD []) with
      | error err =>
        simpa [fastCommitLoop, empty, stored] using LoopOutcome.stop err
      | ok base' =>
        simpa [fastCommitLoop, empty, stored] using
          LoopOutcome.cons planned stored (by simp [fastCacheStep, empty]) (ih base' _)

/-- The spec of `FastCommit`: at the first failed result it receives it returns that
error with the state as it was; otherwise it runs its loop of base-store calls over
the results filed by id, clearing the deltas when the loop goes through. -/
theorem fastCommit_outcome (s : PersistentSlabStorage σ S) (arrivals : List (EncodedSlabs ε)) :
    (∃ err, receiveResults arrivals ∅ = .error err ∧ fastCommit B s arrivals = (s, some err)) ∨
      ∃ encSlabByID, receiveResults arrivals ∅ = .ok encSlabByID ∧
        LoopOutcome B (fastCall encSlabByID) (fastCacheStep s.deltas encSlabByID)
          (sortedOwnedDeltaKeys s.deltas.keys) s.baseStorage s.cache
          ((fastCommit B s arrivals).1.baseStorage, (fastCommit B s arrivals).1.cache, (fastCommit B s arrivals).2) ∧
        (fastCommit B s arrivals).1 =
          { s with
            baseStorage := (fastCommit B s arrivals).1.baseStorage
            cache := (fastCommit B s arrivals).1.cache
            deltas := if (fastCommit B s arrivals).2.isNone then ∅ else s.deltas } := by
  cases received : receiveResults arrivals ∅ with
  | error err => exact .inl ⟨err, rfl, by simp only [fastCommit, received]⟩
  | ok encSlabByID =>
    have outcome := fastCommitLoop_outcome B s.deltas encSlabByID (sortedOwnedDeltaKeys s.deltas.keys)
      s.baseStorage s.cache
    obtain ⟨base, cache, result, looped⟩ : ∃ base cache result, fastCommitLoop B s.deltas encSlabByID
        (sortedOwnedDeltaKeys s.deltas.keys) s.baseStorage s.cache = (base, cache, result) := ⟨_, _, _, rfl⟩
    rw [looped] at outcome
    refine .inr ⟨encSlabByID, rfl, ?_⟩
    cases result <;> simp only [fastCommit, received, looped] <;> exact ⟨outcome, rfl⟩

theorem fastCommit_tempStorageIndex (s : PersistentSlabStorage σ S) (arrivals : List (EncodedSlabs ε)) :
    (fastCommit B s arrivals).1.tempStorageIndex = s.tempStorageIndex := by
  rcases fastCommit_outcome B s arrivals with ⟨_, -, failed⟩ | ⟨_, -, -, shape⟩
  · rw [failed]
  · rw [shape]

/-- Filing results by id: the map after inserting `results` in order. -/
def fileResults (results : List (EncodedSlabs ε)) (encSlabByID : AList (fun _ : StorageID => Bytes)) :
    AList (fun _ : StorageID => Bytes) :=
  results.foldl (fun encSlabByID result => encSlabByID.insert result.storageID result.data) encSlabByID

private theorem receiveResults_of_no_error {results : List (EncodedSlabs ε)}
    (noError : ∀ result ∈ results, result.err = none) (encSlabByID : AList (fun _ : StorageID => Bytes)) :
    receiveResults results encSlabByID = .ok (fileResults results encSlabByID) := by
  induction results generalizing encSlabByID with
  | nil => rfl
  | cons result results ih =>
    rw [receiveResults, noError result (List.mem_cons_self _ _)]
    exact ih (fun other member => noError other (List.mem_cons_of_mem _ member)) _

theorem receiveResults_of_error {results : List (EncodedSlabs ε)} {failed : EncodedSlabs ε}
    (member : failed ∈ results) (erred : failed.err.isSome) (encSlabByID : AList (fun _ : StorageID => Bytes)) :
    ∃ err, receiveResults results encSlabByID = .error err := by
  induction results generalizing encSlabByID with
  | nil => cases member
  | cons result results ih =>
    cases found : result.err with
    | some err => exact ⟨err, by rw [receiveResults, found]⟩
    | none =>
      rw [receiveResults, found]
      rcases List.mem_cons.mp member with same | later
      · subst same; simp [found] at erred
      · exact ih later _

private theorem lookup_fileResults {results : List (EncodedSlabs ε)} (distinct : (results.map (·.storageID)).Nodup)
    {result : EncodedSlabs ε} (member : result ∈ results) (encSlabByID : AList (fun _ : StorageID => Bytes)) :
    (fileResults results encSlabByID).lookup result.storageID = some result.data := by
  induction results generalizing encSlabByID with
  | nil => cases member
  | cons first results ih =>
    simp only [List.map_cons, List.nodup_cons, List.mem_map, not_exists, not_and] at distinct
    rcases List.mem_cons.mp member with same | later
    · subst same
      have untouched : ∀ results' : List (EncodedSlabs ε), (∀ other ∈ results', other.storageID ≠ result.storageID) →
          ∀ m : AList (fun _ : StorageID => Bytes), (fileResults results' m).lookup result.storageID = m.lookup result.storageID := by
        intro results' others
        induction results' with
        | nil => intro m; rfl
        | cons other rest ihRest =>
          intro m
          simp only [fileResults, List.foldl_cons] at ihRest ⊢
          rw [ihRest (fun o member => others o (List.mem_cons_of_mem _ member)),
            AList.lookup_insert_ne (Ne.symm (others other (List.mem_cons_self _ _)))]
      simp only [fileResults, List.foldl_cons] at untouched ⊢
      rw [untouched results (fun other member same => distinct.1 other member same), AList.lookup_insert]
    · exact ih distinct.2 later _

@[simp] theorem encodeJob_storageID (deltas : SlabMap S) (id : StorageID) :
    (encodeJob codec deltas id).storageID = id := by
  unfold encodeJob
  split
  · rfl
  · split <;> rfl

theorem encodeJob_err_eq_none {deltas : SlabMap S} {id : StorageID}
    (encodes : ∀ slab, deltas.get id = some slab → ∃ data, codec.encode slab = .ok data ∧ data ≠ []) :
    (encodeJob codec deltas id).err = none := by
  unfold encodeJob
  split
  · rfl
  · rename_i slab found
    obtain ⟨data, encoded, -⟩ := encodes slab found
    simp [encoded]

/-- When every slab encodes to non-empty bytes, `FastCommit`'s loop over the filed
encodings is `Commit`'s loop. -/
theorem fastCommitLoop_eq_commitLoop (deltas : SlabMap S) (encSlabByID : AList (fun _ : StorageID => Bytes))
    (keys : List StorageID)
    (filed : ∀ id ∈ keys, (encSlabByID.lookup id).getD [] = (encodeJob codec deltas id).data)
    (encodes : ∀ id ∈ keys, ∀ slab, deltas.get id = some slab → ∃ data, codec.encode slab = .ok data ∧ data ≠ [])
    (base : σ) (cache : SlabMap S) :
    fastCommitLoop B deltas encSlabByID keys base cache = commitLoop B codec deltas keys base cache := by
  induction keys generalizing base cache with
  | nil => rfl
  | cons id ids ih =>
    have continues := ih (fun id' member => filed id' (List.mem_cons_of_mem id member))
      (fun id' member => encodes id' (List.mem_cons_of_mem id member))
    have filedHere := filed id (List.mem_cons_self _ _)
    cases found : deltas.get id with
    | none =>
      simp only [encodeJob, found] at filedHere
      simp only [fastCommitLoop, commitLoop, found, filedHere, if_true]
      cases B.remove base id <;> simp [continues]
    | some slab =>
      obtain ⟨data, encoded, nonEmpty⟩ := encodes id (List.mem_cons_self _ _) slab found
      simp only [encodeJob, found, encoded] at filedHere
      simp only [fastCommitLoop, commitLoop, found, encoded, filedHere, nonEmpty, if_false]
      cases B.store base id data <;> simp [continues]

/-- `FastCommit` ends where `Commit` ends, its base-store calls included, for every
order in which the encoder goroutines deliver their results, when every owned slab
in the deltas encodes to non-empty bytes. -/
theorem fastCommit_eq_commit (s : PersistentSlabStorage σ S) (arrivals : List (EncodedSlabs ε))
    (delivered : arrivals.Perm ((sortedOwnedDeltaKeys s.deltas.keys).map (encodeJob codec s.deltas)))
    (encodes : ∀ id ∈ sortedOwnedDeltaKeys s.deltas.keys, ∀ slab, s.deltas.get id = some slab →
      ∃ data, codec.encode slab = .ok data ∧ data ≠ []) :
    fastCommit B s arrivals = commit B codec s := by
  have noError : ∀ result ∈ arrivals, result.err = none := by
    intro result member
    obtain ⟨id, owned, rfl⟩ := List.mem_map.mp (delivered.subset member)
    exact encodeJob_err_eq_none codec (encodes id owned)
  have distinct : (arrivals.map (·.storageID)).Nodup := by
    rw [(delivered.map _).nodup_iff, List.map_map]
    simpa [Function.comp_def] using (sortedOwnedDeltaKeys_perm s.deltas.keys).nodup_iff.mpr
      (s.deltas.keys_nodup.filter _)
  have filed : ∀ id ∈ sortedOwnedDeltaKeys s.deltas.keys,
      ((fileResults arrivals ∅).lookup id).getD [] = (encodeJob codec s.deltas id).data := by
    intro id member
    have arrived := delivered.symm.subset (List.mem_map_of_mem (encodeJob codec s.deltas) member)
    have found := lookup_fileResults distinct arrived ∅
    rw [encodeJob_storageID] at found
    rw [found, Option.getD_some]
  unfold fastCommit commit
  simp only [receiveResults_of_no_error noError]
  rw [fastCommitLoop_eq_commitLoop B codec _ _ _ filed encodes]

/-- The results in the `choice`-th of the orders the encoder goroutines can deliver
them in, every order of the jobs; past the last order, the order of the jobs. -/
def arrivalsAt (s : PersistentSlabStorage σ S) (choice : Nat) : List (EncodedSlabs ε) :=
  let jobs := (sortedOwnedDeltaKeys s.deltas.keys).map (encodeJob codec s.deltas)
  (jobs.permutations[choice]?).getD jobs

theorem arrivalsAt_perm (s : PersistentSlabStorage σ S) (choice : Nat) :
    (arrivalsAt codec s choice).Perm ((sortedOwnedDeltaKeys s.deltas.keys).map (encodeJob codec s.deltas)) := by
  simp only [arrivalsAt]
  cases listed : ((sortedOwnedDeltaKeys s.deltas.keys).map (encodeJob codec s.deltas)).permutations[choice]? with
  | none => exact List.Perm.refl _
  | some arrivals => exact List.mem_permutations.mp (List.mem_iff_getElem?.mpr ⟨choice, listed⟩)

/-- Every order of delivery is one of `arrivalsAt`. -/
theorem exists_arrivalsAt {s : PersistentSlabStorage σ S} {arrivals : List (EncodedSlabs ε)}
    (delivered : arrivals.Perm ((sortedOwnedDeltaKeys s.deltas.keys).map (encodeJob codec s.deltas))) :
    ∃ choice, arrivalsAt codec s choice = arrivals := by
  obtain ⟨choice, listed⟩ := List.mem_iff_getElem?.mp (List.mem_permutations.mpr delivered)
  exact ⟨choice, by simp only [arrivalsAt, listed, Option.getD_some]⟩

end PersistentSlabStorage

end Atree

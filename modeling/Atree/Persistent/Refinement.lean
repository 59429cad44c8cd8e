import Atree.Persistent.Outcomes
import Atree.Reporter

/-! The persistent storage against the maps its callers see: two versions of a map
without `autoCommit`, the map of last writes with it, and the two paths of the
source that break the correspondence. -/

namespace Atree

/-- The calls a client makes on a `PersistentSlabStorage`. -/
inductive StorageOp (S : Type) where
  | store (id : StorageID) (slab : S)
  | remove (id : StorageID)
  | retrieve (id : StorageID)
  | commit
  /-- `FastCommit(numWorkers)` with some `numWorkers ≥ 1`, its encoders delivering
  their results in the order `arrivalsAt` picks by `choice`. -/
  | fastCommit (choice : Nat)
  | dropDeltas
  | dropCache

namespace PersistentSlabStorage

variable {σ ε S : Type} (B : BaseStorage σ ε) (codec : Codec ε S)

/-- One call on the storage, with the result it returns if it is a `Retrieve`. -/
def applyOp (s : PersistentSlabStorage σ S) :
    StorageOp S → PersistentSlabStorage σ S × Option (Option S × Bool × Option ε)
  | .store id slab => ((s.store B codec id slab).1, none)
  | .remove id => ((s.remove B id).1, none)
  | .retrieve id => ((s.retrieve B codec id).2, some (s.retrieve B codec id).1)
  | .commit => ((s.commit B codec).1, none)
  | .fastCommit choice => ((s.fastCommit B (arrivalsAt codec s choice)).1, none)
  | .dropDeltas => (s.dropDeltas, none)
  | .dropCache => (s.dropCache, none)

/-- A run of calls: the state it ends in and the results of its `Retrieve`s, in order. -/
def runOps : PersistentSlabStorage σ S → List (StorageOp S) →
    PersistentSlabStorage σ S × List (Option S × Bool × Option ε)
  | s, [] => (s, [])
  | s, op :: ops =>
    ((runOps (applyOp B codec s op).1 ops).1,
      (applyOp B codec s op).2.toList ++ (runOps (applyOp B codec s op).1 ops).2)

/-- A `Commit` that finds a tombstone for a slab held in the read cache removes it
from the base store and leaves it cached, so `Retrieve` still finds it. -/
theorem commit_keeps_removed_slab_cached (s : PersistentSlabStorage σ S) {id : StorageID} {slab : S}
    (cached : s.cache.lookup id = some (some slab)) (removed : s.deltas.lookup id = some none)
    (committed : (commit B codec s).2 = none) :
    ((commit B codec s).1.retrieve B codec id).1 = (some slab, true, none) := by
  obtain ⟨-, -, -, recached⟩ := (commit_outcome B codec s).success committed
  dsimp only at recached
  have tombstone : s.deltas.get id = none := by rw [SlabMap.get, removed]; rfl
  have stillCached : (commit B codec s).1.cache.lookup id = some (some slab) := by
    rw [recached, lookup_foldl_cacheStep, tombstone, if_neg (by simp), cached]
  have cleared := commit_deltas B codec s
  rw [committed] at cleared
  simp [retrieve, cleared, stillCached]

/-- A fresh storage after storing an owned slab, committing and removing it: the slab
is cached and its delta is a tombstone. -/
def cachedTombstone : PersistentSlabStorage InMemBaseStorage Unit :=
  (runOps InMemBaseStorage.reliable unitCodec (newPersistentSlabStorage newInMemBaseStorage [])
    [.store ownedID (), .commit, .remove ownedID]).1

theorem commit_keeps_removed_slab_cached_of_cachedTombstone :
    cachedTombstone.cache.lookup ownedID = some (some ()) ∧ cachedTombstone.deltas.lookup ownedID = some none ∧
      (commit InMemBaseStorage.reliable unitCodec cachedTombstone).2 = none ∧
      ((commit InMemBaseStorage.reliable unitCodec cachedTombstone).1.retrieve InMemBaseStorage.reliable unitCodec
        ownedID).1 = (some (), true, none) := by
  have cached : cachedTombstone.cache.lookup ownedID = some (some ()) := by decide
  have removed : cachedTombstone.deltas.lookup ownedID = some none := by decide
  have committed : (commit InMemBaseStorage.reliable unitCodec cachedTombstone).2 = none := by decide
  exact ⟨cached, removed, committed, commit_keeps_removed_slab_cached _ _ _ cached removed committed⟩

/-- Under `autoCommit`, a `Store` after a `Remove` of the same id writes through to
the base store, but the tombstone `Remove` left in the deltas hides the slab from
`Retrieve`. -/
theorem retrieve_hidden_by_autoCommit_tombstone (s : PersistentSlabStorage σ S) (autoCommitOn : s.autoCommit = true)
    {id : StorageID} {slab : S} (removed : (s.remove B id).2 = none) :
    (((s.remove B id).1.store B codec id slab).1.retrieve B codec id).1 = (none, false, none) := by
  have kept := store_deltas_of_autoCommit B codec (s.remove B id).1 (by rw [remove_autoCommit, autoCommitOn])
    id slab
  simp [retrieve, kept, remove_deltas B s removed, AList.lookup_insert]

/-- A fresh storage with `autoCommit` over an empty store. -/
def freshAutoCommit : PersistentSlabStorage InMemBaseStorage Unit :=
  newPersistentSlabStorage newInMemBaseStorage [withAutoCommit]

theorem retrieve_hidden_by_autoCommit_tombstone_of_fresh :
    freshAutoCommit.autoCommit = true ∧ (freshAutoCommit.remove (@InMemBaseStorage.reliable Unit) ownedID).2 = none ∧
      (((freshAutoCommit.remove (@InMemBaseStorage.reliable Unit) ownedID).1.store InMemBaseStorage.reliable unitCodec
        ownedID ()).1.retrieve InMemBaseStorage.reliable unitCodec ownedID).1 = (none, false, none) := by
  have autoCommitOn : freshAutoCommit.autoCommit = true := rfl
  have removed : (freshAutoCommit.remove (@InMemBaseStorage.reliable Unit) ownedID).2 = none := by decide
  exact ⟨autoCommitOn, removed, retrieve_hidden_by_autoCommit_tombstone _ unitCodec _ autoCommitOn removed⟩

/-- `Count()` over the in-memory store: `SegmentCounts()` of the base store. -/
def count (s : PersistentSlabStorage InMemBaseStorage S) : Nat := s.baseStorage.segmentCounts

/-- Without `autoCommit`, a call other than `Commit` and `FastCommit` leaves the base
store as it was. -/
theorem applyOp_baseStorage_of_manual {s : PersistentSlabStorage σ S} (manual : s.autoCommit = false)
    {op : StorageOp S} (notCommit : op ≠ .commit) (notFastCommit : ∀ choice, op ≠ .fastCommit choice) :
    (applyOp B codec s op).1.baseStorage = s.baseStorage ∧ (applyOp B codec s op).1.autoCommit = false := by
  cases op with
  | store id slab => simp [applyOp, store, manual]
  | remove id => simp [applyOp, remove, manual]
  | retrieve id =>
    rw [applyOp, retrieve_eq_cache]
    exact ⟨rfl, manual⟩
  | commit => exact absurd rfl notCommit
  | fastCommit choice => exact absurd rfl (notFastCommit choice)
  | dropDeltas | dropCache => exact ⟨rfl, manual⟩

/-- `Count()` counts committed segments only: without `autoCommit`, no run of calls
without `Commit` or `FastCommit` changes it, whatever it stores or removes. -/
theorem count_unchanged_without_commit {s : PersistentSlabStorage InMemBaseStorage S} (manual : s.autoCommit = false)
    {ops : List (StorageOp S)} (noCommit : StorageOp.commit ∉ ops)
    (noFastCommit : ∀ choice, StorageOp.fastCommit choice ∉ ops) :
    (runOps (InMemBaseStorage.reliable : BaseStorage InMemBaseStorage ε) codec s ops).1.count = s.count := by
  induction ops generalizing s with
  | nil => rfl
  | cons op ops ih =>
    obtain ⟨kept, stillManual⟩ := applyOp_baseStorage_of_manual InMemBaseStorage.reliable codec manual
      (fun same => noCommit (same ▸ List.mem_cons_self _ _))
      fun choice same => noFastCommit choice (same ▸ List.mem_cons_self _ _)
    exact (ih stillManual (fun member => noCommit (List.mem_cons_of_mem _ member))
      fun choice member => noFastCommit choice (List.mem_cons_of_mem _ member)).trans
      (congrArg InMemBaseStorage.segmentCounts kept)

theorem count_unchanged_without_commit_of_store :
    (newPersistentSlabStorage newInMemBaseStorage [] : PersistentSlabStorage InMemBaseStorage Unit).autoCommit = false ∧
      StorageOp.commit ∉ [.store ownedID (), .retrieve ownedID] ∧
      (∀ choice, StorageOp.fastCommit choice ∉ [.store ownedID (), .retrieve ownedID]) ∧
      (runOps InMemBaseStorage.reliable unitCodec (newPersistentSlabStorage newInMemBaseStorage [])
        [.store ownedID (), .retrieve ownedID]).1.count = 0 := by
  have manual : (newPersistentSlabStorage newInMemBaseStorage [] : PersistentSlabStorage InMemBaseStorage Unit).autoCommit =
      false := rfl
  have noCommit : StorageOp.commit ∉ ([.store ownedID (), .retrieve ownedID] : List (StorageOp Unit)) := by
    simp only [List.mem_cons, reduceCtorEq, List.not_mem_nil, or_self, not_false_eq_true]
  have noFastCommit :
      ∀ choice, StorageOp.fastCommit choice ∉ ([.store ownedID (), .retrieve ownedID] : List (StorageOp Unit)) := by
    simp only [List.mem_cons, reduceCtorEq, List.not_mem_nil, or_self, not_false_eq_true, implies_true]
  exact ⟨manual, noCommit, noFastCommit, count_unchanged_without_commit unitCodec manual noCommit noFastCommit⟩

end PersistentSlabStorage

/-- The two versions of a map that a storage without `autoCommit` stands for: the
slabs as last committed and as the caller last wrote them. -/
structure VersionedSlabs (S : Type) where
  committed : AList (fun _ : StorageID => S)
  current : AList (fun _ : StorageID => S)

namespace VersionedSlabs

variable {S : Type}

def applyOp (v : VersionedSlabs S) : StorageOp S → VersionedSlabs S
  | .store id slab => { v with current := v.current.insert id slab }
  | .remove id => { v with current := v.current.erase id }
  | .commit | .fastCommit _ => { v with committed := v.current }
  | .dropDeltas => { v with current := v.committed }
  | .retrieve _ | .dropCache => v

def runOps (v : VersionedSlabs S) (ops : List (StorageOp S)) : VersionedSlabs S := ops.foldl applyOp v

end VersionedSlabs

/-- The map of last writes that a storage with `autoCommit` stands for. -/
def lastWrites {S : Type} (ops : List (StorageOp S)) (written : AList (fun _ : StorageID => S)) :
    AList (fun _ : StorageID => S) :=
  ops.foldl (fun written op => match op with
    | .store id slab => written.insert id slab
    | .remove id => written.erase id
    | _ => written) written

namespace PersistentSlabStorage

/-- Store a slab, commit, remove it, commit again, and read it back. -/
def removeCommitted : List (StorageOp Unit) :=
  [.store ownedID (), .commit, .remove ownedID, .commit, .retrieve ownedID]

/-- The run `removeCommitted` from a fresh storage over an empty store: the slab is
gone from the current version, yet `Retrieve` finds it in the read cache. -/
theorem retrieve_finds_removed_committed_slab :
    ((VersionedSlabs.runOps ⟨∅, ∅⟩ removeCommitted).current.lookup ownedID = none) ∧
    (runOps InMemBaseStorage.reliable unitCodec (newPersistentSlabStorage newInMemBaseStorage []) removeCommitted).2 =
      [(some (), true, none)] := by
  decide

/-- Under `autoCommit`: remove a slab, store it again, read it back, commit. -/
def storeAfterRemove : List (StorageOp Unit) :=
  [.remove ownedID, .store ownedID (), .retrieve ownedID, .commit]

/-- The run `storeAfterRemove` from a fresh storage with `autoCommit` over an empty
store: the slab is the last write, yet `Retrieve` reports it missing, and the
`Commit` replays the `Remove`, so the base store no longer holds it. -/
theorem autoCommit_store_after_remove_lost :
    (lastWrites storeAfterRemove ∅).lookup ownedID = some () ∧
    (runOps InMemBaseStorage.reliable unitCodec (newPersistentSlabStorage newInMemBaseStorage [withAutoCommit])
        storeAfterRemove).2 = [(none, false, none)] ∧
    (runOps InMemBaseStorage.reliable unitCodec (newPersistentSlabStorage newInMemBaseStorage [withAutoCommit])
        storeAfterRemove).1.baseStorage.segments.lookup ownedID = none := by
  decide

end PersistentSlabStorage

end Atree

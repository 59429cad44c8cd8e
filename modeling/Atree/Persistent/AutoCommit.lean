import Atree.Persistent.Simulation

/-! With `autoCommit`, over a store that never fails, every run keeps each id that no
call removes holding its last write (`WritesThrough`), in the base store and for
`Retrieve`. -/

namespace Atree

namespace PersistentSlabStorage

variable {ε S : Type} (codec : Codec ε S)

/-- With `autoCommit`, the storage holds `last`, the slab last written under `id`:
no tombstone over it, its encoding in the base store or no segment at all, and in
the read cache nothing but that slab. -/
structure WritesThrough (s : PersistentSlabStorage InMemBaseStorage S) (id : StorageID) (last : Option S) :
    Prop where
  auto : s.autoCommit = true
  noDelta : s.deltas.lookup id = none
  stored : ∀ slab, last = some slab →
    ∃ data, s.baseStorage.segments.lookup id = some data ∧ codec.decodeSlab id data = .ok slab
  unstored : last = none → s.baseStorage.segments.lookup id = none
  cached : ∀ slab entry, last = some slab → s.cache.lookup id = some entry → entry = some slab

variable {codec}

/-- `Retrieve` of an id with a last write returns it, found. -/
theorem WritesThrough.retrieve {s : PersistentSlabStorage InMemBaseStorage S} {id : StorageID} {slab : S}
    (tracks : WritesThrough codec s id (some slab)) :
    (s.retrieve InMemBaseStorage.reliable codec id).1 = ((some slab, true, none) : Option S × Bool × Option ε) := by
  cases hit : s.cache.lookup id with
  | some entry => simp [PersistentSlabStorage.retrieve, tracks.noDelta, hit, tracks.cached slab entry rfl hit]
  | none =>
    obtain ⟨data, segment, decoded⟩ := tracks.stored slab rfl
    simp [PersistentSlabStorage.retrieve, tracks.noDelta, hit, InMemBaseStorage.reliable,
      InMemBaseStorage.withFaults, BaseFaults.none, InMemBaseStorage.retrieve, segment, decoded]

/-- A `Retrieve` caches only the slab the base store holds. -/
theorem WritesThrough.retrieve_state {s : PersistentSlabStorage InMemBaseStorage S} {id : StorageID}
    {last : Option S} (tracks : WritesThrough codec s id last) (id' : StorageID) :
    WritesThrough codec (s.retrieve (InMemBaseStorage.reliable : BaseStorage InMemBaseStorage ε) codec id').2 id
      last := by
  unfold PersistentSlabStorage.retrieve
  split
  · exact tracks
  split
  · exact tracks
  split
  · exact tracks
  rename_i data ok _ fetched
  split
  · rename_i slab decoded
    refine ⟨tracks.auto, tracks.noDelta, tracks.stored, tracks.unstored, fun slab' entry written hit => ?_⟩
    by_cases same : id = id'
    · subst same
      simp only [AList.lookup_insert, Option.some.injEq] at hit
      subst hit
      obtain ⟨data', segment, decoded'⟩ := tracks.stored slab' written
      simp only [InMemBaseStorage.reliable, InMemBaseStorage.withFaults, BaseFaults.none,
        InMemBaseStorage.retrieve, segment, Except.ok.injEq, Prod.mk.injEq] at fetched
      rw [← fetched.1, decoded'] at decoded
      exact congrArg some (Except.ok.inj decoded).symm
    · exact tracks.cached slab' entry written (by simpa [AList.lookup_insert_ne same] using hit)
  · exact tracks

theorem WritesThrough.dropDeltas {s : PersistentSlabStorage InMemBaseStorage S} {id : StorageID}
    {last : Option S} (tracks : WritesThrough codec s id last) : WritesThrough codec s.dropDeltas id last :=
  ⟨tracks.auto, rfl, tracks.stored, tracks.unstored, tracks.cached⟩

theorem WritesThrough.dropCache {s : PersistentSlabStorage InMemBaseStorage S} {id : StorageID}
    {last : Option S} (tracks : WritesThrough codec s id last) : WritesThrough codec s.dropCache id last :=
  ⟨tracks.auto, tracks.noDelta, tracks.stored, tracks.unstored, fun _ _ _ hit => by cases hit⟩

/-- A `Remove` of another id leaves the base store and the deltas under `id` as they were. -/
theorem WritesThrough.remove {s : PersistentSlabStorage InMemBaseStorage S} {id : StorageID}
    {last : Option S} (tracks : WritesThrough codec s id last) {id' : StorageID} (other : id' ≠ id) :
    WritesThrough codec (s.remove (InMemBaseStorage.reliable : BaseStorage InMemBaseStorage ε) id').1 id last := by
  have removed : (s.remove (InMemBaseStorage.reliable : BaseStorage InMemBaseStorage ε) id').1 =
      { s with baseStorage := s.baseStorage.remove id', deltas := s.deltas.insert id' none } := by
    simp [PersistentSlabStorage.remove, tracks.auto, InMemBaseStorage.reliable, InMemBaseStorage.withFaults,
      BaseFaults.none]
  rw [removed]
  refine ⟨tracks.auto, by simpa [AList.lookup_insert_ne (Ne.symm other)] using tracks.noDelta,
    fun slab written => ?_, fun unwritten => ?_, tracks.cached⟩
  · simpa [InMemBaseStorage.remove, AList.lookup_erase_ne (Ne.symm other)] using tracks.stored slab written
  · simpa [InMemBaseStorage.remove, AList.lookup_erase_ne (Ne.symm other)] using tracks.unstored unwritten

/-- `FastCommit` over the reliable store, whatever its encoders deliver, leaves an id
without a delta as it was. -/
theorem WritesThrough.fastCommit {s : PersistentSlabStorage InMemBaseStorage S} {id : StorageID}
    {last : Option S} (tracks : WritesThrough codec s id last) (arrivals : List (EncodedSlabs ε)) :
    WritesThrough codec (s.fastCommit (InMemBaseStorage.reliable : BaseStorage InMemBaseStorage ε) arrivals).1 id
      last := by
  rcases fastCommit_outcome InMemBaseStorage.reliable s arrivals with
    ⟨_, -, failed⟩ | ⟨encSlabByID, -, outcome, shape⟩
  · rw [failed]
    exact tracks
  have absent : id ∉ sortedOwnedDeltaKeys s.deltas.keys :=
    fun listed => unlisted_of_lookup tracks.noDelta (mem_sortedOwnedDeltaKeys.mp listed).1
  obtain ⟨segment, cacheAt⟩ := outcome.frame (fun _ _ => fastCall_id)
    (fun _ _ other => fastCacheStep_lookup_ne s.deltas encSlabByID _ other) absent
  rw [shape]
  refine ⟨tracks.auto, by split; rfl; exact tracks.noDelta, fun slab written => segment ▸ tracks.stored slab written,
    fun unwritten => segment ▸ tracks.unstored unwritten, fun slab entry written hit => ?_⟩
  exact tracks.cached slab entry written (cacheAt ▸ hit)

section Writes

variable (encodes : ∀ slab, ∃ data, codec.encode slab = .ok data)
include encodes

/-- A `Store` writes through: on `id` it makes the slab the last write, on another id
it leaves `id` as it was. -/
theorem WritesThrough.store
    (decodes : ∀ id slab data, codec.encode slab = .ok data → codec.decodeSlab id data = .ok slab)
    {s : PersistentSlabStorage InMemBaseStorage S} {id : StorageID} {w : AList (fun _ : StorageID => S)}
    (tracks : WritesThrough codec s id (w.lookup id)) (id' : StorageID) (slab : S) :
    WritesThrough codec (s.store (InMemBaseStorage.reliable : BaseStorage InMemBaseStorage ε) codec id' slab).1 id
      ((w.insert id' slab).lookup id) := by
  obtain ⟨data, encoded⟩ := encodes slab
  have written : (s.store (InMemBaseStorage.reliable : BaseStorage InMemBaseStorage ε) codec id' slab).1 =
      { s with baseStorage := s.baseStorage.store id' data, cache := s.cache.insert id' (some slab) } := by
    simp [PersistentSlabStorage.store, tracks.auto, encoded, InMemBaseStorage.reliable,
      InMemBaseStorage.withFaults, BaseFaults.none]
  rw [written]
  by_cases same : id' = id
  · subst same
    refine ⟨tracks.auto, tracks.noDelta, fun slab' last => ?_, fun unwritten => ?_, fun slab' entry last hit => ?_⟩
    · rw [AList.lookup_insert, Option.some.injEq] at last
      subst last
      exact ⟨data, by simp [InMemBaseStorage.store], decodes _ _ _ encoded⟩
    · simp at unwritten
    · rw [AList.lookup_insert, Option.some.injEq] at last
      simpa [last] using hit.symm
  · refine ⟨tracks.auto, tracks.noDelta, fun slab' last => ?_, fun unwritten => ?_, fun slab' entry last hit => ?_⟩
    · rw [AList.lookup_insert_ne (Ne.symm same)] at last
      simpa [InMemBaseStorage.store, AList.lookup_insert_ne (Ne.symm same)] using tracks.stored slab' last
    · rw [AList.lookup_insert_ne (Ne.symm same)] at unwritten
      simpa [InMemBaseStorage.store, AList.lookup_insert_ne (Ne.symm same)] using tracks.unstored unwritten
    · rw [AList.lookup_insert_ne (Ne.symm same)] at last
      exact tracks.cached slab' entry last (by rwa [AList.lookup_insert_ne (Ne.symm same)] at hit)

private theorem commit_of_no_delta (s : PersistentSlabStorage InMemBaseStorage S) {id : StorageID}
    (noDelta : s.deltas.lookup id = none) :
    (commit (InMemBaseStorage.reliable : BaseStorage InMemBaseStorage ε) codec s).1.baseStorage.segments.lookup id =
        s.baseStorage.segments.lookup id ∧
      (commit (InMemBaseStorage.reliable : BaseStorage InMemBaseStorage ε) codec s).1.cache.lookup id =
        s.cache.lookup id ∧
      (commit (InMemBaseStorage.reliable : BaseStorage InMemBaseStorage ε) codec s).1.deltas = ∅ := by
  have absent : id ∉ sortedOwnedDeltaKeys s.deltas.keys :=
    fun listed => unlisted_of_lookup noDelta (mem_sortedOwnedDeltaKeys.mp listed).1
  have cleared := commit_deltas InMemBaseStorage.reliable codec s
  rw [reliable_commit_succeeds encodes s] at cleared
  obtain ⟨segment, cacheAt⟩ := (commit_outcome InMemBaseStorage.reliable codec s).frame
    (fun _ _ => deltaCall_id codec) (fun _ _ other => cacheStep_lookup_ne s.deltas _ other) absent
  exact ⟨segment, cacheAt, cleared⟩

theorem WritesThrough.commit {s : PersistentSlabStorage InMemBaseStorage S} {id : StorageID}
    {last : Option S} (tracks : WritesThrough codec s id last) :
    WritesThrough codec (s.commit (InMemBaseStorage.reliable : BaseStorage InMemBaseStorage ε) codec).1 id last := by
  obtain ⟨segment, cached, cleared⟩ := commit_of_no_delta encodes s tracks.noDelta
  refine ⟨by rw [commit_autoCommit, tracks.auto], by rw [cleared]; rfl, fun slab written => ?_,
    fun unwritten => by rw [segment, tracks.unstored unwritten], fun slab entry written hit => ?_⟩
  · rw [segment]
    exact tracks.stored slab written
  · rw [cached] at hit
    exact tracks.cached slab entry written hit

variable (decodes : ∀ id slab data, codec.encode slab = .ok data → codec.decodeSlab id data = .ok slab)
include decodes

/-- Every call but a `Remove` of `id` keeps the storage holding the last write under `id`. -/
theorem WritesThrough.applyOp {s : PersistentSlabStorage InMemBaseStorage S} {id : StorageID}
    {w : AList (fun _ : StorageID => S)} (tracks : WritesThrough codec s id (w.lookup id)) {op : StorageOp S}
    (kept : op ≠ .remove id) :
    WritesThrough codec (applyOp (InMemBaseStorage.reliable : BaseStorage InMemBaseStorage ε) codec s op).1 id
      ((lastWrites [op] w).lookup id) := by
  cases op with
  | store id' slab => exact tracks.store encodes decodes id' slab
  | remove id' =>
    have other : id' ≠ id := fun same => kept (same ▸ rfl)
    simpa [lastWrites, AList.lookup_erase_ne (Ne.symm other)] using tracks.remove other
  | retrieve id' => exact tracks.retrieve_state id'
  | commit => exact tracks.commit encodes
  | fastCommit choice => exact tracks.fastCommit _
  | dropDeltas => exact tracks.dropDeltas
  | dropCache => exact tracks.dropCache

/-- Every run of calls that never removes `id` keeps the storage holding its last write. -/
theorem WritesThrough.runOps {s : PersistentSlabStorage InMemBaseStorage S} {id : StorageID}
    {w : AList (fun _ : StorageID => S)} (tracks : WritesThrough codec s id (w.lookup id)) {ops : List (StorageOp S)}
    (neverRemoved : StorageOp.remove id ∉ ops) :
    WritesThrough codec (runOps (InMemBaseStorage.reliable : BaseStorage InMemBaseStorage ε) codec s ops).1 id
      ((lastWrites ops w).lookup id) := by
  induction ops generalizing s w with
  | nil => exact tracks
  | cons op ops ih =>
    have kept : op ≠ .remove id := fun same => neverRemoved (same ▸ List.mem_cons_self _ _)
    exact ih (tracks.applyOp encodes decodes kept) fun member => neverRemoved (List.mem_cons_of_mem _ member)

/-- With `autoCommit` over the reliable store, from a fresh storage whose base store's
segments decode to `written`: after every run of calls, an id that no call removes
reads back as its last write, from `Retrieve` and from the base store, and an id
without one has no segment. -/
theorem autoCommit_reads_last_write {base : InMemBaseStorage} {written : AList (fun _ : StorageID => S)}
    (loaded : ∀ id, match written.lookup id with
      | some slab => ∃ data, base.segments.lookup id = some data ∧ codec.decodeSlab id data = .ok slab
      | none => base.segments.lookup id = none)
    (ops : List (StorageOp S)) {id : StorageID} (neverRemoved : StorageOp.remove id ∉ ops) :
    (∀ slab, (lastWrites ops written).lookup id = some slab →
      ((runOps (InMemBaseStorage.reliable : BaseStorage InMemBaseStorage ε) codec
          (newPersistentSlabStorage base [withAutoCommit]) ops).1.retrieve InMemBaseStorage.reliable codec id).1 =
        (some slab, true, none) ∧
      ∃ data, (runOps (InMemBaseStorage.reliable : BaseStorage InMemBaseStorage ε) codec
          (newPersistentSlabStorage base [withAutoCommit]) ops).1.baseStorage.segments.lookup id = some data ∧
        codec.decodeSlab id data = .ok slab) ∧
    ((lastWrites ops written).lookup id = none →
      (runOps (InMemBaseStorage.reliable : BaseStorage InMemBaseStorage ε) codec
        (newPersistentSlabStorage base [withAutoCommit]) ops).1.baseStorage.segments.lookup id = none) := by
  have fresh : WritesThrough codec (newPersistentSlabStorage base [withAutoCommit]) id (written.lookup id) := by
    have initial := loaded id
    refine ⟨rfl, rfl, fun slab present => ?_, fun absent => ?_, fun _ _ _ hit => by cases hit⟩
    · rw [present] at initial
      exact initial
    · rw [absent] at initial
      exact initial
  have tracks := fresh.runOps encodes decodes neverRemoved
  exact ⟨fun slab last => ⟨(last ▸ tracks).retrieve, tracks.stored slab last⟩, tracks.unstored⟩

end Writes

theorem autoCommit_reads_last_write_of_unitCodec :
    (∀ slab, ∃ data, unitCodec.encode slab = .ok data) ∧
      (∀ id slab data, unitCodec.encode slab = .ok data → unitCodec.decodeSlab id data = .ok slab) ∧
      StorageOp.remove ownedID ∉ [.store ownedID (), .remove nextOwnedID, .commit, .dropCache] ∧
      ((runOps (InMemBaseStorage.reliable : BaseStorage InMemBaseStorage Unit) unitCodec
          (newPersistentSlabStorage newInMemBaseStorage [withAutoCommit])
          [.store ownedID (), .remove nextOwnedID, .commit, .dropCache]).1.retrieve
        InMemBaseStorage.reliable unitCodec ownedID).1 = (some (), true, none) := by
  have encodes : ∀ slab, ∃ data, unitCodec.encode slab = .ok data := fun _ => ⟨[0], rfl⟩
  have decodes : ∀ id slab data, unitCodec.encode slab = .ok data → unitCodec.decodeSlab id data = .ok slab :=
    fun _ _ _ encoded => by cases encoded; rfl
  have kept : StorageOp.remove ownedID ∉ [.store ownedID (), .remove nextOwnedID, .commit, .dropCache] := by
    simp only [List.mem_cons, List.not_mem_nil, or_false, StorageOp.remove.injEq, reduceCtorEq, false_or]
    decide
  exact ⟨encodes, decodes, kept, ((@autoCommit_reads_last_write Unit Unit unitCodec encodes decodes newInMemBaseStorage ∅
    (fun _ => rfl) _ ownedID kept).1 () rfl).1⟩

end PersistentSlabStorage

end Atree

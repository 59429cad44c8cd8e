import Atree.Persistent.Refinement

/-! `PersistentSlabStorage` without `autoCommit`, over a store that never fails, stands
for the two versions of `VersionedSlabs` on owned ids (`Simulates`) after every run,
when `Encode` never fails and `DecodeSlab` inverts it. -/

namespace Atree

namespace PersistentSlabStorage

variable {ε S : Type} (codec : Codec ε S)

/-- The storage stands for the two versions `v` on every owned id. -/
structure Simulates (s : PersistentSlabStorage InMemBaseStorage S) (v : VersionedSlabs S) : Prop where
  manual : s.autoCommit = false
  current : ∀ id, id.address ≠ addressUndefined →
    v.current.lookup id = (s.deltas.lookup id).getD (v.committed.lookup id)
  stored : ∀ id slab, id.address ≠ addressUndefined → v.committed.lookup id = some slab →
    ∃ data, s.baseStorage.segments.lookup id = some data ∧ codec.decodeSlab id data = .ok slab
  unstored : ∀ id, id.address ≠ addressUndefined → v.committed.lookup id = none →
    s.baseStorage.segments.lookup id = none
  cached : ∀ id entry, id.address ≠ addressUndefined → s.cache.lookup id = some entry →
    ∃ slab, entry = some slab ∧ (v.committed.lookup id = some slab ∨ v.committed.lookup id = none)

variable {codec}

/-- On an id of the current version, `Retrieve` finds its slab. -/
theorem Simulates.retrieve_of_current {s : PersistentSlabStorage InMemBaseStorage S} {v : VersionedSlabs S}
    (simulates : Simulates codec s v) {id : StorageID} (owned : id.address ≠ addressUndefined) {slab : S}
    (present : v.current.lookup id = some slab) :
    (s.retrieve InMemBaseStorage.reliable codec id).1 = (some slab, true, none) := by
  rw [simulates.current id owned] at present
  cases delta : s.deltas.lookup id with
  | some entry =>
    rw [delta, Option.getD_some] at present
    simp [retrieve, delta, present]
  | none =>
    rw [delta, Option.getD_none] at present
    cases hit : s.cache.lookup id with
    | some entry =>
      obtain ⟨cachedSlab, rfl, committed⟩ := simulates.cached id entry owned hit
      rw [present] at committed
      obtain rfl : cachedSlab = slab := by simpa [eq_comm] using committed
      simp [retrieve, delta, hit]
    | none =>
      obtain ⟨data, segment, decoded⟩ := simulates.stored id slab owned present
      simp [retrieve, delta, hit, InMemBaseStorage.reliable, InMemBaseStorage.withFaults, BaseFaults.none,
        InMemBaseStorage.retrieve, segment, decoded]

/-- On an id outside the current version, `Retrieve` reports the slab found only
from a read-cache entry with no delta over it. -/
theorem Simulates.found_of_not_current {s : PersistentSlabStorage InMemBaseStorage S} {v : VersionedSlabs S}
    (simulates : Simulates codec s v) {id : StorageID} (owned : id.address ≠ addressUndefined)
    (absent : v.current.lookup id = none) (found : (s.retrieve InMemBaseStorage.reliable codec id).1.2.1 = true) :
    s.deltas.lookup id = none ∧ ∃ slab, s.cache.lookup id = some (some slab) := by
  rw [simulates.current id owned] at absent
  cases delta : s.deltas.lookup id with
  | some entry =>
    rw [delta, Option.getD_some] at absent
    simp [retrieve, delta, absent] at found
  | none =>
    rw [delta, Option.getD_none] at absent
    refine ⟨rfl, ?_⟩
    cases hit : s.cache.lookup id with
    | some entry =>
      obtain ⟨slab, rfl, -⟩ := simulates.cached id entry owned hit
      exact ⟨slab, rfl⟩
    | none =>
      have segment := simulates.unstored id owned absent
      unfold retrieve at found
      simp only [delta, hit, InMemBaseStorage.reliable, InMemBaseStorage.withFaults, BaseFaults.none,
        InMemBaseStorage.retrieve, segment] at found
      split at found <;> cases found

theorem Simulates.store {s : PersistentSlabStorage InMemBaseStorage S} {v : VersionedSlabs S}
    (simulates : Simulates codec s v) (id : StorageID) (slab : S) :
    Simulates codec (s.store InMemBaseStorage.reliable codec id slab).1 (v.applyOp (.store id slab)) := by
  obtain ⟨manual, current, stored, unstored, cached⟩ := simulates
  have recorded : (s.store InMemBaseStorage.reliable codec id slab).1 =
      { s with deltas := s.deltas.insert id (some slab) } := by simp [PersistentSlabStorage.store, manual]
  rw [recorded]
  refine ⟨manual, fun id' owned => ?_, stored, unstored, cached⟩
  by_cases same : id' = id
  · subst same
    simp [VersionedSlabs.applyOp, AList.lookup_insert]
  · simp [VersionedSlabs.applyOp, AList.lookup_insert_ne same, current id' owned]

theorem Simulates.remove {s : PersistentSlabStorage InMemBaseStorage S} {v : VersionedSlabs S}
    (simulates : Simulates codec s v) (id : StorageID) :
    Simulates codec (s.remove (InMemBaseStorage.reliable : BaseStorage InMemBaseStorage ε) id).1
      (v.applyOp (.remove id)) := by
  obtain ⟨manual, current, stored, unstored, cached⟩ := simulates
  have recorded : (s.remove (InMemBaseStorage.reliable : BaseStorage InMemBaseStorage ε) id).1 =
      { s with deltas := s.deltas.insert id none } := by
    simp [PersistentSlabStorage.remove, manual]
  rw [recorded]
  refine ⟨manual, fun id' owned => ?_, stored, unstored, cached⟩
  by_cases same : id' = id
  · subst same
    simp [VersionedSlabs.applyOp, AList.lookup_insert, AList.lookup_erase]
  · simp [VersionedSlabs.applyOp, AList.lookup_insert_ne same, AList.lookup_erase_ne same, current id' owned]

/-- A `Retrieve` caches only what the base store holds for the committed version. -/
theorem Simulates.retrieve {s : PersistentSlabStorage InMemBaseStorage S} {v : VersionedSlabs S}
    (simulates : Simulates codec s v) (id : StorageID) :
    Simulates codec (s.retrieve InMemBaseStorage.reliable codec id).2 v := by
  unfold PersistentSlabStorage.retrieve
  split
  · exact simulates
  split
  · exact simulates
  split
  · exact simulates
  rename_i data ok _ fetched
  split
  · rename_i slab decoded
    refine ⟨simulates.manual, simulates.current, simulates.stored, simulates.unstored, fun id' entry owned hit => ?_⟩
    by_cases same : id' = id
    · subst same
      simp only [AList.lookup_insert, Option.some.injEq] at hit
      subst hit
      refine ⟨slab, rfl, ?_⟩
      cases committed : v.committed.lookup id' with
      | none => exact .inr rfl
      | some slab' =>
        obtain ⟨data', segment, decoded'⟩ := simulates.stored id' slab' owned committed
        simp only [InMemBaseStorage.reliable, InMemBaseStorage.withFaults, BaseFaults.none,
          InMemBaseStorage.retrieve, segment, Except.ok.injEq, Prod.mk.injEq] at fetched
        rw [← fetched.1, decoded'] at decoded
        exact .inl (congrArg some (Except.ok.inj decoded))
    · exact simulates.cached id' entry owned (by rwa [AList.lookup_insert_ne same] at hit)
  · exact simulates

theorem Simulates.dropDeltas {s : PersistentSlabStorage InMemBaseStorage S} {v : VersionedSlabs S}
    (simulates : Simulates codec s v) : Simulates codec s.dropDeltas (v.applyOp .dropDeltas) :=
  ⟨simulates.manual, fun _ _ => rfl, simulates.stored, simulates.unstored, simulates.cached⟩

theorem Simulates.dropCache {s : PersistentSlabStorage InMemBaseStorage S} {v : VersionedSlabs S}
    (simulates : Simulates codec s v) : Simulates codec s.dropCache (v.applyOp .dropCache) :=
  ⟨simulates.manual, simulates.current, simulates.stored, simulates.unstored, fun _ _ _ hit => by cases hit⟩

private theorem lastWrite_of_forall₂ {plan : StorageID → Except ε BaseCall}
    (planOwnId : ∀ id call, plan id = .ok call → call.id = id) {keys : List StorageID} {calls : List BaseCall}
    (distinct : keys.Nodup) (issued : List.Forall₂ (fun id call => plan id = .ok call) keys calls)
    {id : StorageID} {call : BaseCall} (member : id ∈ keys) (planned : plan id = .ok call) (segment : Option Bytes) :
    lastWrite calls id segment = call.written := by
  induction issued generalizing segment with
  | nil => cases member
  | @cons key call' keys calls planned' rest ih =>
    show lastWrite calls id (if call'.id = id then call'.written else segment) = call.written
    by_cases same : key = id
    · subst same
      obtain rfl : call' = call := Except.ok.inj (planned'.symm.trans planned)
      have absent : key ∉ calls.map BaseCall.id := by
        rw [map_id_of_forall₂ planOwnId rest]
        exact (List.nodup_cons.mp distinct).1
      rw [lastWrite_of_not_mem absent, if_pos (planOwnId _ _ planned')]
    · exact ih (List.nodup_cons.mp distinct).2 ((List.mem_cons.mp member).resolve_left (Ne.symm same)) _

private theorem listed_of_lookup {m : SlabMap S} {id : StorageID} {entry : Option S} (found : m.lookup id = some entry) :
    id ∈ m.keys :=
  AList.mem_keys.mpr (AList.lookup_isSome.mp (by rw [found]; rfl))

theorem unlisted_of_lookup {m : SlabMap S} {id : StorageID} (missing : m.lookup id = none) : id ∉ m.keys :=
  fun listed => by
    have present := AList.lookup_isSome.mpr (AList.mem_keys.mp listed)
    rw [missing] at present
    cases present

section Commit

variable (encodes : ∀ slab, ∃ data, codec.encode slab = .ok data)
include encodes

private theorem exists_deltaCall (deltas : SlabMap S) (id : StorageID) : ∃ call, deltaCall codec deltas id = .ok call := by
  unfold deltaCall
  cases deltas.get id with
  | none => exact ⟨_, rfl⟩
  | some slab =>
    obtain ⟨data, encoded⟩ := encodes slab
    exact ⟨.store id data, by simp [encoded]⟩

private theorem exists_forall₂_deltaCall (deltas : SlabMap S) (keys : List StorageID) :
    ∃ calls, List.Forall₂ (fun id call => deltaCall codec deltas id = .ok call) keys calls := by
  induction keys with
  | nil => exact ⟨[], .nil⟩
  | cons id ids ih =>
    obtain ⟨calls, issued⟩ := ih
    obtain ⟨call, planned⟩ := exists_deltaCall encodes deltas id
    exact ⟨call :: calls, .cons planned issued⟩

/-- Over the reliable store, `Commit` fails only in `Encode`. -/
theorem reliable_commit_succeeds (s : PersistentSlabStorage InMemBaseStorage S) :
    (commit (InMemBaseStorage.reliable : BaseStorage InMemBaseStorage ε) codec s).2 = none := by
  rw [commit_snd]
  obtain ⟨calls, issued⟩ := exists_forall₂_deltaCall encodes s.deltas (sortedOwnedDeltaKeys s.deltas.keys)
  exact commitLoop_withFaults_succeeds codec s.deltas issued (fun call _ => by cases call <;> rfl) _ _

private theorem commit_segment (s : PersistentSlabStorage InMemBaseStorage S) {id : StorageID}
    (owned : id.address ≠ addressUndefined) :
    (commit (InMemBaseStorage.reliable : BaseStorage InMemBaseStorage ε) codec s).1.baseStorage.segments.lookup id =
      match s.deltas.lookup id with
      | some (some slab) => (codec.encode slab).toOption
      | some none => none
      | none => s.baseStorage.segments.lookup id := by
  obtain ⟨calls, issued, ran, -⟩ :=
    (commit_outcome InMemBaseStorage.reliable codec s).success (reliable_commit_succeeds encodes s)
  rw [InMemBaseStorage.withFaults_runCalls_lookup ran id]
  cases delta : s.deltas.lookup id with
  | none =>
    have absent : id ∉ calls.map BaseCall.id := by
      rw [map_id_of_forall₂ (fun _ _ => deltaCall_id codec) issued, mem_sortedOwnedDeltaKeys]
      exact fun listed => unlisted_of_lookup delta listed.1
    exact lastWrite_of_not_mem absent _
  | some entry =>
    have listed := listed_of_lookup delta
    have distinct := (sortedOwnedDeltaKeys_perm s.deltas.keys).nodup_iff.mpr (s.deltas.keys_nodup.filter _)
    obtain ⟨call, planned⟩ := exists_deltaCall encodes s.deltas id
    rw [lastWrite_of_forall₂ (fun _ _ => deltaCall_id codec) distinct issued
      (mem_sortedOwnedDeltaKeys.mpr ⟨listed, owned⟩) planned]
    unfold deltaCall SlabMap.get at planned
    rw [delta, Option.getD_some] at planned
    cases entry with
    | none => cases planned; rfl
    | some slab =>
      obtain ⟨data, encoded⟩ := encodes slab
      simp only [encoded, Except.ok.injEq] at planned
      subst planned
      simp [BaseCall.written, encoded, Except.toOption]

/-- A `Commit` makes the current version the committed one, writing it to the base
store and caching what it stores. -/
theorem Simulates.commit (decodes : ∀ id slab data, codec.encode slab = .ok data → codec.decodeSlab id data = .ok slab)
    {s : PersistentSlabStorage InMemBaseStorage S} {v : VersionedSlabs S} (simulates : Simulates codec s v) :
    Simulates codec (s.commit (InMemBaseStorage.reliable : BaseStorage InMemBaseStorage ε) codec).1
      (v.applyOp .commit) := by
  obtain ⟨manual, current, stored, unstored, cached⟩ := simulates
  have committed := reliable_commit_succeeds encodes s
  have cleared := commit_deltas InMemBaseStorage.reliable codec s
  rw [committed] at cleared
  obtain ⟨-, -, -, recached⟩ := (commit_outcome InMemBaseStorage.reliable codec s).success committed
  dsimp only at recached
  refine ⟨by rw [commit_autoCommit, manual], fun id owned => by rw [cleared]; rfl,
    fun id slab owned present => ?_, fun id owned absent => ?_, fun id entry owned hit => ?_⟩
  · change v.current.lookup id = some slab at present
    rw [commit_segment encodes s owned]
    rw [current id owned] at present
    cases delta : s.deltas.lookup id with
    | none =>
      rw [delta, Option.getD_none] at present
      simpa only [delta] using stored id slab owned present
    | some entry =>
      rw [delta, Option.getD_some] at present
      subst present
      obtain ⟨data, encoded⟩ := encodes slab
      exact ⟨data, by simp [encoded, Except.toOption], decodes id slab data encoded⟩
  · change v.current.lookup id = none at absent
    rw [commit_segment encodes s owned]
    rw [current id owned] at absent
    cases delta : s.deltas.lookup id with
    | none =>
      rw [delta, Option.getD_none] at absent
      simpa only [delta] using unstored id owned absent
    | some entry =>
      rw [delta, Option.getD_some] at absent
      subst absent
      rfl
  · change ∃ slab, entry = some slab ∧ (v.current.lookup id = some slab ∨ v.current.lookup id = none)
    rw [recached, lookup_foldl_cacheStep] at hit
    rw [current id owned]
    split at hit
    · rename_i written
      obtain ⟨-, isSome⟩ := written
      cases delta : s.deltas.lookup id with
      | none => simp [SlabMap.get, delta] at isSome
      | some deltaEntry =>
        obtain ⟨slab, rfl⟩ := Option.isSome_iff_exists.mp (by simpa [SlabMap.get, delta] using isSome)
        simp only [SlabMap.get, delta, Option.getD_some, Option.some.injEq] at hit
        exact ⟨slab, hit.symm, .inl rfl⟩
    · rename_i unwritten
      obtain ⟨slab, rfl, before⟩ := cached id entry owned hit
      refine ⟨slab, rfl, ?_⟩
      cases delta : s.deltas.lookup id with
      | none => simpa only [Option.getD_none] using before
      | some deltaEntry =>
        have listed := listed_of_lookup delta
        have tombstone : deltaEntry = none := by
          by_contra written
          exact unwritten ⟨mem_sortedOwnedDeltaKeys.mpr ⟨listed, owned⟩,
            by simpa [SlabMap.get, delta, Option.isSome_iff_ne_none] using written⟩
        exact .inr (by rw [tombstone]; rfl)

variable (decodes : ∀ id slab data, codec.encode slab = .ok data → codec.decodeSlab id data = .ok slab)
include decodes

/-- When every encoding is non-empty, a `FastCommit` is a `Commit`, in whatever order
its encoders deliver. -/
theorem Simulates.fastCommit (nonEmpty : ∀ slab data, codec.encode slab = .ok data → data ≠ [])
    {s : PersistentSlabStorage InMemBaseStorage S} {v : VersionedSlabs S} (simulates : Simulates codec s v)
    (choice : Nat) :
    Simulates codec (s.fastCommit (InMemBaseStorage.reliable : BaseStorage InMemBaseStorage ε)
      (arrivalsAt codec s choice)).1 (v.applyOp (.fastCommit choice)) := by
  rw [fastCommit_eq_commit InMemBaseStorage.reliable codec s _ (arrivalsAt_perm codec s choice)
    fun _ _ slab _ => (encodes slab).imp fun data encoded => ⟨encoded, nonEmpty slab data encoded⟩]
  exact simulates.commit encodes decodes

theorem Simulates.applyOp {s : PersistentSlabStorage InMemBaseStorage S} {v : VersionedSlabs S}
    (simulates : Simulates codec s v) {op : StorageOp S}
    (nonEmpty : ∀ choice, op = .fastCommit choice → ∀ slab data, codec.encode slab = .ok data → data ≠ []) :
    Simulates codec (applyOp (InMemBaseStorage.reliable : BaseStorage InMemBaseStorage ε) codec s op).1
      (v.applyOp op) := by
  cases op with
  | store id slab => exact simulates.store id slab
  | remove id => exact simulates.remove id
  | retrieve id => exact simulates.retrieve id
  | commit => exact simulates.commit encodes decodes
  | fastCommit choice => exact simulates.fastCommit encodes decodes (nonEmpty choice rfl) choice
  | dropDeltas => exact simulates.dropDeltas
  | dropCache => exact simulates.dropCache

/-- Every run of calls keeps the storage standing for the two versions the calls make,
when encodings are non-empty if the run makes a `FastCommit`. -/
theorem Simulates.runOps {s : PersistentSlabStorage InMemBaseStorage S} {v : VersionedSlabs S}
    (simulates : Simulates codec s v) {ops : List (StorageOp S)}
    (nonEmpty : ∀ choice, .fastCommit choice ∈ ops → ∀ slab data, codec.encode slab = .ok data → data ≠ []) :
    Simulates codec (runOps (InMemBaseStorage.reliable : BaseStorage InMemBaseStorage ε) codec s ops).1
      (v.runOps ops) := by
  induction ops generalizing s v with
  | nil => exact simulates
  | cons op ops ih =>
    exact ih (simulates.applyOp encodes decodes fun choice same => nonEmpty choice (same ▸ List.mem_cons_self _ _))
      fun choice member => nonEmpty choice (List.mem_cons_of_mem _ member)

end Commit

/-- A fresh storage without `autoCommit` stands for two equal versions holding the
slabs its base store's owned segments decode to. -/
theorem simulates_new {base : InMemBaseStorage} {committed : AList (fun _ : StorageID => S)}
    (loaded : ∀ id, id.address ≠ addressUndefined → match committed.lookup id with
      | some slab => ∃ data, base.segments.lookup id = some data ∧ codec.decodeSlab id data = .ok slab
      | none => base.segments.lookup id = none) :
    Simulates codec (newPersistentSlabStorage base []) ⟨committed, committed⟩ := by
  refine ⟨rfl, fun _ _ => rfl, fun id slab owned present => ?_, fun id owned absent => ?_, fun _ _ _ hit => by cases hit⟩
  · simpa [present] using loaded id owned
  · simpa [absent] using loaded id owned

/-- Over a base store that never fails, with an `Encode` that never fails and a
`DecodeSlab` that inverts it, from a fresh storage without `autoCommit` whose base
store's owned segments decode to `committed`: after every run of calls, with
non-empty encodings if it makes a `FastCommit`, `Retrieve` of an owned id of the
current version finds its slab, and `Retrieve` of an owned id outside it reports the
slab found only from a read-cache entry with no delta over it. -/
theorem retrieve_refines_versions (encodes : ∀ slab, ∃ data, codec.encode slab = .ok data)
    (decodes : ∀ id slab data, codec.encode slab = .ok data → codec.decodeSlab id data = .ok slab)
    {base : InMemBaseStorage} {committed : AList (fun _ : StorageID => S)}
    (loaded : ∀ id, id.address ≠ addressUndefined → match committed.lookup id with
      | some slab => ∃ data, base.segments.lookup id = some data ∧ codec.decodeSlab id data = .ok slab
      | none => base.segments.lookup id = none)
    (ops : List (StorageOp S))
    (nonEmpty : ∀ choice, .fastCommit choice ∈ ops → ∀ slab data, codec.encode slab = .ok data → data ≠ [])
    {id : StorageID} (owned : id.address ≠ addressUndefined) :
    (∀ slab, (VersionedSlabs.runOps ⟨committed, committed⟩ ops).current.lookup id = some slab →
      ((runOps (InMemBaseStorage.reliable : BaseStorage InMemBaseStorage ε) codec
        (newPersistentSlabStorage base []) ops).1.retrieve InMemBaseStorage.reliable codec id).1 =
        (some slab, true, none)) ∧
    ((VersionedSlabs.runOps ⟨committed, committed⟩ ops).current.lookup id = none →
      ((runOps (InMemBaseStorage.reliable : BaseStorage InMemBaseStorage ε) codec
        (newPersistentSlabStorage base []) ops).1.retrieve InMemBaseStorage.reliable codec id).1.2.1 = true →
      (runOps (InMemBaseStorage.reliable : BaseStorage InMemBaseStorage ε) codec
        (newPersistentSlabStorage base []) ops).1.deltas.lookup id = none ∧
      ∃ slab, (runOps (InMemBaseStorage.reliable : BaseStorage InMemBaseStorage ε) codec
        (newPersistentSlabStorage base []) ops).1.cache.lookup id = some (some slab)) := by
  have simulates := (simulates_new loaded).runOps encodes decodes nonEmpty
  exact ⟨fun _ present => simulates.retrieve_of_current owned present,
    fun absent found => simulates.found_of_not_current owned absent found⟩

theorem retrieve_refines_versions_of_unitCodec :
    (∀ slab data, unitCodec.encode slab = .ok data → data ≠ []) ∧ ownedID.address ≠ addressUndefined ∧
      ((runOps (InMemBaseStorage.reliable : BaseStorage InMemBaseStorage Unit) unitCodec
          (newPersistentSlabStorage newInMemBaseStorage []) [.store ownedID (), .fastCommit 0, .dropCache]).1.retrieve
        InMemBaseStorage.reliable unitCodec ownedID).1 = (some (), true, none) := by
  have encodes : ∀ slab, ∃ data, unitCodec.encode slab = .ok data := fun _ => ⟨[0], rfl⟩
  have decodes : ∀ id slab data, unitCodec.encode slab = .ok data → unitCodec.decodeSlab id data = .ok slab :=
    fun _ _ _ encoded => by cases encoded; rfl
  have nonEmpty : ∀ slab data, unitCodec.encode slab = .ok data → data ≠ [] :=
    fun _ _ encoded => by cases encoded; exact List.cons_ne_nil _ _
  have owned : ownedID.address ≠ addressUndefined := by decide
  exact ⟨nonEmpty, owned, (@retrieve_refines_versions Unit Unit unitCodec encodes decodes newInMemBaseStorage ∅
    (fun _ _ => rfl) _ (fun _ _ => nonEmpty) ownedID owned).1 () rfl⟩

end PersistentSlabStorage

end Atree

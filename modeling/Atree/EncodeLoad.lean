import Atree.Persistent.Storage

/-! `BasicSlabStorage.StorageIDs`, `Encode` and `Load`, with Go's map order as a list of
entries and the codec a parameter. `Load` of `Encode` puts back every slab, in any
order, when `DecodeSlab` inverts `Encode`. -/

namespace Atree

namespace BasicSlabStorage

variable {ε : Type} (codec : Codec ε Slab)

/-- `StorageIDs()`, with the ids of the slabs in the map order `order`. -/
def storageIDs (_s : BasicSlabStorage) (order : List StorageID) : List StorageID :=
  order.foldl (fun result id => result ++ [id]) []

/-- `StorageIDs` lists each stored id once. -/
theorem storageIDs_perm (s : BasicSlabStorage) {order : List StorageID} (listed : order.Perm s.slabs.keys) :
    (storageIDs s order).Perm s.slabs.keys := by
  have appended : ∀ ids result : List StorageID, ids.foldl (fun result id => result ++ [id]) result = result ++ ids := by
    intro ids
    induction ids with
    | nil => simp
    | cons id ids ih => intro result; simp [ih]
  rw [storageIDs, appended, List.nil_append]
  exact listed

/-- The loop of `Encode` over the slabs, in map order. -/
def encodeLoop : List (Σ _ : StorageID, Slab) → AList (fun _ : StorageID => Bytes) →
    Except ε (AList (fun _ : StorageID => Bytes))
  | [], m => .ok m
  | ⟨id, slab⟩ :: entries, m =>
    match codec.encode slab with
    | .error err => .error err
    | .ok b => encodeLoop entries (m.insert id b)

/-- `Encode()`, with the slabs in the map order `order`. -/
def encode (_s : BasicSlabStorage) (order : List (Σ _ : StorageID, Slab)) :
    Except ε (AList (fun _ : StorageID => Bytes)) :=
  encodeLoop codec order ∅

/-- The loop of `Load` over the segments, in map order: the slabs it leaves and the
error it stops at. -/
def loadLoop : List (Σ _ : StorageID, Bytes) → AList (fun _ : StorageID => Slab) →
    AList (fun _ : StorageID => Slab) × Option ε
  | [], slabs => (slabs, none)
  | ⟨id, data⟩ :: entries, slabs =>
    match codec.decodeSlab id data with
    | .error err => (slabs, some err)
    | .ok slab => loadLoop entries (slabs.insert id slab)

/-- `Load(m)`, with the segments of `m` in the map order `order`. -/
def load (s : BasicSlabStorage) (order : List (Σ _ : StorageID, Bytes)) : BasicSlabStorage × Option ε :=
  ({ s with slabs := (loadLoop codec order s.slabs).1 }, (loadLoop codec order s.slabs).2)

variable {codec}

/-- The encoding loop succeeds exactly when every slab it meets encodes. -/
theorem encodeLoop_ok_iff (entries : List (Σ _ : StorageID, Slab)) (m : AList (fun _ : StorageID => Bytes)) :
    (∃ m', encodeLoop codec entries m = .ok m') ↔ ∀ e ∈ entries, ∃ data, codec.encode e.2 = .ok data := by
  induction entries generalizing m with
  | nil => exact ⟨fun _ _ member => absurd member (List.not_mem_nil _), fun _ => ⟨m, rfl⟩⟩
  | cons entry entries ih =>
    obtain ⟨id, slab⟩ := entry
    cases encoded : codec.encode slab with
    | error err => simp [encodeLoop, encoded]
    | ok data => simp [encodeLoop, encoded, ih]

private theorem encodeLoop_lookup {source : AList (fun _ : StorageID => Slab)} {entries : List (Σ _ : StorageID, Slab)}
    (fromSource : ∀ e ∈ entries, source.lookup e.1 = some e.2) {m m' : AList (fun _ : StorageID => Bytes)}
    (encoded : encodeLoop codec entries m = .ok m') (id : StorageID) :
    m'.lookup id = if id ∈ entries.keys then (source.lookup id).bind fun slab => (codec.encode slab).toOption
      else m.lookup id := by
  induction entries generalizing m with
  | nil => cases encoded; rfl
  | cons entry entries ih =>
    obtain ⟨id', slab⟩ := entry
    have found := fromSource ⟨id', slab⟩ (List.mem_cons_self _ _)
    cases encodes : codec.encode slab with
    | error err => simp [encodeLoop, encodes] at encoded
    | ok data =>
      simp only [encodeLoop, encodes] at encoded
      rw [ih (fun e member => fromSource e (List.mem_cons_of_mem _ member)) encoded]
      by_cases same : id = id'
      · subst same
        simp [found, encodes, Except.toOption]
      · simp only [List.keys_cons, List.mem_cons, same, false_or, AList.lookup_insert_ne same]

private theorem loadLoop_of_decoded {source : AList (fun _ : StorageID => Slab)} {entries : List (Σ _ : StorageID, Bytes)}
    (decoded : ∀ e ∈ entries, ∃ slab, source.lookup e.1 = some slab ∧ codec.decodeSlab e.1 e.2 = .ok slab)
    (slabs : AList (fun _ : StorageID => Slab)) :
    (loadLoop codec entries slabs).2 = none ∧
      ∀ id, (loadLoop codec entries slabs).1.lookup id =
        if id ∈ entries.keys then source.lookup id else slabs.lookup id := by
  induction entries generalizing slabs with
  | nil => exact ⟨rfl, fun _ => rfl⟩
  | cons entry entries ih =>
    obtain ⟨id', data⟩ := entry
    obtain ⟨slab, found, decodes⟩ := decoded ⟨id', data⟩ (List.mem_cons_self _ _)
    obtain ⟨succeeded, lookups⟩ :=
      ih (fun e member => decoded e (List.mem_cons_of_mem _ member)) (slabs.insert id' slab)
    simp only [loadLoop, decodes]
    refine ⟨succeeded, fun id => ?_⟩
    rw [lookups]
    by_cases same : id = id'
    · subst same
      simp [found]
    · simp only [List.keys_cons, List.mem_cons, same, false_or, AList.lookup_insert_ne same]

/-- `Encode` succeeds, in every map order, exactly when every slab encodes. -/
theorem encode_ok_iff (s : BasicSlabStorage) {order : List (Σ _ : StorageID, Slab)} (listed : order.Perm s.slabs.entries) :
    (∃ m, encode codec s order = .ok m) ↔ ∀ id slab, s.slabs.lookup id = some slab → ∃ data, codec.encode slab = .ok data := by
  rw [encode, encodeLoop_ok_iff]
  exact ⟨fun encodes id slab found => encodes ⟨id, slab⟩ (listed.mem_iff.mpr (AList.mem_lookup_iff.mp found)),
    fun encodes e member => encodes e.1 e.2 (AList.mem_lookup_iff.mpr (listed.mem_iff.mp member))⟩

/-- `Load` of what `Encode` returns, in any map order and into any storage, when
`DecodeSlab` inverts `Encode` at the id of the slab encoded and every slab is stored
under its own id: it succeeds, puts back every slab of the encoded storage and leaves
the other ids as they were. -/
theorem load_encode (decodes : ∀ slab data, codec.encode slab = .ok data → codec.decodeSlab slab.id data = .ok slab)
    {s : BasicSlabStorage} (ownIDs : ∀ id slab, s.slabs.lookup id = some slab → slab.id = id)
    {order : List (Σ _ : StorageID, Slab)} (listed : order.Perm s.slabs.entries)
    {m : AList (fun _ : StorageID => Bytes)} (encoded : encode codec s order = .ok m)
    (t : BasicSlabStorage) {order' : List (Σ _ : StorageID, Bytes)} (listed' : order'.Perm m.entries) :
    (load codec t order').2 = none ∧ ∀ id, (load codec t order').1.slabs.lookup id = (s.slabs.lookup id).or (t.slabs.lookup id) := by
  have fromSource : ∀ e ∈ order, s.slabs.lookup e.1 = some e.2 :=
    fun e member => AList.mem_lookup_iff.mpr (listed.mem_iff.mp member)
  have segments : ∀ id, m.lookup id = (s.slabs.lookup id).bind fun slab => (codec.encode slab).toOption := by
    intro id
    rw [encodeLoop_lookup fromSource encoded id]
    by_cases stored : id ∈ order.keys
    · rw [if_pos stored]
    · have absent : s.slabs.lookup id = none := by
        rw [AList.lookup_eq_none]
        exact fun member => stored ((listed.map Sigma.fst).mem_iff.mpr (AList.mem_keys.mpr member))
      rw [if_neg stored, absent]
      rfl
  have encodes := (encode_ok_iff s listed).mp ⟨m, encoded⟩
  have decoded : ∀ e ∈ order', ∃ slab, s.slabs.lookup e.1 = some slab ∧ codec.decodeSlab e.1 e.2 = .ok slab := by
    intro e member
    have segment := AList.mem_lookup_iff.mpr (listed'.mem_iff.mp member)
    rw [segments] at segment
    obtain ⟨slab, found, encodedSlab⟩ := Option.bind_eq_some.mp segment
    refine ⟨slab, found, ownIDs e.1 slab found ▸ decodes _ _ ?_⟩
    obtain ⟨data, encodes'⟩ := encodes e.1 slab found
    rw [encodes'] at encodedSlab ⊢
    cases encodedSlab
    rfl
  obtain ⟨succeeded, lookups⟩ := loadLoop_of_decoded decoded t.slabs
  refine ⟨succeeded, fun id => ?_⟩
  show (loadLoop codec order' t.slabs).1.lookup id = _
  rw [lookups]
  cases found : s.slabs.lookup id with
  | none =>
    have unlisted : id ∉ order'.keys := fun member => by
      obtain ⟨data, segment⟩ := Option.isSome_iff_exists.mp
        (AList.lookup_isSome.mpr (AList.mem_keys.mp ((listed'.map Sigma.fst).mem_iff.mp member)))
      rw [segments, found] at segment
      cases segment
    simp [unlisted]
  | some slab =>
    obtain ⟨data, encodedSlab⟩ := encodes id slab found
    have listedID : id ∈ order'.keys := (listed'.map Sigma.fst).mem_iff.mpr
      (AList.mem_keys.mpr (AList.lookup_isSome.mp (by rw [segments, found]; simp [encodedSlab, Except.toOption])))
    simp [listedID]

/-- An id other than the undefined one. -/
def otherSampleID : StorageID := ⟨addressUndefined, Bytes8.ofUint64 1⟩

/-- A codec for `StorableSlab`s of plain values, blind to ids as atree's encoding is:
a slab encodes to the four big-endian bytes of its value's size, and four bytes decode
to such a slab under the id `DecodeSlab` is given. -/
def valueCodec : Codec Unit Slab :=
  ⟨fun
    | .storable ⟨_, .value size⟩ => .ok (bigEndianBytes 4 size.toNat)
    | _ => .error (),
   fun id data => if data.length = 4 then .ok (.storable ⟨id, .value (UInt32.ofNat (bigEndianValue data))⟩)
     else .error ()⟩

private theorem valueCodec_decodes (slab : Slab) (data : Bytes) (encoded : valueCodec.encode slab = .ok data) :
    valueCodec.decodeSlab slab.id data = .ok slab := by
  rcases slab with _ | _ | _ | _ | ⟨id, _ | _ | size⟩ <;> simp only [valueCodec, reduceCtorEq] at encoded
  simp only [Except.ok.injEq] at encoded
  subst encoded
  have roundTrip : UInt32.ofNat (bigEndianValue (bigEndianBytes 4 size.toNat)) = size := by
    have bounded : size.toNat < 256 ^ 4 := size.toNat_lt_size
    rw [bigEndianValue_bigEndianBytes, Nat.mod_eq_of_lt bounded]
    exact UInt32.eq_of_val_eq (by simp [UInt32.ofNat, UInt32.toNat])
  simp [valueCodec, Slab.id, roundTrip]

/-- Two `StorableSlab`s of plain values, each under its own id. -/
def sampleStorage : BasicSlabStorage :=
  ⟨((∅ : AList (fun _ : StorageID => Slab)).insert storageIDUndefined (.storable ⟨storageIDUndefined, .value 7⟩)).insert
      otherSampleID (.storable ⟨otherSampleID, .value 300⟩), ∅⟩

private theorem sampleStorage_ownIDs (id : StorageID) (slab : Slab) (found : sampleStorage.slabs.lookup id = some slab) :
    slab.id = id := by
  have listed : ⟨id, slab⟩ ∈ sampleStorage.slabs.entries := AList.mem_lookup_iff.mp found
  have entries : sampleStorage.slabs.entries =
      [⟨otherSampleID, .storable ⟨otherSampleID, .value 300⟩⟩,
        ⟨storageIDUndefined, .storable ⟨storageIDUndefined, .value 7⟩⟩] := rfl
  rw [entries] at listed
  rcases List.mem_pair.mp listed with same | same <;> cases same <;> rfl

theorem load_encode_of_valueCodec :
    (∀ slab data, valueCodec.encode slab = .ok data → valueCodec.decodeSlab slab.id data = .ok slab) ∧
      (∀ id slab, sampleStorage.slabs.lookup id = some slab → slab.id = id) ∧
      ∃ m, encode valueCodec sampleStorage sampleStorage.slabs.entries = .ok m ∧
        (load valueCodec newBasicSlabStorage m.entries).2 = none ∧
        (load valueCodec newBasicSlabStorage m.entries).1.slabs.lookup otherSampleID =
          some (.storable ⟨otherSampleID, .value 300⟩) := by
  obtain ⟨m, encoded⟩ : ∃ m, encode valueCodec sampleStorage sampleStorage.slabs.entries = .ok m := ⟨_, rfl⟩
  obtain ⟨succeeded, lookups⟩ :=
    load_encode valueCodec_decodes sampleStorage_ownIDs (.refl _) encoded newBasicSlabStorage (.refl _)
  exact ⟨valueCodec_decodes, sampleStorage_ownIDs, m, encoded, succeeded, (lookups otherSampleID).trans rfl⟩

private theorem loadLoop_append_of_failed {pre : List (Σ _ : StorageID, Bytes)}
    (decodedBefore : ∀ e ∈ pre, ∃ slab, codec.decodeSlab e.1 e.2 = .ok slab) {id : StorageID} {data : Bytes} {err : ε}
    (failed : codec.decodeSlab id data = .error err) (post : List (Σ _ : StorageID, Bytes))
    (slabs : AList (fun _ : StorageID => Slab)) :
    loadLoop codec (pre ++ ⟨id, data⟩ :: post) slabs = ((loadLoop codec pre slabs).1, some err) ∧
      (loadLoop codec pre slabs).2 = none := by
  induction pre generalizing slabs with
  | nil => simp [loadLoop, failed]
  | cons entry pre ih =>
    obtain ⟨slab, decodes⟩ := decodedBefore entry (List.mem_cons_self _ _)
    simpa [loadLoop, decodes] using ih (fun e member => decodedBefore e (List.mem_cons_of_mem _ member)) _

/-- `Load` is not atomic: when the segment it meets first that does not decode follows
segments that do, it returns that segment's error and leaves the storage as a `Load`
of the segments before it, which succeeds, would; it decodes none after it. -/
theorem load_of_failed (t : BasicSlabStorage) {pre : List (Σ _ : StorageID, Bytes)}
    (decodedBefore : ∀ e ∈ pre, ∃ slab, codec.decodeSlab e.1 e.2 = .ok slab) {id : StorageID} {data : Bytes} {err : ε}
    (failed : codec.decodeSlab id data = .error err) (post : List (Σ _ : StorageID, Bytes)) :
    load codec t (pre ++ ⟨id, data⟩ :: post) = ((load codec t pre).1, some err) ∧ (load codec t pre).2 = none := by
  obtain ⟨stopped, succeeded⟩ := loadLoop_append_of_failed decodedBefore failed post t.slabs
  simp only [load, stopped, succeeded, and_self]

/-- A codec that encodes one slab only, the `StorableSlab` of an empty value under the
undefined id, as one byte, and decodes that byte back. -/
def sampleCodec : Codec Unit Slab :=
  ⟨fun
    | .storable slab => if slab = ⟨storageIDUndefined, .value 0⟩ then .ok [0] else .error ()
    | _ => .error (),
   fun _ data => if data = [0] then .ok (.storable ⟨storageIDUndefined, .value 0⟩) else .error ()⟩

theorem load_of_failed_of_sampleCodec :
    (∀ e ∈ [(⟨storageIDUndefined, [0]⟩ : Σ _ : StorageID, Bytes)], ∃ slab, sampleCodec.decodeSlab e.1 e.2 = .ok slab) ∧
      sampleCodec.decodeSlab otherSampleID [1] = .error () ∧
      load sampleCodec newBasicSlabStorage [⟨storageIDUndefined, [0]⟩, ⟨otherSampleID, [1]⟩] =
        ((load sampleCodec newBasicSlabStorage [⟨storageIDUndefined, [0]⟩]).1, some ()) := by
  have decodedBefore : ∀ e ∈ [(⟨storageIDUndefined, [0]⟩ : Σ _ : StorageID, Bytes)],
      ∃ slab, sampleCodec.decodeSlab e.1 e.2 = .ok slab := by
    simp only [List.mem_singleton, forall_eq]
    exact ⟨_, rfl⟩
  have failed : sampleCodec.decodeSlab otherSampleID [1] = .error () := rfl
  exact ⟨decodedBefore, failed, (load_of_failed newBasicSlabStorage decodedBefore failed []).1⟩

end BasicSlabStorage

end Atree

import Mathlib.Data.List.Sort
import Atree.BaseStorage

/-! `PersistentSlabStorage`: a read cache and pending writes (deltas) in front of a base
store, generic in its slabs, with the codec a parameter and Go's in-place mutation
as explicit state passing. -/

namespace Atree

/-- `Encode` and `DecodeSlab`, with the storage's CBOR modes and decoders fixed. -/
structure Codec (ε S : Type) where
  encode : S → Except ε Bytes
  decodeSlab : StorageID → Bytes → Except ε S

/-- A codec for one-valued slabs: every slab encodes to one byte, the encoding
decodes back, and the empty byte string does not decode. -/
def unitCodec : Codec Unit Unit :=
  ⟨fun _ => .ok [0], fun _ data => if data = [] then .error () else .ok ()⟩

/-- Deltas and the cache map ids to slabs; `none` is Go's `nil`, a deleted slab. -/
abbrev SlabMap (S : Type) := AList (fun _ : StorageID => Option S)

/-- Go's `m[id]` on a slab map: the slab under `id`, `nil` when deleted or absent. -/
def SlabMap.get {S : Type} (m : SlabMap S) (id : StorageID) : Option S := (m.lookup id).getD none

structure PersistentSlabStorage (σ S : Type) where
  baseStorage : σ
  cache : SlabMap S
  deltas : SlabMap S
  tempStorageIndex : Nat
  autoCommit : Bool

abbrev StorageOption (σ S : Type) := PersistentSlabStorage σ S → PersistentSlabStorage σ S

/-- `NewPersistentSlabStorage`, applying the options in order. -/
def newPersistentSlabStorage {σ S : Type} (base : σ) (opts : List (StorageOption σ S)) :
    PersistentSlabStorage σ S :=
  opts.foldl (fun storage applyOption => applyOption storage) ⟨base, ∅, ∅, 0, false⟩

def withAutoCommit {σ S : Type} : StorageOption σ S := fun st => { st with autoCommit := true }

/-- The `less` function `sortedOwnedDeltaKeys` hands to `sort.Slice`. -/
def storageIDLess (a b : StorageID) : Bool :=
  if a.address = b.address then a.indexAsUint64 < b.indexAsUint64
  else a.addressAsUint64 < b.addressAsUint64

/-- The order `sort.Slice` leaves the keys in: `a` may precede `b` unless `b` is less. -/
def storageIDLe (a b : StorageID) : Prop := storageIDLess b a = false

instance : DecidableRel storageIDLe := fun a b => inferInstanceAs (Decidable (storageIDLess b a = false))

/-- The keys of the deltas owned by an account, sorted by `storageIDLess`. The
argument is the deltas' keys in Go's map iteration order. -/
def sortedOwnedDeltaKeys (keys : List StorageID) : List StorageID :=
  (keys.filter (fun k => k.address ≠ addressUndefined)).insertionSort storageIDLe

/-- What an encoder goroutine of `FastCommit` sends for one id. -/
structure EncodedSlabs (ε : Type) where
  storageID : StorageID
  data : Bytes
  err : Option ε
  deriving DecidableEq

namespace PersistentSlabStorage

variable {σ ε S : Type} (B : BaseStorage σ ε) (codec : Codec ε S)

/-- `GenerateStorageID`: temporary ids come from `tempStorageIndex`, the others
from the base store. -/
def generateStorageID (s : PersistentSlabStorage σ S) (address : Address) :
    Except ε (StorageID × PersistentSlabStorage σ S) :=
  if address = addressUndefined then
    let tempStorageIndex := (s.tempStorageIndex + 1) % 2 ^ 64
    .ok (newStorageID address (Bytes8.ofUint64 tempStorageIndex), { s with tempStorageIndex })
  else
    match B.generateStorageID s.baseStorage address with
    | .ok (id, base) => .ok (id, { s with baseStorage := base })
    | .error err => .error err

/-- The loop of `Commit` over the sorted owned keys: the base store and cache it
leaves, and the error it stops at. -/
def commitLoop (deltas : SlabMap S) : List StorageID → σ → SlabMap S → σ × SlabMap S × Option ε
  | [], base, cache => (base, cache, none)
  | id :: ids, base, cache =>
    match deltas.get id with
    | none =>
      match B.remove base id with
      | .error err => (base, cache, some err)
      | .ok base => commitLoop deltas ids base cache
    | some slab =>
      match codec.encode slab with
      | .error err => (base, cache, some err)
      | .ok data =>
        match B.store base id data with
        | .error err => (base, cache, some err)
        | .ok base => commitLoop deltas ids base (cache.insert id (some slab))

/-- `Commit`: on success the deltas are reset; an error leaves them as they were. -/
def commit (s : PersistentSlabStorage σ S) : PersistentSlabStorage σ S × Option ε :=
  match commitLoop B codec s.deltas (sortedOwnedDeltaKeys s.deltas.keys) s.baseStorage s.cache with
  | (base, cache, some err) => ({ s with baseStorage := base, cache }, some err)
  | (base, cache, none) => ({ s with baseStorage := base, cache, deltas := ∅ }, none)

/-- The encoder goroutine's work on one job. -/
def encodeJob (deltas : SlabMap S) (id : StorageID) : EncodedSlabs ε :=
  match deltas.get id with
  | none => ⟨id, [], none⟩
  | some slab =>
    match codec.encode slab with
    | .ok data => ⟨id, data, none⟩
    | .error err => ⟨id, [], some err⟩

/-- The result loop of `FastCommit`, over the results in the order they arrive. -/
def receiveResults : List (EncodedSlabs ε) → AList (fun _ : StorageID => Bytes) →
    Except ε (AList (fun _ : StorageID => Bytes))
  | [], encSlabByID => .ok encSlabByID
  | result :: results, encSlabByID =>
    match result.err with
    | some err => .error err
    | none => receiveResults results (encSlabByID.insert result.storageID result.data)

/-- The loop of `FastCommit` that hands the encoded slabs to the base store. -/
def fastCommitLoop (deltas : SlabMap S) (encSlabByID : AList (fun _ : StorageID => Bytes)) :
    List StorageID → σ → SlabMap S → σ × SlabMap S × Option ε
  | [], base, cache => (base, cache, none)
  | id :: ids, base, cache =>
    let data := (encSlabByID.lookup id).getD []
    if data = [] then
      match B.remove base id with
      | .error err => (base, cache, some err)
      | .ok base => fastCommitLoop deltas encSlabByID ids base cache
    else
      match B.store base id data with
      | .error err => (base, cache, some err)
      | .ok base => fastCommitLoop deltas encSlabByID ids base (cache.insert id (deltas.get id))

/-- `FastCommit` once its encoder goroutines have delivered their results in the
order `arrivals`; the goroutines themselves are modelled in `Persistent.Workers`. -/
def fastCommit (s : PersistentSlabStorage σ S) (arrivals : List (EncodedSlabs ε)) :
    PersistentSlabStorage σ S × Option ε :=
  match receiveResults arrivals ∅ with
  | .error err => (s, some err)
  | .ok encSlabByID =>
    match fastCommitLoop B s.deltas encSlabByID (sortedOwnedDeltaKeys s.deltas.keys)
        s.baseStorage s.cache with
    | (base, cache, some err) => ({ s with baseStorage := base, cache }, some err)
    | (base, cache, none) => ({ s with baseStorage := base, cache, deltas := ∅ }, none)

def dropDeltas (s : PersistentSlabStorage σ S) : PersistentSlabStorage σ S := { s with deltas := ∅ }

def dropCache (s : PersistentSlabStorage σ S) : PersistentSlabStorage σ S := { s with cache := ∅ }

/-- `Retrieve`: deltas first, then the read cache, then the base store, caching
what decodes. The result is Go's `(slab, found, err)`. -/
def retrieve (s : PersistentSlabStorage σ S) (id : StorageID) :
    (Option S × Bool × Option ε) × PersistentSlabStorage σ S :=
  match s.deltas.lookup id with
  | some slab => ((slab, slab.isSome, none), s)
  | none =>
    match s.cache.lookup id with
    | some slab => ((slab, true, none), s)
    | none =>
      match B.retrieve s.baseStorage id with
      | .error err => ((none, false, some err), s)
      | .ok (data, ok) =>
        match codec.decodeSlab id data with
        | .ok slab => ((some slab, ok, none), { s with cache := s.cache.insert id (some slab) })
        | .error err => ((none, ok, some err), s)

/-- `Store`: write through to the base store under `autoCommit`, else record a delta. -/
def store (s : PersistentSlabStorage σ S) (id : StorageID) (slab : S) :
    PersistentSlabStorage σ S × Option ε :=
  if s.autoCommit then
    match codec.encode slab with
    | .error err => (s, some err)
    | .ok data =>
      match B.store s.baseStorage id data with
      | .error err => (s, some err)
      | .ok base => ({ s with baseStorage := base, cache := s.cache.insert id (some slab) }, none)
  else ({ s with deltas := s.deltas.insert id (some slab) }, none)

/-- `Remove`: under `autoCommit` remove from the base store first; then, in both
modes, record `nil` in the deltas. -/
def remove (s : PersistentSlabStorage σ S) (id : StorageID) : PersistentSlabStorage σ S × Option ε :=
  if s.autoCommit then
    match B.remove s.baseStorage id with
    | .error err => (s, some err)
    | .ok base => ({ s with baseStorage := base, deltas := s.deltas.insert id none }, none)
  else ({ s with deltas := s.deltas.insert id none }, none)

@[simp] theorem remove_autoCommit (s : PersistentSlabStorage σ S) (id : StorageID) :
    (s.remove B id).1.autoCommit = s.autoCommit := by
  unfold remove
  split <;> (try split) <;> rfl

/-- A `Remove` that succeeds records a tombstone, in both modes. -/
theorem remove_deltas (s : PersistentSlabStorage σ S) {id : StorageID} (removed : (s.remove B id).2 = none) :
    (s.remove B id).1.deltas = s.deltas.insert id none := by
  unfold remove at removed ⊢
  split
  · split
    · simp_all
    · rfl
  · rfl

@[simp] theorem store_tempStorageIndex (s : PersistentSlabStorage σ S) (id : StorageID) (slab : S) :
    (s.store B codec id slab).1.tempStorageIndex = s.tempStorageIndex := by
  unfold store
  split <;> (try split) <;> (try split) <;> rfl

@[simp] theorem remove_tempStorageIndex (s : PersistentSlabStorage σ S) (id : StorageID) :
    (s.remove B id).1.tempStorageIndex = s.tempStorageIndex := by
  unfold remove
  split <;> (try split) <;> rfl

/-- `Retrieve` may fill the read cache and changes nothing else. -/
theorem retrieve_eq_cache (s : PersistentSlabStorage σ S) (id : StorageID) :
    (s.retrieve B codec id).2 = { s with cache := (s.retrieve B codec id).2.cache } := by
  unfold retrieve
  split <;> (try split) <;> (try split) <;> (try split) <;> rfl

/-- A write-through `Store` never touches the deltas. -/
theorem store_deltas_of_autoCommit (s : PersistentSlabStorage σ S) (autoCommitOn : s.autoCommit = true)
    (id : StorageID) (slab : S) : (s.store B codec id slab).1.deltas = s.deltas := by
  unfold store
  rw [if_pos autoCommitOn]
  split
  · rfl
  · split <;> rfl

end PersistentSlabStorage

end Atree

import Atree.Persistent.Storage

/-! The comparator of `sortedOwnedDeltaKeys` is the order of the 16 raw bytes, a strict
total order, so the owned keys come out in one order whatever order Go's map yields. -/

namespace Atree

/-- The big-endian number the 16 raw bytes of an id spell. -/
def StorageID.sortKey (id : StorageID) : Nat := bigEndianValue id.rawBytes

private theorem StorageID.sortKey_eq (id : StorageID) :
    id.sortKey = id.addressAsUint64 * 2 ^ 64 + id.indexAsUint64 := by
  simp [StorageID.sortKey, StorageID.rawBytes, bigEndianValue_append, id.index.length_eq,
    StorageID.addressAsUint64, StorageID.indexAsUint64, Bytes8.toUint64]

private theorem StorageID.sortKey_injective {a b : StorageID} (same : a.sortKey = b.sortKey) : a = b := by
  have sameBytes := bigEndianValue_injective (by simp [StorageID.rawBytes, Bytes8.length_eq]) same
  have decoded := newStorageIDFromRawBytes_rawBytes a
  rw [sameBytes, newStorageIDFromRawBytes_rawBytes] at decoded
  exact (Except.ok.inj decoded).symm

private theorem storageIDLess_iff_sortKey (a b : StorageID) :
    storageIDLess a b = true ↔ a.sortKey < b.sortKey := by
  have bounded : a.indexAsUint64 < 2 ^ 64 := a.index.toUint64_lt
  have bounded' : b.indexAsUint64 < 2 ^ 64 := b.index.toUint64_lt
  rw [a.sortKey_eq, b.sortKey_eq, digit_lt_digit_iff bounded bounded']
  unfold storageIDLess
  by_cases sameAddress : a.address = b.address
  · have : a.addressAsUint64 = b.addressAsUint64 := by simp [StorageID.addressAsUint64, sameAddress]
    simp [sameAddress, this, StorageID.indexAsUint64]
  · have : a.addressAsUint64 ≠ b.addressAsUint64 := fun same => sameAddress (Bytes8.toUint64_injective same)
    simp [sameAddress, this]

/-- `storageIDLess` is the lexicographic order on (`AddressAsUint64`, `IndexAsUint64`). -/
theorem storageIDLess_iff_lex (a b : StorageID) :
    storageIDLess a b = true ↔ a.addressAsUint64 < b.addressAsUint64 ∨
      (a.addressAsUint64 = b.addressAsUint64 ∧ a.indexAsUint64 < b.indexAsUint64) := by
  rw [storageIDLess_iff_sortKey, a.sortKey_eq, b.sortKey_eq]
  exact digit_lt_digit_iff a.index.toUint64_lt b.index.toUint64_lt

/-- `storageIDLess` is the lexicographic order of the raw bytes `ToRawBytes` writes. -/
theorem storageIDLess_iff_rawBytes (a b : StorageID) :
    storageIDLess a b = true ↔ a.rawBytes < b.rawBytes := by
  rw [storageIDLess_iff_sortKey]
  exact bigEndianValue_lt_iff (by simp [StorageID.rawBytes, Bytes8.length_eq])

private theorem storageIDLess_eq_false_iff (a b : StorageID) :
    storageIDLess a b = false ↔ b.sortKey ≤ a.sortKey := by
  rw [← Bool.not_eq_true, storageIDLess_iff_sortKey, Nat.not_lt]

private theorem storageIDLe_iff (a b : StorageID) : storageIDLe a b ↔ a.sortKey ≤ b.sortKey :=
  storageIDLess_eq_false_iff b a

private theorem storageIDLe_total (a b : StorageID) : storageIDLe a b ∨ storageIDLe b a := by
  rw [storageIDLe_iff, storageIDLe_iff]
  omega

private theorem storageIDLe_trans {a b c : StorageID} (below : storageIDLe a b) (above : storageIDLe b c) :
    storageIDLe a c := by
  rw [storageIDLe_iff] at *
  omega

private theorem storageIDLe_antisymm {a b : StorageID} (below : storageIDLe a b) (above : storageIDLe b a) : a = b :=
  StorageID.sortKey_injective (Nat.le_antisymm ((storageIDLe_iff a b).mp below) ((storageIDLe_iff b a).mp above))

instance : IsTotal StorageID storageIDLe := ⟨storageIDLe_total⟩

instance : IsTrans StorageID storageIDLe := ⟨fun _ _ _ => storageIDLe_trans⟩

instance : IsAntisymm StorageID storageIDLe := ⟨fun _ _ => storageIDLe_antisymm⟩

/-- An id is owned when its address is not `AddressUndefined`. -/
def StorageID.owned (id : StorageID) : Bool := id.address ≠ addressUndefined

theorem sortedOwnedDeltaKeys_perm (keys : List StorageID) :
    (sortedOwnedDeltaKeys keys).Perm (keys.filter StorageID.owned) :=
  List.perm_insertionSort storageIDLe _

@[simp] theorem mem_sortedOwnedDeltaKeys {keys : List StorageID} {id : StorageID} :
    id ∈ sortedOwnedDeltaKeys keys ↔ id ∈ keys ∧ id.address ≠ addressUndefined := by
  simp [(sortedOwnedDeltaKeys_perm keys).mem_iff, StorageID.owned]

private theorem sortedOwnedDeltaKeys_sorted (keys : List StorageID) :
    (sortedOwnedDeltaKeys keys).Sorted storageIDLe :=
  List.sorted_insertionSort storageIDLe _

/-- On distinct keys the sorted order is strict: each key is less than every later one. -/
theorem sortedOwnedDeltaKeys_strictly_sorted {keys : List StorageID} (distinct : keys.Nodup) :
    (sortedOwnedDeltaKeys keys).Sorted (fun a b => storageIDLess a b = true) := by
  have nodup := (sortedOwnedDeltaKeys_perm keys).nodup_iff.mpr (distinct.filter _)
  refine ((sortedOwnedDeltaKeys_sorted keys).and nodup).imp ?_
  rintro a b ⟨below, differ⟩
  rw [storageIDLe_iff] at below
  rw [storageIDLess_iff_sortKey]
  exact Nat.lt_of_le_of_ne below (fun same => differ (StorageID.sortKey_injective same))

private theorem eq_sortedOwnedDeltaKeys {keys arrangement : List StorageID}
    (perm : arrangement.Perm (keys.filter StorageID.owned)) (sorted : arrangement.Sorted storageIDLe) :
    arrangement = sortedOwnedDeltaKeys keys :=
  List.eq_of_perm_of_sorted (perm.trans (sortedOwnedDeltaKeys_perm keys).symm) sorted
    (sortedOwnedDeltaKeys_sorted keys)

/-- The sorted owned keys do not depend on the order the map iteration yields the keys in. -/
theorem sortedOwnedDeltaKeys_eq_of_perm {keys keys' : List StorageID} (perm : keys.Perm keys') :
    sortedOwnedDeltaKeys keys = sortedOwnedDeltaKeys keys' :=
  eq_sortedOwnedDeltaKeys ((sortedOwnedDeltaKeys_perm keys).trans (perm.filter _))
    (sortedOwnedDeltaKeys_sorted keys)

end Atree

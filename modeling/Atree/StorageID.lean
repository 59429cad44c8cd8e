import Mathlib.Data.List.Lex
import Mathlib.Data.Nat.Digits
import Mathlib.Tactic.NormNum
import Mathlib.Tactic.Ring

/-! Storage ids (`array_debug.go`): the 8-byte `Address` and `StorageIndex`, their
big-endian `uint64` readings, the 16-byte raw form, `StorageIndex.Next` and
`StorageID.String`, which prints distinct ids differently. -/

namespace Atree

/-- Go's `[8]byte`, the representation of both `Address` and `StorageIndex`. -/
structure Bytes8 where
  bytes : List UInt8
  length_eq : bytes.length = 8
  deriving DecidableEq

/-- `binary.BigEndian.Uint64`, read over a byte string of any length. -/
def bigEndianValue : List UInt8 → Nat
  | [] => 0
  | byte :: rest => byte.toNat * 256 ^ rest.length + bigEndianValue rest

/-- `binary.BigEndian.PutUint64` over `width` bytes: the low `width` bytes of `n`. -/
def bigEndianBytes : Nat → Nat → List UInt8
  | 0, _ => []
  | width + 1, n => UInt8.ofNat (n / 256 ^ width % 256) :: bigEndianBytes width n

@[simp] theorem length_bigEndianBytes (width n : Nat) :
    (bigEndianBytes width n).length = width := by
  induction width <;> simp [bigEndianBytes, *]

private theorem bigEndianValue_lt (bytes : List UInt8) : bigEndianValue bytes < 256 ^ bytes.length := by
  induction bytes with
  | nil => simp [bigEndianValue]
  | cons byte rest ih =>
    have small : byte.toNat + 1 ≤ 256 := byte.toNat_lt_size
    have scaled := Nat.mul_le_mul_right (256 ^ rest.length) small
    rw [Nat.succ_mul] at scaled
    rw [bigEndianValue, List.length_cons, Nat.pow_succ]
    omega

/-- Two digits over one base `place`, compared: the leading digit decides unless equal. -/
theorem digit_lt_digit_iff {high high' low low' place : Nat}
    (bounded : low < place) (bounded' : low' < place) :
    high * place + low < high' * place + low' ↔ high < high' ∨ (high = high' ∧ low < low') := by
  rcases Nat.lt_trichotomy high high' with less | same | greater
  · have scaled := Nat.mul_le_mul_right place (Nat.succ_le_of_lt less)
    rw [Nat.succ_mul] at scaled
    constructor
    · exact fun _ => Or.inl less
    · intro _; omega
  · subst same; omega
  · have scaled := Nat.mul_le_mul_right place (Nat.succ_le_of_lt greater)
    rw [Nat.succ_mul] at scaled
    constructor
    · intro _; omega
    · rintro (below | ⟨equal, _⟩) <;> omega

private theorem uint8_lt_iff {a b : UInt8} : a < b ↔ a.toNat < b.toNat := by
  rw [UInt8.lt_def, BitVec.lt_def]; rfl

/-- On byte strings of one length, the big-endian reading orders them as the
lexicographic order does. -/
theorem bigEndianValue_lt_iff {bytes bytes' : List UInt8} (sameLength : bytes.length = bytes'.length) :
    bigEndianValue bytes < bigEndianValue bytes' ↔ bytes < bytes' := by
  induction bytes generalizing bytes' with
  | nil =>
    cases bytes' with
    | nil => exact ⟨fun h => absurd h (Nat.lt_irrefl 0), fun h => nomatch h⟩
    | cons _ _ => simp at sameLength
  | cons byte rest ih =>
    cases bytes' with
    | nil => simp at sameLength
    | cons byte' rest' =>
      simp only [List.length_cons, Nat.succ.injEq] at sameLength
      have bounded := bigEndianValue_lt rest
      have bounded' := bigEndianValue_lt rest'
      rw [← sameLength] at bounded'
      simp only [bigEndianValue, ← sameLength]
      rw [digit_lt_digit_iff bounded bounded', ih sameLength]
      constructor
      · rintro (leading | ⟨equal, tail⟩)
        · exact .rel (uint8_lt_iff.mpr leading)
        · obtain rfl := UInt8.toNat.inj equal
          exact .cons tail
      · intro ordered
        cases ordered with
        | rel leading => exact Or.inl (uint8_lt_iff.mp leading)
        | cons tail => exact Or.inr ⟨rfl, tail⟩

theorem bigEndianValue_injective {bytes bytes' : List UInt8} (sameLength : bytes.length = bytes'.length)
    (sameValue : bigEndianValue bytes = bigEndianValue bytes') : bytes = bytes' := by
  induction bytes generalizing bytes' with
  | nil => cases bytes' <;> simp_all
  | cons byte rest ih =>
    cases bytes' with
    | nil => simp at sameLength
    | cons byte' rest' =>
      simp only [List.length_cons, Nat.succ.injEq] at sameLength
      have bounded := bigEndianValue_lt rest
      have bounded' := bigEndianValue_lt rest'
      rw [← sameLength] at bounded'
      simp only [bigEndianValue, ← sameLength] at sameValue
      have leading : byte.toNat = byte'.toNat := by
        rcases Nat.lt_trichotomy byte.toNat byte'.toNat with less | same | greater
        · have := (digit_lt_digit_iff bounded bounded').mpr (Or.inl less); omega
        · exact same
        · have := (digit_lt_digit_iff bounded' bounded).mpr (Or.inl greater); omega
      rw [leading] at sameValue
      rw [UInt8.toNat.inj leading, ih sameLength (by omega)]

theorem bigEndianValue_append (bytes bytes' : List UInt8) :
    bigEndianValue (bytes ++ bytes') = bigEndianValue bytes * 256 ^ bytes'.length + bigEndianValue bytes' := by
  induction bytes with
  | nil => simp [bigEndianValue]
  | cons byte rest ih =>
    rw [List.cons_append, bigEndianValue, bigEndianValue, ih, List.length_append, Nat.pow_add]
    ring

theorem bigEndianValue_bigEndianBytes (width n : Nat) :
    bigEndianValue (bigEndianBytes width n) = n % 256 ^ width := by
  induction width with
  | zero => simp [bigEndianValue, bigEndianBytes, Nat.mod_one]
  | succ width ih =>
    have digit : (UInt8.ofNat (n / 256 ^ width % 256)).toNat = n / 256 ^ width % 256 :=
      UInt8.toNat_ofNat_of_lt (Nat.mod_lt _ (by decide))
    simp only [bigEndianValue, bigEndianBytes, length_bigEndianBytes, digit, ih, Nat.mod_pow_succ]
    rw [Nat.mul_comm, Nat.add_comm]

private theorem bigEndianBytes_bigEndianValue (bytes : List UInt8) :
    bigEndianBytes bytes.length (bigEndianValue bytes) = bytes :=
  bigEndianValue_injective (length_bigEndianBytes _ _) (by
    rw [bigEndianValue_bigEndianBytes, Nat.mod_eq_of_lt (bigEndianValue_lt bytes)])

/-- The big-endian `uint64` a `Bytes8` holds. -/
def Bytes8.toUint64 (b : Bytes8) : Nat := bigEndianValue b.bytes

/-- The `Bytes8` that `binary.BigEndian.PutUint64` writes for `n`, wrapping at `2^64`. -/
def Bytes8.ofUint64 (n : Nat) : Bytes8 := ⟨bigEndianBytes 8 n, length_bigEndianBytes 8 n⟩

theorem Bytes8.toUint64_lt (b : Bytes8) : b.toUint64 < 2 ^ 64 := by
  have bounded := bigEndianValue_lt b.bytes
  rw [b.length_eq] at bounded
  simpa [Bytes8.toUint64] using bounded

@[simp] theorem Bytes8.toUint64_ofUint64 (n : Nat) : (Bytes8.ofUint64 n).toUint64 = n % 2 ^ 64 := by
  simp [Bytes8.toUint64, Bytes8.ofUint64, bigEndianValue_bigEndianBytes]

@[simp] theorem Bytes8.ofUint64_toUint64 (b : Bytes8) : Bytes8.ofUint64 b.toUint64 = b := by
  have roundTrip := bigEndianBytes_bigEndianValue b.bytes
  rw [b.length_eq] at roundTrip
  cases b
  simpa [Bytes8.ofUint64, Bytes8.toUint64] using roundTrip

theorem Bytes8.toUint64_injective {b b' : Bytes8} (same : b.toUint64 = b'.toUint64) : b = b' := by
  rw [← Bytes8.ofUint64_toUint64 b, same, Bytes8.ofUint64_toUint64]

abbrev Address := Bytes8

abbrev StorageIndex := Bytes8

/-- A slab handle: the owning account and the index allocated under it. -/
structure StorageID where
  address : Address
  index : StorageIndex
  deriving DecidableEq

/-- `Address{}`, the zero address of temporary slabs. -/
def addressUndefined : Address := ⟨List.replicate 8 0, rfl⟩

def storageIndexUndefined : StorageIndex := ⟨List.replicate 8 0, rfl⟩

def storageIDUndefined : StorageID := ⟨addressUndefined, storageIndexUndefined⟩

/-- Modelled from the spec: `storageIDSize`, declared outside `src/`; a handle is
16 bytes (§4.3, `TagHandle`). -/
def storageIDSize : Nat := 16

def StorageID.addressAsUint64 (id : StorageID) : Nat := id.address.toUint64

def StorageID.indexAsUint64 (id : StorageID) : Nat := id.index.toUint64

/-- The value of a digit `Nat.digitChar` prints. -/
def digitValue (c : Char) : Nat :=
  if c.toNat ≤ '9'.toNat then c.toNat - '0'.toNat else c.toNat - 'a'.toNat + 10

/-- The number a list of digits in base `base` stands for, the most significant first. -/
def digitsValue (base : Nat) (digits : List Char) : Nat := digits.foldl (fun v c => v * base + digitValue c) 0

private theorem digitValue_digitChar : ∀ d < 16, digitValue (Nat.digitChar d) = d := by decide

private theorem foldl_digitsValue (base : Nat) (digits : List Char) (v : Nat) :
    digits.foldl (fun v c => v * base + digitValue c) v = v * base ^ digits.length + digitsValue base digits := by
  induction digits generalizing v with
  | nil => simp only [List.foldl_nil, List.length_nil, pow_zero, mul_one, digitsValue, add_zero]
  | cons c digits ih =>
    rw [List.foldl_cons, ih]
    conv_rhs => rw [digitsValue, List.foldl_cons, ih]
    rw [List.length_cons, pow_succ]
    ring

private theorem digitsValue_toDigitsCore {base : Nat} (two : 2 ≤ base) (sixteen : base ≤ 16) :
    ∀ fuel n digits, n < fuel →
      digitsValue base (Nat.toDigitsCore base fuel n digits) = n * base ^ digits.length + digitsValue base digits := by
  intro fuel
  induction fuel with
  | zero => intro n digits short; omega
  | succ fuel ih =>
    intro n digits short
    have digit := digitValue_digitChar (n % base) (by have := Nat.mod_lt n (by omega : 0 < base); omega)
    have cons : digitsValue base (Nat.digitChar (n % base) :: digits) =
        n % base * base ^ digits.length + digitsValue base digits := by
      rw [digitsValue, List.foldl_cons, foldl_digitsValue, zero_mul, zero_add, digit]
    simp only [Nat.toDigitsCore]
    split
    · rename_i last
      rw [cons, Nat.mod_eq_of_lt ((Nat.div_eq_zero_iff (by omega)).mp last)]
    · rename_i more
      have smaller : n / base < n := Nat.div_lt_self (Nat.pos_of_ne_zero fun zero => more (zero ▸ Nat.zero_div base))
        (by omega)
      rw [ih (n / base) _ (by omega), cons, List.length_cons, pow_succ]
      conv => rhs; rw [← Nat.div_add_mod n base]
      ring

private theorem digitsValue_toDigits {base : Nat} (two : 2 ≤ base) (sixteen : base ≤ 16) (n : Nat) :
    digitsValue base (Nat.toDigits base n) = n := by
  simpa [digitsValue] using digitsValue_toDigitsCore two sixteen (n + 1) n [] (Nat.lt_succ_self n)

theorem mem_toDigitsCore {base : Nat} (positive : 0 < base) :
    ∀ fuel n digits, ∀ c ∈ Nat.toDigitsCore base fuel n digits, c ∈ digits ∨ ∃ d < base, c = Nat.digitChar d := by
  intro fuel
  induction fuel with
  | zero => exact fun _ _ c member => .inl member
  | succ fuel ih =>
    intro n digits c member
    simp only [Nat.toDigitsCore] at member
    split at member
    · rcases List.mem_cons.mp member with rfl | member
      · exact .inr ⟨_, Nat.mod_lt n positive, rfl⟩
      · exact .inl member
    · rcases ih _ _ c member with member | digit
      · rcases List.mem_cons.mp member with rfl | member
        · exact .inr ⟨_, Nat.mod_lt n positive, rfl⟩
        · exact .inl member
      · exact .inr digit

private theorem dot_not_mem_toDigits {base : Nat} (positive : 0 < base) (sixteen : base ≤ 16) (n : Nat) :
    '.' ∉ Nat.toDigits base n := fun member => by
  rcases mem_toDigitsCore positive _ _ [] _ member with member | ⟨d, small, same⟩
  · cases member
  · have : ∀ d < 16, Nat.digitChar d ≠ '.' := by decide
    exact this d (by omega) same.symm

/-- `StorageID.String()`: `0x%x.%d` of the big-endian `uint64` readings of the address
and the index. -/
def StorageID.string (id : StorageID) : String :=
  "0x" ++ (Nat.toDigits 16 id.addressAsUint64).asString ++ "." ++ (Nat.toDigits 10 id.indexAsUint64).asString

theorem StorageID.string_data (id : StorageID) :
    id.string.data = '0' :: 'x' :: (Nat.toDigits 16 id.addressAsUint64 ++ '.' :: Nat.toDigits 10 id.indexAsUint64) := by
  simp [StorageID.string, List.asString]

/-- Distinct storage ids print distinct strings. -/
theorem StorageID.string_injective {id id' : StorageID} (same : id.string = id'.string) : id = id' := by
  have data := congrArg String.data same
  rw [StorageID.string_data, StorageID.string_data, List.cons.injEq, List.cons.injEq] at data
  obtain ⟨-, -, data⟩ := data
  obtain ⟨address, -, index⟩ := (List.append_cons_inj_of_not_mem (dot_not_mem_toDigits (by norm_num) (by norm_num) _)
    (dot_not_mem_toDigits (by norm_num) (by norm_num) _)).mp data
  have sameAddress := congrArg (digitsValue 16) address
  have sameIndex := congrArg (digitsValue 10) index
  rw [digitsValue_toDigits (by norm_num) (by norm_num), digitsValue_toDigits (by norm_num) (by norm_num)] at sameAddress sameIndex
  exact congrArg₂ StorageID.mk (Bytes8.toUint64_injective sameAddress) (Bytes8.toUint64_injective sameIndex)

/-- `StorageIndex.Next`: decode, add one as a `uint64`, encode. -/
def StorageIndex.next (index : StorageIndex) : StorageIndex := Bytes8.ofUint64 (index.toUint64 + 1)

def newStorageID (address : Address) (index : StorageIndex) : StorageID := ⟨address, index⟩

/-- The errors of this file, with their texts. -/
inductive StorageIDError where
  /-- `ErrStorageID`: "invalid storage id". -/
  | errStorageID
  /-- `ErrStorageIndex`: "invalid storage index". -/
  | errStorageIndex
  /-- "invalid storage id length %d". -/
  | invalidLength (length : Nat)
  /-- "storage id raw buffer is too short". -/
  | rawBufferTooShort
  deriving DecidableEq

/-- `NewStorageIDFromRawBytes`: the first 8 bytes are the address, the next 8 the index. -/
def newStorageIDFromRawBytes (b : List UInt8) : Except StorageIDError StorageID :=
  if short : b.length < storageIDSize then .error (.invalidLength b.length)
  else
    have long : 16 ≤ b.length := by simpa [storageIDSize] using short
    .ok ⟨⟨b.take 8, by simp; omega⟩, ⟨(b.drop 8).take 8, by simp; omega⟩⟩

/-- `ToRawBytes` into the buffer `b`: the buffer afterwards and the count written. -/
def StorageID.toRawBytes (id : StorageID) (b : List UInt8) : Except StorageIDError (Nat × List UInt8) :=
  if b.length < storageIDSize then .error .rawBufferTooShort
  else .ok (storageIDSize, id.address.bytes ++ id.index.bytes ++ b.drop 16)

/-- The 16 bytes `ToRawBytes` writes. -/
def StorageID.rawBytes (id : StorageID) : List UInt8 := id.address.bytes ++ id.index.bytes

private theorem StorageID.toRawBytes_eq (id : StorageID) (b : List UInt8) (long : storageIDSize ≤ b.length) :
    id.toRawBytes b = .ok (storageIDSize, id.rawBytes ++ b.drop 16) := by
  simp [StorageID.toRawBytes, StorageID.rawBytes, Nat.not_lt.mpr long]

/-- Reading back the raw form gives the id again. -/
theorem newStorageIDFromRawBytes_rawBytes (id : StorageID) :
    newStorageIDFromRawBytes id.rawBytes = .ok id := by
  obtain ⟨⟨address, addressLength⟩, ⟨index, indexLength⟩⟩ := id
  simp [newStorageIDFromRawBytes, StorageID.rawBytes, storageIDSize, addressLength, indexLength,
    List.take_append_of_le_length, List.drop_append_of_le_length]

/-- `NewStorageIDFromRawBytes` reads back, from the whole buffer, the id `ToRawBytes`
wrote into any buffer of at least 16 bytes, whatever follows it; on a shorter buffer
both fail. -/
theorem newStorageIDFromRawBytes_toRawBytes (id : StorageID) (b : List UInt8) :
    (storageIDSize ≤ b.length → ∃ written, id.toRawBytes b = .ok (storageIDSize, written) ∧
        newStorageIDFromRawBytes written = .ok id) ∧
      (b.length < storageIDSize → id.toRawBytes b = .error .rawBufferTooShort ∧
        newStorageIDFromRawBytes b = .error (.invalidLength b.length)) := by
  refine ⟨fun long => ⟨_, id.toRawBytes_eq b long, ?_⟩, fun short => by
    simp [StorageID.toRawBytes, newStorageIDFromRawBytes, short]⟩
  obtain ⟨⟨address, addressLength⟩, ⟨index, indexLength⟩⟩ := id
  have fits : ¬8 + (8 + (b.length - 16)) < 16 := by simp only [storageIDSize] at long; omega
  simp [newStorageIDFromRawBytes, StorageID.rawBytes, storageIDSize, addressLength, indexLength, fits,
    List.take_append_of_le_length, List.drop_append_of_le_length]

/-- `StorageID.Valid`. -/
def StorageID.valid (id : StorageID) : Except StorageIDError Unit :=
  if id = storageIDUndefined then .error .errStorageID
  else if id.index = storageIndexUndefined then .error .errStorageIndex
  else .ok ()

@[simp] theorem Bytes8.toUint64_eq_zero_iff {b : Bytes8} : b.toUint64 = 0 ↔ b = ⟨List.replicate 8 0, rfl⟩ := by
  constructor
  · intro zero
    apply Bytes8.toUint64_injective
    rw [zero]; rfl
  · rintro rfl; rfl

/-- An id is valid exactly when its index is not zero. -/
theorem StorageID.valid_eq_ok_iff (id : StorageID) : id.valid = .ok () ↔ id.indexAsUint64 ≠ 0 := by
  have indexZero : id.index = storageIndexUndefined ↔ id.indexAsUint64 = 0 := by
    rw [StorageID.indexAsUint64, Bytes8.toUint64_eq_zero_iff]; rfl
  by_cases undefined : id = storageIDUndefined
  · subst undefined
    simp [StorageID.valid]; decide
  · by_cases zero : id.index = storageIndexUndefined
    · simp [StorageID.valid, undefined, zero, ← indexZero]
    · simp [StorageID.valid, undefined, zero, ← indexZero]

end Atree

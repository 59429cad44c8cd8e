import Atree.StorageID

/-! The error types of `errors.go`: the values each `Error()` text prints, `Unwrap` and
`Fatal`. The text of a `SlabNotFoundError` or `WrongSlabTypeFoundError` determines the
storage id it names. -/

namespace Atree

/-- An error value, as `Error()` and `Unwrap` see it. -/
inductive AtreeError where
  /-- `FatalError`. -/
  | fatal (err : AtreeError)
  /-- `IndexOutOfBoundsError`. -/
  | indexOutOfBounds (index min max : UInt64)
  /-- `MaxArraySizeError`. -/
  | maxArraySize (maxLen : UInt64)
  /-- `NonStorableElementError`, with the type name `%T` prints for the element. -/
  | nonStorableElement (elementType : String)
  /-- `MaxKeySizeError`. -/
  | maxKeySize (keyStr : String) (maxKeySize : UInt64)
  /-- `HashError`. -/
  | hash (err : AtreeError)
  /-- `StorageError`. -/
  | storage (err : AtreeError)
  /-- `SlabNotFoundError`. -/
  | slabNotFound (storageID : StorageID) (err : AtreeError)
  /-- `SlabSplitError`. -/
  | slabSplit (err : AtreeError)
  /-- `SlabError`. -/
  | slab (err : AtreeError)
  /-- `WrongSlabTypeFoundError`. -/
  | wrongSlabTypeFound (storageID : StorageID)
  /-- `DigestLevelNotMatchError`. -/
  | digestLevelNotMatch (got expected : UInt8)
  /-- `EncodingError`. -/
  | encoding (err : AtreeError)
  /-- `DecodingError`. -/
  | decoding (err : AtreeError)
  /-- An error from outside the package, such as one of `errors.New` or `fmt.Errorf`. -/
  | other (text : String)
  /-- An error of `fmt.Errorf` with `%w`: its whole text, and the error it wraps. -/
  | wrapping (text : String) (err : AtreeError)

namespace AtreeError

/-- `Error()`. -/
def error : AtreeError → String
  | .fatal err => "fatal error: " ++ err.error
  | .indexOutOfBounds index min max =>
    "the given index " ++ toString index ++ " is not in the acceptable range (" ++ toString min ++ "-" ++
      toString max ++ ")"
  | .maxArraySize maxLen => "array has reach its maximum number of elements " ++ toString maxLen
  | .nonStorableElement elementType => "a non-storable element of type " ++ elementType ++ " found when storing object"
  | .maxKeySize keyStr limit =>
    "the given key (" ++ keyStr ++ ") is larger than the maximum limit (" ++ toString limit ++ ")"
  | .hash err => "atree hasher failed: " ++ err.error
  | .storage err => "storage failed: " ++ err.error
  | .slabNotFound storageID err =>
    "slab with the given storageID (" ++ storageID.string ++ ") not found. " ++ err.error
  | .slabSplit err => "slab can not split. " ++ err.error
  | .slab err => "slab error: " ++ err.error
  | .wrongSlabTypeFound storageID => "slab with the given storageID (" ++ storageID.string ++ ") has a wrong type"
  | .digestLevelNotMatch got expected =>
    "got digest level of " ++ toString got ++ " but was expecting " ++ toString expected
  | .encoding err => "Encoding has failed " ++ err.error
  | .decoding err => "Encoding has failed " ++ err.error
  | .other text => text
  | .wrapping text _ => text

/-- `Unwrap()`, of the types that have it. -/
def unwrap : AtreeError → Option AtreeError
  | .fatal err | .hash err | .storage err | .wrapping _ err => some err
  | _ => none

/-- Whether the type has a `Fatal()` method, which returns `NewFatalError` of the error. -/
def hasFatal : AtreeError → Bool
  | .maxArraySize _ | .hash _ | .storage _ | .slabNotFound _ _ | .slabSplit _ | .slab _ | .wrongSlabTypeFound _
  | .digestLevelNotMatch _ _ | .encoding _ | .decoding _ => true
  | _ => false

private theorem append_right_injective {pre text text' : String} (same : pre ++ text = pre ++ text') : text = text' :=
  String.ext (List.append_cancel_left (congrArg String.data same))

private theorem mem_string_data {id : StorageID} {c : Char} (printed : c ∈ id.string.data) :
    c = '0' ∨ c = 'x' ∨ c = '.' ∨ ∃ d < 16, c = Nat.digitChar d := by
  rw [StorageID.string_data] at printed
  rcases printed with _ | ⟨_, _ | ⟨_, printed⟩⟩
  · exact .inl rfl
  · exact .inr (.inl rfl)
  · rcases List.mem_append.mp printed with hex | dot
    · rcases mem_toDigitsCore (by norm_num) _ _ [] c hex with empty | digit
      · cases empty
      · exact .inr (.inr (.inr digit))
    · rcases List.mem_cons.mp dot with rfl | decimal
      · exact .inr (.inr (.inl rfl))
      · rcases mem_toDigitsCore (by norm_num) _ _ [] c decimal with empty | ⟨d, small, same⟩
        · cases empty
        · exact .inr (.inr (.inr ⟨d, by omega, same⟩))

private theorem close_not_mem_string_data (id : StorageID) : ')' ∉ id.string.data := fun printed => by
  have digits : ∀ d < 16, Nat.digitChar d ≠ ')' := by decide
  rcases mem_string_data printed with same | same | same | ⟨d, small, same⟩
  · cases same
  · cases same
  · cases same
  · exact digits d small same.symm

private theorem prefix_eq_of_not_mem {x₁ x₂ z₁ z₂ : List Char} {c : Char} (missing₁ : c ∉ x₁) (missing₂ : c ∉ x₂)
    (same : x₁ ++ c :: z₁ = x₂ ++ c :: z₂) : x₁ = x₂ ∧ z₁ = z₂ := by
  have lengths : x₁.length = x₂.length := by
    simpa [List.indexOf_append_of_not_mem missing₁, List.indexOf_append_of_not_mem missing₂] using
      congrArg (List.indexOf c) same
  obtain ⟨front, back⟩ := List.append_inj same lengths
  exact ⟨front, (List.cons.inj back).2⟩

private theorem storageID_of_parenthesized {pre post post' : String} {id id' : StorageID}
    (same : pre ++ id.string ++ ")" ++ post = pre ++ id'.string ++ ")" ++ post') :
    id = id' ∧ post = post' := by
  have data := congrArg String.data same
  simp only [String.data_append, List.append_assoc] at data
  obtain ⟨printed, rest⟩ := prefix_eq_of_not_mem (close_not_mem_string_data id) (close_not_mem_string_data id')
    (List.append_cancel_left data)
  exact ⟨StorageID.string_injective (String.ext printed), String.ext rest⟩

/-- The text of a `SlabNotFoundError` determines the storage id it names and the text
of the error it wraps; that of a `WrongSlabTypeFoundError`, its storage id. -/
theorem error_determines_storageID {id id' : StorageID} {err err' : AtreeError} :
    ((slabNotFound id err).error = (slabNotFound id' err').error → id = id' ∧ err.error = err'.error) ∧
      ((wrongSlabTypeFound id).error = (wrongSlabTypeFound id').error → id = id') := by
  constructor
  · intro same
    have split : ∀ e : AtreeError, ∀ i : StorageID, (slabNotFound i e).error =
        "slab with the given storageID (" ++ i.string ++ ")" ++ (" not found. " ++ e.error) := fun _ _ => by
      simp only [error, String.append_assoc]
      rfl
    rw [split, split] at same
    obtain ⟨sameID, rest⟩ := storageID_of_parenthesized same
    exact ⟨sameID, append_right_injective rest⟩
  · intro same
    have split : ∀ i : StorageID, (wrongSlabTypeFound i).error =
        "slab with the given storageID (" ++ i.string ++ ")" ++ " has a wrong type" := fun _ => by
      simp only [error, String.append_assoc]
      rfl
    rw [split, split] at same
    exact (storageID_of_parenthesized same).1

end AtreeError

end Atree

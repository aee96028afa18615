import LlmRuntime.Gguf.Model
import Mathlib.Algebra.BigOperators.Group.List.Defs

/-!
# The GGUF format

What a header says, how the layout comment of `gguf-header.mjs` writes it down, and what the reader is to
return for it. A scalar is its type and its bits; a `bool` is any byte.
-/

namespace LlmRuntime.Gguf.Format

open GGUF_VALUE_TYPE

inductive ScalarType where
  | uint8 | int8 | uint16 | int16 | uint32 | int32 | float32 | bool | uint64 | int64 | float64
  deriving DecidableEq, Repr

namespace ScalarType

def id : ScalarType → Nat
  | uint8 => UINT8
  | int8 => INT8
  | uint16 => UINT16
  | int16 => INT16
  | uint32 => UINT32
  | int32 => INT32
  | float32 => FLOAT32
  | bool => BOOL
  | uint64 => UINT64
  | int64 => INT64
  | float64 => FLOAT64

def width : ScalarType → Nat
  | uint8 | int8 | bool => 1
  | uint16 | int16 => 2
  | uint32 | int32 | float32 => 4
  | uint64 | int64 | float64 => 8

abbrev Bits (type : ScalarType) := BitVec (8 * type.width)

def encode (type : ScalarType) (bits : type.Bits) : List UInt8 := leBytes type.width bits.toNat

def meaning : (type : ScalarType) → type.Bits → Scalar
  | uint8, bits | uint16, bits | uint32, bits => .number bits.toNat
  | int8, bits | int16, bits | int32, bits => .number bits.toInt
  | float32, bits => .float32 bits
  | bool, bits => .boolean (bits ≠ 0)
  | uint64, bits => .bigint bits.toNat
  | int64, bits => .bigint bits.toInt
  | float64, bits => .float64 bits

end ScalarType

def utf8 (text : String) : List UInt8 := text.toByteArray.data.toList

/-- A byte order mark would not survive the text decoder. -/
def NoBom (text : String) : Prop := text.toList.head? ≠ some (Char.ofNat 0xFEFF)

instance (text : String) : Decidable (NoBom text) := inferInstanceAs (Decidable (_ ≠ _))

structure Text where
  text : String
  noBom : NoBom text
  short : (utf8 text).length < 2 ^ 53

def Text.encode (text : Text) : List UInt8 := leBytes 8 (utf8 text.text).length ++ utf8 text.text

inductive Value where
  | scalar (type : ScalarType) (bits : type.Bits)
  | string (text : Text)
  | scalars (type : ScalarType) (items : List type.Bits) (short : items.length < 2 ^ 53)
  | strings (items : List Text) (short : items.length < 2 ^ 53)

namespace Value

def id : Value → Nat
  | scalar type _ => type.id
  | string _ => STRING
  | scalars _ _ _ | strings _ _ => ARRAY

def encode : Value → List UInt8
  | scalar type bits => type.encode bits
  | string text => text.encode
  | scalars type items _ => leBytes 4 type.id ++ leBytes 8 items.length ++ items.flatMap type.encode
  | strings items _ => leBytes 4 STRING ++ leBytes 8 items.length ++ items.flatMap Text.encode

/-- Of an array the reader keeps the first four items. -/
def meaning : Value → Gguf.Value
  | scalar type bits => .scalar (type.meaning bits)
  | string text => .string text.text
  | scalars type items _ =>
      .array type.id items.length ((items.take 4).map fun bits => .scalar (type.meaning bits))
  | strings items _ => .array STRING items.length ((items.take 4).map fun text => .string text.text)

end Value

structure Tensor where
  name : Text
  dims : List (BitVec 64)
  type : Nat
  trait : Trait
  offset : BitVec 64
  dims_le : dims.length ≤ 4
  known : GGML_TYPES.get type = some trait
  /-- A row is a whole number of blocks. -/
  blocks : trait.blck ∣ (dims.map BitVec.toNat).headD 1

namespace Tensor

def encode (t : Tensor) : List UInt8 :=
  t.name.encode ++ leBytes 4 t.dims.length ++ t.dims.flatMap (fun dim => leBytes 8 dim.toNat) ++
    leBytes 4 t.type ++ leBytes 8 t.offset.toNat

def meaning (t : Tensor) : Gguf.Tensor where
  name := t.name.text
  dims := t.dims.map BitVec.toNat
  type := t.type
  typeName := t.trait.name
  offset := t.offset.toNat
  bytes := t.trait.size * (t.dims.map BitVec.toNat).prod / t.trait.blck

end Tensor

structure Header where
  version : Nat
  metadata : List (Text × Value)
  tensors : List Tensor
  version_eq : version = 2 ∨ version = 3
  nodup : (metadata.map fun entry => entry.1.text).Nodup
  metadata_short : metadata.length < 2 ^ 53
  tensors_short : tensors.length < 2 ^ 53

theorem version_three : 3 = 2 ∨ 3 = 3 := .inr rfl

theorem short_nil {α : Type} : ([] : List α).length < 2 ^ 53 := Nat.two_pow_pos 53

def encodeEntry (entry : Text × Value) : List UInt8 :=
  entry.1.encode ++ leBytes 4 entry.2.id ++ entry.2.encode

namespace Header

/-- Everything before the tensor descriptors. -/
def encodeMetadata (h : Header) : List UInt8 :=
  leBytes 4 GGUF_MAGIC ++ leBytes 4 h.version ++ leBytes 8 h.tensors.length ++
    leBytes 8 h.metadata.length ++ h.metadata.flatMap encodeEntry

def encode (h : Header) : List UInt8 := h.encodeMetadata ++ h.tensors.flatMap Tensor.encode

def entries (h : Header) : JsMap String Gguf.Value where
  entries := h.metadata.map fun entry => (entry.1.text, entry.2.meaning)
  nodup := by
    rw [List.map_map]
    exact h.nodup

variable {ν : Type} (doubles : Doubles ν)

def alignment (h : Header) : ν :=
  match h.entries.get "general.alignment" with
  | none => doubles.thirtyTwo
  | some entry => doubles.number entry

def meaning (h : Header) : Gguf.Header ν where
  version := h.version
  tensorCount := h.tensors.length
  kvCount := h.metadata.length
  metadata := h.entries
  tensors := h.tensors.map Tensor.meaning
  alignment := h.alignment doubles
  metadataEnd := h.encodeMetadata.length
  descriptorsEnd := h.encode.length
  dataStart := doubles.ceilTo h.encode.length (h.alignment doubles)

end Header

/-! ### One scalar, one row of blocks -/

theorem SCALAR_WIDTH_id (type : ScalarType) : SCALAR_WIDTH.get type.id = some type.width := by
  cases type <;> decide

theorem ScalarType.id_lt (type : ScalarType) : type.id < 2 ^ 32 := by
  cases type <;> decide

theorem ScalarType.id_ne (type : ScalarType) : type.id ≠ STRING ∧ type.id ≠ ARRAY := by
  cases type <;> decide

theorem Value.id_lt (v : Value) : v.id < 2 ^ 32 := by
  cases v with
  | scalar type bits => exact type.id_lt
  | string text => show STRING < 2 ^ 32; decide
  | scalars type all short => show ARRAY < 2 ^ 32; decide
  | strings all short => show ARRAY < 2 ^ 32; decide

theorem toNat_lt (type : ScalarType) (bits : type.Bits) : bits.toNat < 256 ^ type.width := by
  have h := bits.isLt
  rwa [Nat.pow_mul] at h

theorem leNat_encode (type : ScalarType) (bits : type.Bits) : leNat (type.encode bits) = bits.toNat :=
  leNat_leBytes_of_lt (toNat_lt type bits)

theorem length_flatMap_encode (type : ScalarType) (all : List type.Bits) :
    (all.flatMap type.encode).length = all.length * type.width := by
  induction all with
  | nil => rw [List.flatMap_nil, List.length_nil, List.length_nil, Nat.zero_mul]
  | cons bits rest ih =>
      rw [List.flatMap_cons, List.length_append, ih, ScalarType.encode, length_leBytes, List.length_cons,
        Nat.succ_mul, Nat.add_comm]

theorem getInt_encode (type : ScalarType) (bits : type.Bits) : getInt (type.encode bits) = bits.toInt := by
  rw [getInt, leNat_encode, ScalarType.encode, length_leBytes, BitVec.ofNat_toNat, BitVec.setWidth_eq]

theorem getScalar_encode (type : ScalarType) (bits : type.Bits) :
    getScalar type.id (type.encode bits) = some (type.meaning bits) := by
  have hnat := leNat_encode type bits
  have hint := getInt_encode type bits
  cases type with
  | uint8 | uint16 | uint32 | uint64 =>
      show some _ = some _
      rw [hnat]
      rfl
  | int8 | int16 | int32 | int64 =>
      show some _ = some _
      rw [hint]
      rfl
  | float32 | float64 =>
      show some _ = some _
      rw [hnat, BitVec.ofNat_toNat]
      rfl
  | bool =>
      show some _ = some _
      rw [hnat, ScalarType.meaning]
      congr 2
      apply decide_eq_decide.mpr
      show ¬ bits.toNat = 0 ↔ ¬ bits = 0
      rw [← BitVec.toNat_inj]
      rfl

/-- Every type has a short number and its blocks have elements. -/
theorem GGML_TYPES_entries : ∀ entry ∈ GGML_TYPES.entries, entry.1 < 2 ^ 32 ∧ 0 < entry.2.blck := by
  decide

theorem foldl_mul (dims : List Nat) (n : Nat) : dims.foldl (· * ·) n = n * dims.prod := by
  induction dims generalizing n with
  | nil => rw [List.foldl_nil, List.prod_nil, Nat.mul_one]
  | cons d rest ih => rw [List.foldl_cons, ih, List.prod_cons, Nat.mul_assoc]

namespace Tensor

theorem type_lt (t : Tensor) : t.type < 2 ^ 32 :=
  (GGML_TYPES_entries _ (JsMap.get_eq_some_iff.mp t.known)).1

theorem blck_pos (t : Tensor) : 0 < t.trait.blck :=
  (GGML_TYPES_entries _ (JsMap.get_eq_some_iff.mp t.known)).2

theorem tensorBytes_eq {σ : Type} (t : Tensor) (s : σ) :
    tensorBytes t.type (t.dims.map BitVec.toNat) s = .ok t.meaning.bytes s := by
  have hblocks := t.blocks
  have hpos := t.blck_pos
  rw [tensorBytes, t.known]
  dsimp only
  rw [if_neg (not_not.mpr (Nat.mod_eq_zero_of_dvd hblocks)), foldl_mul, meaning]
  show EStateM.Result.ok _ s = EStateM.Result.ok _ s
  congr 1
  generalize t.dims.map BitVec.toNat = dims at hblocks ⊢
  obtain ⟨rows, hrows⟩ := hblocks
  have hprod : dims.prod = dims.headD 1 * dims.tail.prod := by
    cases dims with
    | nil => rfl
    | cons d rest => rw [List.prod_cons, List.headD_cons, List.tail_cons]
  rw [hprod, hrows, Nat.mul_div_cancel_left rows hpos, Nat.mul_assoc t.trait.blck, Nat.mul_left_comm,
    Nat.mul_div_cancel_left _ hpos, Nat.mul_comm rows, Nat.mul_assoc]

end Tensor

end LlmRuntime.Gguf.Format

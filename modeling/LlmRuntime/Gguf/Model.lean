import LlmRuntime.Base.JsMap
import LlmRuntime.Base.LittleEndian
import LlmRuntime.Base.Segment

/-!
# The GGUF header reader

`scripts/lib/gguf-header.mjs`: a cursor over a byte source that is asked for more whenever a read runs
past what it has. What the source does is a parameter, and so is the text decoder. Floats are kept as
their bits; the alignment and the start of the tensor data are left to `Doubles`, and everything else is
whole numbers, which `double` rounds wherever the source leaves `BigInt` or adds.
-/

namespace LlmRuntime.Gguf

/-! ### Numbers and typed arrays of the language -/

/-- The double nearest to a whole number, ties to even. -/
def double (n : Nat) : Nat :=
  if n < 2 ^ 53 then n
  else
    let unit := 2 ^ (n.log2 - 52)
    let down := n / unit
    let rest := n % unit
    (if unit < 2 * rest ∨ (unit = 2 * rest ∧ down % 2 = 1) then down + 1 else down) * unit

def isSafeInteger (n : Nat) : Prop := n < 2 ^ 53

instance (n : Nat) : Decidable (isSafeInteger n) := Nat.decLt n (2 ^ 53)

/-- A view of a buffer. No typed array is longer than a safe integer can say. -/
structure Uint8Array where
  buffer : List UInt8
  byteOffset : Nat
  length : Nat
  within : byteOffset + length ≤ buffer.length
  indexable : isSafeInteger buffer.length

def Uint8Array.toList (bytes : Uint8Array) : List UInt8 :=
  bytes.buffer.segment bytes.byteOffset (bytes.byteOffset + bytes.length)

def Uint8Array.subarray (bytes : Uint8Array) (start stop : Nat) : List UInt8 :=
  bytes.toList.segment start stop

inductive Failure where
  | error (message : String)
  | rangeError
  deriving DecidableEq, Repr

def fail {σ α : Type} (message : String) : EStateM Failure σ α := throw (.error message)

/-- `n.toString(16).padStart(8, "0")`. -/
def hex8 (n : Nat) : String := String.ofList ((Nat.toDigits 16 n).leftpad 8 '0')

/-! ### The format's constants -/

def GGUF_MAGIC : Nat := 0x46554747

namespace GGUF_VALUE_TYPE

@[match_pattern] def UINT8 : Nat := 0
@[match_pattern] def INT8 : Nat := 1
@[match_pattern] def UINT16 : Nat := 2
@[match_pattern] def INT16 : Nat := 3
@[match_pattern] def UINT32 : Nat := 4
@[match_pattern] def INT32 : Nat := 5
@[match_pattern] def FLOAT32 : Nat := 6
@[match_pattern] def BOOL : Nat := 7
@[match_pattern] def STRING : Nat := 8
@[match_pattern] def ARRAY : Nat := 9
@[match_pattern] def UINT64 : Nat := 10
@[match_pattern] def INT64 : Nat := 11
@[match_pattern] def FLOAT64 : Nat := 12

end GGUF_VALUE_TYPE

open GGUF_VALUE_TYPE

def SCALAR_WIDTH : JsMap Nat Nat where
  entries := [(UINT8, 1), (INT8, 1), (UINT16, 2), (INT16, 2), (UINT32, 4), (INT32, 4), (FLOAT32, 4),
    (BOOL, 1), (UINT64, 8), (INT64, 8), (FLOAT64, 8)]
  nodup := by decide

structure Trait where
  name : String
  blck : Nat
  size : Nat
  deriving DecidableEq, Repr

def GGML_TYPES : JsMap Nat Trait where
  entries := [
    (0, ⟨"F32", 1, 4⟩), (1, ⟨"F16", 1, 2⟩), (2, ⟨"Q4_0", 32, 18⟩), (3, ⟨"Q4_1", 32, 20⟩),
    (6, ⟨"Q5_0", 32, 22⟩), (7, ⟨"Q5_1", 32, 24⟩), (8, ⟨"Q8_0", 32, 34⟩), (9, ⟨"Q8_1", 32, 40⟩),
    (10, ⟨"Q2_K", 256, 84⟩), (11, ⟨"Q3_K", 256, 110⟩), (12, ⟨"Q4_K", 256, 144⟩),
    (13, ⟨"Q5_K", 256, 176⟩), (14, ⟨"Q6_K", 256, 210⟩), (15, ⟨"Q8_K", 256, 292⟩),
    (16, ⟨"IQ2_XXS", 256, 66⟩), (17, ⟨"IQ2_XS", 256, 74⟩), (18, ⟨"IQ3_XXS", 256, 98⟩),
    (19, ⟨"IQ1_S", 256, 50⟩), (20, ⟨"IQ4_NL", 32, 18⟩), (21, ⟨"IQ3_S", 256, 110⟩),
    (22, ⟨"IQ2_S", 256, 82⟩), (23, ⟨"IQ4_XS", 256, 136⟩), (24, ⟨"I8", 1, 1⟩), (25, ⟨"I16", 1, 2⟩),
    (26, ⟨"I32", 1, 4⟩), (27, ⟨"I64", 1, 8⟩), (28, ⟨"F64", 1, 8⟩), (29, ⟨"IQ1_M", 256, 56⟩),
    (30, ⟨"BF16", 1, 2⟩), (34, ⟨"TQ1_0", 256, 54⟩), (35, ⟨"TQ2_0", 256, 66⟩), (39, ⟨"MXFP4", 32, 17⟩),
    (40, ⟨"NVFP4", 64, 36⟩)]
  nodup := by decide

def ARRAY_SAMPLE : Nat := 4

def tensorBytes {σ : Type} (typeId : Nat) (dims : List Nat) : EStateM Failure σ Nat :=
  match GGML_TYPES.get typeId with
  | none => fail s!"unknown ggml type id {typeId}"
  | some trait =>
      let ne0 := dims.headD 1
      if ne0 % trait.blck ≠ 0 then
        fail s!"{trait.name} tensor row {ne0} is not a multiple of block size {trait.blck}"
      else
        pure (dims.tail.foldl (· * ·) (ne0 / trait.blck * trait.size))

/-! ### The cursor -/

/-- `ensure(end)`, over the state the source keeps. -/
structure Source (σ : Type) where
  ensure : Nat → EStateM Failure σ Uint8Array

/-- `rounds` is not in the source: it counts the rounds of its loops. -/
structure Cursor (σ : Type) where
  source : σ
  offset : Nat
  rounds : Nat

abbrev Reader (σ : Type) := EStateM Failure (Cursor σ)

variable {σ α : Type} (decode : List UInt8 → String) (source : Source σ)

def ensure (stop : Nat) : Reader σ Uint8Array := fun cursor =>
  match source.ensure stop cursor.source with
  | .ok bytes s => .ok bytes { cursor with source := s }
  | .error e s => .error e { cursor with source := s }

def position : Reader σ Nat := fun cursor => .ok cursor.offset cursor

def advance (length : Nat) : Reader σ Unit :=
  modify fun cursor => { cursor with offset := double (cursor.offset + length) }

/-- `for (let i = 0; i < n; i++)`, with `n` rounds left; `acc` is what the rounds build. -/
def forRounds (body : Nat → α → Reader σ α) : Nat → Nat → α → Reader σ α
  | 0, _, acc => pure acc
  | n + 1, i, acc => do
      modify fun cursor => { cursor with rounds := cursor.rounds + 1 }
      let acc ← body i acc
      forRounds body n (i + 1) acc

/-- The bytes of the `DataView`, which is over the whole buffer of what the source returned. -/
def view (length : Nat) : Reader σ (List UInt8) := do
  let offset ← position
  let bytes ← ensure source (double (offset + length))
  let start := bytes.byteOffset + offset
  if start + length ≤ bytes.buffer.length then
    pure (bytes.buffer.segment start (start + length))
  else throw .rangeError

def u32 : Reader σ Nat := do
  let bytes ← view source 4
  advance 4
  pure (leNat bytes)

def u64 : Reader σ Nat := do
  let bytes ← view source 8
  advance 8
  pure (leNat bytes)

inductive Scalar where
  | number (value : Int)
  | bigint (value : Int)
  | boolean (value : Bool)
  | float32 (bits : BitVec 32)
  | float64 (bits : BitVec 64)
  deriving DecidableEq, Repr

/-- `getInt8`, `getInt16`, `getInt32` and `getBigInt64`. -/
def getInt (bytes : List UInt8) : Int := (BitVec.ofNat (8 * bytes.length) (leNat bytes)).toInt

def getScalar (type : Nat) (bytes : List UInt8) : Option Scalar :=
  match type with
  | UINT8 => some (.number (leNat bytes))
  | INT8 => some (.number (getInt bytes))
  | UINT16 => some (.number (leNat bytes))
  | INT16 => some (.number (getInt bytes))
  | UINT32 => some (.number (leNat bytes))
  | INT32 => some (.number (getInt bytes))
  | FLOAT32 => some (.float32 (.ofNat 32 (leNat bytes)))
  | BOOL => some (.boolean (leNat bytes ≠ 0))
  | UINT64 => some (.bigint (leNat bytes))
  | INT64 => some (.bigint (getInt bytes))
  | FLOAT64 => some (.float64 (.ofNat 64 (leNat bytes)))
  | _ => none

def scalar (type : Nat) : Reader σ Scalar :=
  match SCALAR_WIDTH.get type with
  | none => fail s!"not a scalar gguf value type: {type}"
  | some width => do
      let bytes ← view source width
      advance width
      match getScalar type bytes with
      | some value => pure value
      | none => fail s!"unreachable scalar type {type}"

/-- The part of `string` after the length. -/
def text (length : Nat) : Reader σ String := do
  let offset ← position
  let bytes ← ensure source (double (offset + length))
  let slice := bytes.subarray offset (double (offset + length))
  advance length
  pure (decode slice)

def string : Reader σ String := do
  let length := double (← u64 source)
  if isSafeInteger length then text decode source length
  else
    let offset ← position
    fail s!"implausible gguf string length at offset {offset - 8}"

def skip (length : Nat) : Reader σ Unit := do
  let offset ← position
  let _ ← ensure source (double (offset + length))
  advance length

inductive Item where
  | string (value : String)
  | scalar (value : Scalar)
  deriving DecidableEq, Repr

inductive Value where
  | string (value : String)
  | scalar (value : Scalar)
  | array (itemType length : Nat) (sample : List Item)
  deriving DecidableEq, Repr

/-- One round of the loop over an array of strings. -/
def stringItem (i : Nat) (sample : List Item) : Reader σ (List Item) :=
  if i < ARRAY_SAMPLE then do
    let item ← string decode source
    pure (sample ++ [.string item])
  else do
    let length ← u64 source
    skip source (double length)
    pure sample

def scalarItem (itemType : Nat) (_ : Nat) (sample : List Item) : Reader σ (List Item) := do
  let item ← scalar source itemType
  pure (sample ++ [.scalar item])

/-- The items of an array; what is left of it after the sample is passed over. -/
def items (itemType length : Nat) : Reader σ (List Item) :=
  if itemType = STRING then forRounds (stringItem decode source) length 0 []
  else if itemType = ARRAY then fail "nested gguf arrays are not supported"
  else
    match SCALAR_WIDTH.get itemType with
    | none => fail s!"unknown gguf array item type: {itemType}"
    | some width => do
        let taken := min length ARRAY_SAMPLE
        let sample ← forRounds (scalarItem source itemType) taken 0 []
        skip source (double ((length - taken) * width))
        pure sample

def value (type : Nat) : Reader σ Value :=
  if type = STRING then do
    let value ← string decode source
    pure (.string value)
  else if type ≠ ARRAY then do
    let value ← scalar source type
    pure (.scalar value)
  else do
    let itemType ← u32 source
    let length := double (← u64 source)
    if isSafeInteger length then
      let sample ← items decode source itemType length
      pure (.array itemType length sample)
    else
      let offset ← position
      fail s!"implausible gguf array length at offset {offset - 8}"

/-! ### The header -/

structure Tensor where
  name : String
  dims : List Nat
  type : Nat
  typeName : String
  offset : Nat
  bytes : Nat
  deriving DecidableEq, Repr

/-- What the reader does with doubles that need not be whole: `Number(entry.value)` and
`Math.ceil(descriptorsEnd / alignment) * alignment`. -/
structure Doubles (ν : Type) where
  thirtyTwo : ν
  number : Value → ν
  ceilTo : Nat → ν → ν

structure Header (ν : Type) where
  version : Nat
  tensorCount : Nat
  kvCount : Nat
  metadata : JsMap String Value
  tensors : List Tensor
  alignment : ν
  metadataEnd : Nat
  descriptorsEnd : Nat
  dataStart : ν

def metadataEntry (_ : Nat) (metadata : JsMap String Value) : Reader σ (JsMap String Value) := do
  let key ← string decode source
  let type ← u32 source
  let value ← value decode source type
  pure (metadata.set key value)

def dim (_ : Nat) (dims : List Nat) : Reader σ (List Nat) := do
  let dim ← u64 source
  pure (dims ++ [dim])

def tensor (_ : Nat) (tensors : List Tensor) : Reader σ (List Tensor) := do
  let name ← string decode source
  let nDims ← u32 source
  if nDims > 4 then
    fail s!"tensor {name} claims {nDims} dimensions (ggml allows at most 4)"
  else
    let dims ← forRounds (dim source) nDims 0 []
    let type ← u32 source
    let offset ← u64 source
    let bytes ← tensorBytes type dims
    let typeName := ((GGML_TYPES.get type).map Trait.name).getD s!"type{type}"
    pure (tensors ++ [⟨name, dims, type, typeName, offset, bytes⟩])

variable {ν : Type} (doubles : Doubles ν)

def header : Reader σ (Header ν) := do
  let magic ← u32 source
  if magic ≠ GGUF_MAGIC then fail s!"not a GGUF file: magic 0x{hex8 magic}"
  else
    let version ← u32 source
    if version ≠ 2 ∧ version ≠ 3 then
      fail s!"unsupported GGUF version {version} (this reader handles 2 and 3)"
    else
      let tensorCount := double (← u64 source)
      let kvCount := double (← u64 source)
      if isSafeInteger tensorCount ∧ isSafeInteger kvCount then
        let metadata ← forRounds (metadataEntry decode source) kvCount 0 .empty
        let metadataEnd ← position
        let tensors ← forRounds (tensor decode source) tensorCount 0 []
        let alignment :=
          match metadata.get "general.alignment" with
          | none => doubles.thirtyTwo
          | some entry => doubles.number entry
        let descriptorsEnd ← position
        pure {
          version, tensorCount, kvCount, metadata, tensors, alignment, metadataEnd, descriptorsEnd
          dataStart := doubles.ceilTo descriptorsEnd alignment }
      else fail "implausible GGUF tensor/metadata counts"

def readGgufHeader : EStateM Failure σ (Header ν) := fun s =>
  match header decode source doubles ⟨s, 0, 0⟩ with
  | .ok h cursor => .ok h cursor.source
  | .error e cursor => .error e cursor.source

end LlmRuntime.Gguf

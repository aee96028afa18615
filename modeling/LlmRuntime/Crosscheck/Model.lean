import LlmRuntime.Base.Ledger
import LlmRuntime.Gguf.Alignment

/-!
# The cross-check of the header probe

`sameNumber` and `compare` of `scripts/crosscheck-gguf-probe.mjs`, over the two parsed outputs: the JSON of
the probe and the dump of gguf-py. What is noted is kept without its text.
-/

namespace LlmRuntime.Crosscheck

open Binary64 (nearest)
open Gguf (double)

/-! ### Values -/

/-- A number of a JSON text is finite, and nothing here tells its two zeros apart. -/
inductive Prim where
  | null
  | bool (b : Bool)
  | number (x : ℚ)
  | string (s : String)
  deriving DecidableEq

/-- The items of an array are no arrays themselves, and nothing looks into an object. -/
inductive Json where
  | prim (value : Prim)
  | array (items : List Prim)
  | object
  deriving DecidableEq

/-- `===`; none is `undefined`. Two parsed texts have no array or object in common. -/
def strictEquals : Option Json → Option Json → Bool
  | none, none => true
  | some (.prim p), some (.prim q) => p = q
  | _, _ => false

/-- `value ?? null` -/
def orNull (value : Option Json) : Option Json := value.or (some (.prim .null))

def isBool : Option Json → Bool
  | some (.prim (.bool _)) => true
  | _ => false

def isString : Option Json → Bool
  | some (.prim (.string _)) => true
  | _ => false

section

-- `String(x)` of a number
variable (numberText : ℚ → String)

def primText : Prim → String
  | .null => "null"
  | .bool b => toString b
  | .number x => numberText x
  | .string s => s

/-- What `join` makes of an item. -/
def itemText : Prim → String
  | .null => ""
  | item => primText numberText item

/-- `String(value)` -/
def text : Option Json → String
  | none => "undefined"
  | some (.prim p) => primText numberText p
  | some (.array items) => ",".intercalate (items.map (itemText numberText))
  | some .object => "[object Object]"

def finiteValue : Binary64 → Option ℚ
  | .finite negative magnitude _ => some (if negative then -magnitude else magnitude)
  | .infinite _ | .nan => none

/-- What `sameNumber` makes of an argument, if it is a finite number. -/
def finiteNumber : Option Json → Option ℚ
  | some (.prim (.number x)) => some x
  | some (.prim (.string s)) => finiteValue (Gguf.number (.string s))
  | _ => none

/-- `Math.abs(x - y) <= scale * 1e-9`, with every operation rounded. -/
def close (x y : ℚ) : Bool := nearest |x - y| ≤ nearest (max |x| |y| * nearest (1 / 10 ^ 9))

def sameNumber (a b : Option Json) : Bool :=
  match finiteNumber a, finiteNumber b with
  | some x, some y => x = y || close x y
  | _, _ => false

/-! ### The two sides -/

/-- An entry of the dump's metadata. An array has a value only with `--json-array`. -/
structure Field where
  type : Option String
  value : Option Json
  deriving DecidableEq

structure DumpTensor where
  type : String
  shape : List Nat
  deriving DecidableEq

structure Dump where
  metadata : JsMap String Field
  tensors : JsMap String DumpTensor

structure ReportTensor where
  name : String
  typeName : String
  dims : List Nat
  deriving DecidableEq

structure ArrayField where
  itemType : Nat
  length : Nat
  sample : List Prim
  deriving DecidableEq

/-- The output of the probe. An entry of the metadata is an array or it is not, and a template among the
hyperparameters is one of the metadata. -/
structure Report where
  architecture : Option Json
  tokenizerPre : Option Json
  hasChatTemplate : Bool
  tensorCount : Nat
  tensors : Option (List ReportTensor)
  hparams : JsMap String Prim
  arrayFields : JsMap String ArrayField
  disjoint : ∀ key, hparams.has key → arrayFields.get key = none
  template : hparams.has "tokenizer.chat_template" → hasChatTemplate = true

/-- What every object inherits. -/
def OBJECT_PROTOTYPE : List String :=
  ["constructor", "__defineGetter__", "__defineSetter__", "hasOwnProperty", "__lookupGetter__",
    "__lookupSetter__", "isPrototypeOf", "propertyIsEnumerable", "toString", "valueOf", "__proto__",
    "toLocaleString"]

/-- `key in object` -/
def isIn {α : Type} (key : String) (object : JsMap String α) : Bool :=
  object.has key || OBJECT_PROTOTYPE.contains key

/-- `metadata[key]`; what is inherited has neither a type nor a value. -/
def property (metadata : JsMap String Field) (key : String) : Option Field :=
  match metadata.get key with
  | some field => some field
  | none => if OBJECT_PROTOTYPE.contains key then some ⟨none, none⟩ else none

def SKIP_KEYS : List String := ["tokenizer.chat_template"]

/-! ### compare -/

inductive Problem where
  | architecture
  | pre
  | template
  | tensorCount
  | noTensorList
  | missingTensor (name : String)
  | tensorType (name : String)
  | tensorShape (name : String)
  | tensorOnlyInProbe (name : String)
  | missingHparam (key : String)
  | hparam (key : String)
  | missingArray (key : String)
  | notArray (key : String)
  | noArrayValue (key : String)
  | arrayLength (key : String)
  | arrayItem (key : String) (i : Nat)
  deriving DecidableEq, Repr

def noteIf (condition : Bool) (problem : Problem) : List Problem := if condition then [problem] else []

/-- `dump.metadata[key]?.value` -/
def Dump.value (dump : Dump) (key : String) : Option Json := (property dump.metadata key).bind Field.value

variable (probe : Report) (dump : Dump)

def identityProblems : List Problem :=
  noteIf (!strictEquals probe.architecture (dump.value "general.architecture")) .architecture ++
  noteIf (!strictEquals (orNull probe.tokenizerPre) (orNull (dump.value "tokenizer.ggml.pre"))) .pre ++
  noteIf (probe.hasChatTemplate != isIn "tokenizer.chat_template" dump.metadata) .template

/-- `new Map(probe.tensors.map((t) => [t.name, t]))` -/
def byName (tensors : List ReportTensor) : JsMap String ReportTensor :=
  Ledger.tableOf (fun t => some (t.name, t)) tensors

def tensorProblem (probeByName : JsMap String ReportTensor) (name : String) (d : DumpTensor) : List Problem :=
  match probeByName.get name with
  | none => [.missingTensor name]
  | some p =>
      noteIf (p.typeName != d.type) (.tensorType name) ++
        noteIf (p.dims.map double != d.shape.map double) (.tensorShape name)

def tensorProblems : List Problem :=
  noteIf (probe.tensorCount != dump.tensors.keys.length) .tensorCount ++
  match probe.tensors with
  | none => [.noTensorList]
  | some tensors =>
      dump.tensors.entries.flatMap (fun entry => tensorProblem (byName tensors) entry.1 entry.2) ++
        (byName tensors).keys.flatMap fun name =>
          noteIf (!isIn name dump.tensors) (.tensorOnlyInProbe name)

def sameScalar (value : Prim) (dv : Option Json) : Bool :=
  if isBool (some (.prim value)) || isBool dv || isString dv then
    text numberText (some (.prim value)) == text numberText dv
  else sameNumber (some (.prim value)) dv

def hparamProblem (key : String) (value : Prim) : List Problem :=
  if SKIP_KEYS.contains key then []
  else
    match property dump.metadata key with
    | none => [.missingHparam key]
    | some field => noteIf (!sameScalar numberText value field.value) (.hparam key)

def sameItem (sampled : Prim) (expected : Option Prim) : Bool :=
  if isString (some (.prim sampled)) || isString (expected.map .prim) then
    text numberText (some (.prim sampled)) == text numberText (expected.map .prim)
  else sameNumber (some (.prim sampled)) (expected.map .prim)

def arrayProblem (key : String) (arr : ArrayField) : List Problem :=
  match property dump.metadata key with
  | none => [.missingArray key]
  | some field =>
      if field.type ≠ some "ARRAY" then [.notArray key]
      else
        match field.value with
        | some (.array values) =>
            noteIf (values.length != arr.length) (.arrayLength key) ++
              arr.sample.zipIdx.flatMap fun item =>
                noteIf (!sameItem numberText item.1 values[item.2]?) (.arrayItem key item.2)
        | _ => [.noArrayValue key]

def problems : List Problem :=
  identityProblems probe dump ++ tensorProblems probe dump ++
    probe.hparams.entries.flatMap (fun entry => hparamProblem numberText dump entry.1 entry.2) ++
    probe.arrayFields.entries.flatMap fun entry => arrayProblem numberText dump entry.1 entry.2

def compare : Bool := (problems numberText probe dump).isEmpty

end

end LlmRuntime.Crosscheck

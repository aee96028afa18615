import LlmRuntime.Crosscheck.Model
import LlmRuntime.Probe.Report

/-!
# The output of the probe

What `scripts/probe-gguf-header.mjs` prints with `--json`, as far as the cross-check reads it: the bigints
as their digits, what is not finite as `null`. Of the metadata it has every scalar under the prefix of the
architecture and every array, so a report made of a header has the invariants of one.
-/

namespace LlmRuntime.Crosscheck

open Gguf (Header Item Scalar Value)
open Probe (Printing hparams isArray metaValue showValue)

/-! ### Values -/

def floatJson (x : Binary64) : Prim :=
  match finiteValue x with
  | some x => .number x
  | none => .null

/-- `jsonReplacer`, and what `JSON.stringify` makes of a number. -/
def scalarJson : Scalar → Prim
  | .number n => .number n
  | .bigint n => .string (toString n)
  | .boolean b => .bool b
  | .float32 bits => floatJson (.ofBits32 bits)
  | .float64 bits => floatJson (.ofBits64 bits)

def itemJson : Item → Prim
  | .string s => .string s
  | .scalar value => scalarJson value

/-- `entry.value`, where the entry is no array. -/
def plainJson : Value → Option Prim
  | .string s => some (.string s)
  | .scalar value => some (scalarJson value)
  | .array _ _ _ => none

def arrayJson : Value → Option ArrayField
  | .array itemType length sample => some ⟨itemType, length, sample.map itemJson⟩
  | .string _ | .scalar _ => none

/-- What `metaValue` returns, which is the entry itself for an array. -/
def valueJson (value : Value) : Json :=
  match plainJson value with
  | some p => .prim p
  | none => .object

theorem isSome_plainJson (value : Value) : (plainJson value).isSome = !isArray value := by
  cases value with
  | string s => rfl
  | scalar v => rfl
  | array itemType length sample => rfl

theorem isSome_arrayJson (value : Value) : (arrayJson value).isSome = isArray value := by
  cases value with
  | string s => rfl
  | scalar v => rfl
  | array itemType length sample => rfl

/-! ### Objects -/

/-- `Object.fromEntries`, of the entries that have a value. -/
def fromEntries {α : Type} (jsonOf : Value → Option α) (entries : List (String × Value)) : JsMap String α :=
  Ledger.tableOf (fun entry => (jsonOf entry.2).map (Prod.mk entry.1)) entries

theorem has_fromEntries {α : Type} {jsonOf : Value → Option α} {entries : List (String × Value)} {key : String} :
    (fromEntries jsonOf entries).has key ↔ ∃ value, (key, value) ∈ entries ∧ (jsonOf value).isSome := by
  apply Ledger.has_tableOf.trans
  constructor
  · intro ⟨entry, hentry, v, hv⟩
    obtain ⟨value, hvalue, hpair⟩ := Option.map_eq_some_iff.mp hv
    obtain rfl : entry.1 = key := congrArg Prod.fst hpair
    exact ⟨entry.2, hentry, Option.isSome_of_eq_some hvalue⟩
  · intro ⟨value, hentry, hsome⟩
    obtain ⟨v, hv⟩ := Option.isSome_iff_exists.mp hsome
    exact ⟨(key, value), hentry, v, by rw [hv, Option.map_some]⟩

variable {ν : Type} (printing : Printing ν) (header : Header ν)

def hparamsJson : JsMap String Prim := fromEntries plainJson (hparams printing header)

def arrayFieldsJson : JsMap String ArrayField := fromEntries arrayJson header.metadata.entries

/-- `arch && key.startsWith(`${arch}.`)` -/
def IsHparam (key : String) : Prop :=
  ∃ arch, metaValue header "general.architecture" = some arch ∧ Probe.truthy arch = true ∧
    (showValue printing arch ++ ".").toList <+: key.toList

variable {printing header} {key : String}

/-- The hyperparameters are all that is no array under the prefix of the architecture. -/
theorem has_hparamsJson : (hparamsJson printing header).has key ↔
    IsHparam printing header key ∧ ∃ value, header.metadata.get key = some value ∧ isArray value = false := by
  rw [hparamsJson, has_fromEntries, hparams, IsHparam]
  cases metaValue header "general.architecture" with
  | none => simp
  | some arch =>
      simp only [List.mem_filter, Bool.and_eq_true, List.isPrefixOf_iff_prefix, Bool.not_eq_true',
        isSome_plainJson, Option.some.injEq, exists_eq_left', JsMap.get_eq_some_iff]
      constructor
      · intro hlisted
        obtain ⟨value, ⟨hentry, ⟨htruthy, hprefix⟩, harray⟩, -⟩ := hlisted
        exact ⟨⟨htruthy, hprefix⟩, value, hentry, harray⟩
      · intro hlisted
        obtain ⟨⟨htruthy, hprefix⟩, value, hentry, harray⟩ := hlisted
        exact ⟨value, ⟨hentry, ⟨htruthy, hprefix⟩, harray⟩, harray⟩

theorem has_arrayFieldsJson : (arrayFieldsJson header).has key ↔
    ∃ value, header.metadata.get key = some value ∧ isArray value = true := by
  rw [arrayFieldsJson, has_fromEntries]
  simp only [JsMap.get_eq_some_iff, isSome_arrayJson]

theorem arrayFieldsJson_of_has_hparamsJson (h : (hparamsJson printing header).has key) :
    (arrayFieldsJson header).get key = none := by
  obtain ⟨-, value, hvalue, hplain⟩ := has_hparamsJson.mp h
  rw [← Option.not_isSome_iff_eq_none]
  intro harray
  obtain ⟨value', hvalue', harray'⟩ := has_arrayFieldsJson.mp harray
  obtain rfl := Option.some.inj (hvalue.symm.trans hvalue')
  exact Bool.false_ne_true (hplain.symm.trans harray')

variable (printing header)

/-- `tensorLimit` is the number after `--tensors=`. -/
def Report.ofHeader (tensorLimit : Nat) : Report where
  architecture := (metaValue header "general.architecture").map valueJson
  tokenizerPre := orNull ((metaValue header "tokenizer.ggml.pre").map valueJson)
  hasChatTemplate := header.metadata.has "tokenizer.chat_template"
  tensorCount := header.tensorCount
  tensors := if 0 < tensorLimit then some (header.tensors.map fun t => ⟨t.name, t.typeName, t.dims⟩) else none
  hparams := hparamsJson printing header
  arrayFields := arrayFieldsJson header
  disjoint _ h := arrayFieldsJson_of_has_hparamsJson h
  template h := by
    obtain ⟨-, value, hvalue, -⟩ := has_hparamsJson.mp h
    exact Option.isSome_of_eq_some hvalue

end LlmRuntime.Crosscheck

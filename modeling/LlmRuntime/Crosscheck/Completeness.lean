import LlmRuntime.Crosscheck.Output
import LlmRuntime.Crosscheck.Passing

/-!
# What the cross-check leaves out

A comparison that passes is to say that both sides have the same names, keys and elements, and what the probe
has dropped is to be reported like what only the probe has. That is so where the probe has left no key of the
metadata out, no array is taken for a scalar, and no sampled element passes for another one: a key that only
gguf-py has is never looked for, while a tensor that only gguf-py has is.
-/

namespace LlmRuntime.Crosscheck

open Gguf (isSafeInteger)

/-! ### The same on both sides -/

def isTruthy : Option Json → Bool
  | none | some (.prim .null) => false
  | some (.prim (.bool b)) => b
  | some (.prim (.number x)) => x ≠ 0
  | some (.prim (.string s)) => s ≠ ""
  | some (.array _) | some .object => true

/-- A whole number that a double holds exactly. -/
def IsWhole (p : Prim) : Prop := ∃ n : ℤ, isSafeInteger n.natAbs ∧ p = .number n

/-- A whole number of 64 bits crosses as its digits. -/
def Digits (p q : Prim) : Prop := ∃ n : ℤ, isSafeInteger n.natAbs ∧ p = .number n ∧ q = .string (toString n)

def EqualItem (sampled expected : Prim) : Prop :=
  sampled = expected ∨ Digits sampled expected ∨ Digits expected sampled

section

variable (numberText : ℚ → String) (probe : Report) (dump : Dump)

/-- The key starts with the architecture and a dot. -/
def Under (key : String) : Prop :=
  isTruthy probe.architecture = true ∧ (text numberText probe.architecture ++ ".").toList <+: key.toList

/-- The sample is what the array begins with. -/
def SameSample (arr : ArrayField) (values : List Prim) : Prop :=
  ∀ (i : Nat) sampled, arr.sample[i]? = some sampled →
    ∃ expected, values[i]? = some expected ∧ EqualItem sampled expected

/-- Both sides have the same identity, tensors and keys, and their arrays begin alike. -/
structure Same : Prop where
  architecture : probe.architecture = dump.value "general.architecture"
  pre : orNull probe.tokenizerPre = orNull (dump.value "tokenizer.ggml.pre")
  tensors : ∃ tensors, probe.tensors = some tensors ∧ SameTensors tensors dump.tensors
  scalar_iff : ∀ key, Under numberText probe key →
    (probe.hparams.has key ↔ ∃ field, dump.metadata.get key = some field ∧ field.type ≠ some "ARRAY")
  array_iff : ∀ key,
    probe.arrayFields.has key ↔ ∃ field, dump.metadata.get key = some field ∧ field.type = some "ARRAY"
  array : ∀ key arr field, probe.arrayFields.get key = some arr → dump.metadata.get key = some field →
    ∃ values, field.value = some (.array values) ∧ values.length = arr.length ∧ SameSample arr values

/-- The probe has the key, as a scalar or as an array. -/
def Report.Has (key : String) : Prop := probe.hparams.has key ∨ probe.arrayFields.has key

/-- The key of the metadata that a problem is about. -/
def Problem.key : Problem → Option String
  | .missingHparam key | .hparam key | .missingArray key | .notArray key | .noArrayValue key | .arrayLength key
  | .arrayItem key _ => some key
  | .architecture | .pre | .template | .tensorCount | .noTensorList | .missingTensor _ | .tensorType _
  | .tensorShape _ | .tensorOnlyInProbe _ => none

/-- A problem with the key is noted. -/
def Noted (key : String) : Prop := ∃ problem ∈ problems numberText probe dump, problem.key = some key

/-- The comparison passes only what is the same, and notes every item of the metadata in which the probe falls
short of gguf-py: a key it has dropped, an array it has as a scalar, a sampled element that is another one. -/
structure Reported : Prop where
  same : compare numberText probe dump = true → Same numberText probe dump
  dropped : ∀ key field, dump.metadata.get key = some field →
    field.type = some "ARRAY" ∨ Under numberText probe key → ¬ probe.Has key → Noted numberText probe dump key
  kind : ∀ key field, dump.metadata.get key = some field → field.type = some "ARRAY" → probe.hparams.has key →
    Noted numberText probe dump key
  sample : ∀ key arr field values, probe.arrayFields.get key = some arr → dump.metadata.get key = some field →
    field.type = some "ARRAY" → field.value = some (.array values) → ∀ (i : Nat) sampled,
      arr.sample[i]? = some sampled → (∀ expected, values[i]? = some expected → ¬ EqualItem sampled expected) →
        .arrayItem key i ∈ problems numberText probe dump

/-! ### The condition -/

/-- The probe has left no scalar under the architecture and no array out. -/
def Complete : Prop := ∀ key field, dump.metadata.get key = some field →
  field.type = some "ARRAY" ∨ Under numberText probe key → probe.Has key

/-- What passes for a sampled element without being it: a number within the slack, a text that spells a value
which is no whole number, and the text `undefined` where there is nothing. -/
inductive Slips : Prim → Option Prim → Prop
  | close {x y : ℚ} (hne : x ≠ y) (hclose : close x y = true) : Slips (.number x) (some (.number y))
  | spelled {p : Prim} (hstring : isString (some (.prim p)) = false) (hwhole : ¬ IsWhole p) :
      Slips p (some (.string (primText numberText p)))
  | spelling {p : Prim} (hstring : isString (some (.prim p)) = false) (hwhole : ¬ IsWhole p) :
      Slips (.string (primText numberText p)) (some p)
  | missing : Slips (.string "undefined") none

/-- No array of the dump passes for a hyperparameter, and no element of an array for a sampled one. -/
structure Distinct : Prop where
  kind : ∀ key field value, dump.metadata.get key = some field → field.type = some "ARRAY" →
    probe.hparams.get key = some value → key ∉ SKIP_KEYS ∧ sameScalar numberText value field.value = false
  sample : ∀ key arr field values, probe.arrayFields.get key = some arr → dump.metadata.get key = some field →
    field.type = some "ARRAY" → field.value = some (.array values) → ∀ (i : Nat) sampled,
      arr.sample[i]? = some sampled → ¬ Slips numberText sampled values[i]?

/-- `String(n)` of a whole number that a double holds exactly is its digits. -/
def WritesDigits : Prop := ∀ n : ℤ, isSafeInteger n.natAbs → numberText n = toString n

end

variable {numberText : ℚ → String} {probe : Report} {dump : Dump}

/-! ### Items -/

theorem eq_number_of_finiteNumber {p : Prim} {x : ℚ} (hs : isString (some (.prim p)) = false)
    (h : finiteNumber (some (.prim p)) = some x) : p = .number x := by
  cases p with
  | number y => rw [Option.some.inj h]
  | null => exact nomatch h
  | bool b => exact nomatch h
  | string s => exact nomatch hs

theorem numbers_of_sameNumber {a b : Option Json} (h : sameNumber a b = true) :
    ∃ x y, finiteNumber a = some x ∧ finiteNumber b = some y ∧ (x = y ∨ close x y = true) := by
  unfold sameNumber at h
  split at h
  · rename_i x y hx hy
    rw [Bool.or_eq_true, decide_eq_true_eq] at h
    exact ⟨x, y, hx, hy, h⟩
  · exact absurd h Bool.false_ne_true

theorem exists_string {p : Prim} (h : isString (some (.prim p)) = true) : ∃ s, p = .string s := by
  cases p with
  | string s => exact ⟨s, rfl⟩
  | null => exact nomatch h
  | bool b => exact nomatch h
  | number x => exact nomatch h

theorem digits_of_isWhole (hdigits : WritesDigits numberText) {p : Prim} (h : IsWhole p) :
    Digits p (.string (primText numberText p)) := by
  obtain ⟨n, hn, rfl⟩ := h
  exact ⟨n, hn, rfl, congrArg Prim.string (hdigits n hn)⟩

theorem isWhole_of_digits {p q : Prim} (h : Digits p q) : IsWhole p := by
  obtain ⟨n, hn, hp, -⟩ := h
  exact ⟨n, hn, hp⟩

/-- An element that passes is equal, but for what slips. -/
theorem equalItem_of_sameItem (hdigits : WritesDigits numberText) {sampled : Prim} {expected : Option Prim}
    (h : sameItem numberText sampled expected = true) (hslips : ¬ Slips numberText sampled expected) :
    ∃ q, expected = some q ∧ EqualItem sampled q := by
  cases expected with
  | none =>
      rw [sameItem] at h
      by_cases hstring : isString (some (.prim sampled)) = true
      · obtain ⟨s, rfl⟩ := exists_string hstring
        have hundefined : s = "undefined" := eq_of_beq h
        exact absurd (hundefined ▸ .missing) hslips
      · rw [Bool.not_eq_true] at hstring
        rw [hstring] at h
        exact absurd ((sameNumber_undefined _).symm.trans h) Bool.false_ne_true
  | some q =>
      refine ⟨q, rfl, ?_⟩
      rw [sameItem, Option.map_some] at h
      by_cases hsampled : isString (some (.prim sampled)) = true
      · obtain ⟨s, rfl⟩ := exists_string hsampled
        have htext : s = primText numberText q := eq_of_beq h
        by_cases hq : isString (some (.prim q)) = true
        · obtain ⟨s', rfl⟩ := exists_string hq
          exact .inl (congrArg Prim.string htext)
        · rw [Bool.not_eq_true] at hq
          by_cases hwhole : IsWhole q
          · exact .inr (.inr (htext ▸ digits_of_isWhole hdigits hwhole))
          · exact absurd (htext ▸ .spelling hq hwhole) hslips
      · rw [Bool.not_eq_true] at hsampled
        by_cases hq : isString (some (.prim q)) = true
        · rw [hq, Bool.or_true, if_pos rfl] at h
          obtain ⟨s, rfl⟩ := exists_string hq
          have htext : primText numberText sampled = s := eq_of_beq h
          by_cases hwhole : IsWhole sampled
          · exact .inr (.inl (htext ▸ digits_of_isWhole hdigits hwhole))
          · exact absurd (htext ▸ .spelled hsampled hwhole) hslips
        · rw [Bool.not_eq_true] at hq
          rw [hsampled, hq] at h
          obtain ⟨x, y, hx, hy, hnear⟩ := numbers_of_sameNumber h
          obtain rfl := eq_number_of_finiteNumber hsampled hx
          obtain rfl := eq_number_of_finiteNumber hq hy
          by_cases hxy : x = y
          · exact .inl (congrArg Prim.number hxy)
          · exact absurd (.close hxy (hnear.resolve_left hxy)) hslips

/-- What slips passes. -/
theorem sameItem_of_slips {sampled : Prim} {expected : Option Prim} (h : Slips numberText sampled expected) :
    sameItem numberText sampled expected = true := by
  cases h with
  | close hne hclose =>
      show (decide (_ = _) || close _ _) = true
      rw [hclose, Bool.or_true]
  | spelled hstring hwhole =>
      refine (if_pos ?_).trans (beq_self_eq_true _)
      exact Bool.or_true _
  | spelling hstring hwhole =>
      refine (if_pos ?_).trans (beq_self_eq_true _)
      exact Bool.true_or _
  | missing => rfl

/-- What slips is not equal. -/
theorem not_equalItem_of_slips {sampled q : Prim} (h : Slips numberText sampled (some q)) :
    ¬ EqualItem sampled q := by
  generalize hexpected : some q = expected at h
  cases h with
  | close hne hclose =>
      obtain rfl := Option.some.inj hexpected
      rintro (heq | ⟨n, -, -, heq⟩ | ⟨n, -, -, heq⟩)
      · exact hne (Prim.number.inj heq)
      · cases heq
      · cases heq
  | spelled hstring hwhole =>
      obtain rfl := Option.some.inj hexpected
      rintro (heq | hdigits | ⟨n, -, heq, -⟩)
      · rw [heq] at hstring
        cases hstring
      · exact hwhole (isWhole_of_digits hdigits)
      · cases heq
  | spelling hstring hwhole =>
      obtain rfl := Option.some.inj hexpected
      rintro (heq | ⟨n, -, heq, -⟩ | hdigits)
      · rw [← heq] at hstring
        cases hstring
      · cases heq
      · exact hwhole (isWhole_of_digits hdigits)
  | missing => cases hexpected

/-! ### What a problem is about -/

theorem mem_noteIf {condition : Bool} {problem p : Problem} :
    p ∈ noteIf condition problem ↔ condition = true ∧ p = problem := by
  cases condition with
  | false => exact iff_of_false List.not_mem_nil fun h => Bool.false_ne_true h.1
  | true => exact List.mem_singleton.trans (and_iff_right rfl).symm

theorem key_of_mem_identityProblems {p : Problem} (h : p ∈ identityProblems probe dump) : p.key = none := by
  simp only [identityProblems, List.mem_append, mem_noteIf] at h
  obtain (⟨-, rfl⟩ | ⟨-, rfl⟩) | ⟨-, rfl⟩ := h <;> rfl

theorem key_of_mem_tensorProblem {table : JsMap String ReportTensor} {name : String} {d : DumpTensor} {p : Problem}
    (h : p ∈ tensorProblem table name d) : p.key = none := by
  unfold tensorProblem at h
  split at h
  · rw [List.mem_singleton.mp h]
    rfl
  · simp only [List.mem_append, mem_noteIf] at h
    obtain ⟨-, rfl⟩ | ⟨-, rfl⟩ := h <;> rfl

theorem key_of_mem_tensorProblems {p : Problem} (h : p ∈ tensorProblems probe dump) : p.key = none := by
  unfold tensorProblems at h
  obtain hcount | h := List.mem_append.mp h
  · rw [(mem_noteIf.mp hcount).2]
    rfl
  · split at h
    · rw [List.mem_singleton.mp h]
      rfl
    · obtain hdump | hprobe := List.mem_append.mp h
      · obtain ⟨entry, -, hentry⟩ := List.mem_flatMap.mp hdump
        exact key_of_mem_tensorProblem hentry
      · obtain ⟨name, -, hname⟩ := List.mem_flatMap.mp hprobe
        rw [(mem_noteIf.mp hname).2]
        rfl

theorem key_of_mem_hparamProblem {key : String} {value : Prim} {p : Problem}
    (h : p ∈ hparamProblem numberText dump key value) : p.key = some key := by
  unfold hparamProblem at h
  split at h
  · cases h
  · split at h
    · rw [List.mem_singleton.mp h]
      rfl
    · rw [(mem_noteIf.mp h).2]
      rfl

theorem key_of_mem_arrayProblem {key : String} {arr : ArrayField} {p : Problem}
    (h : p ∈ arrayProblem numberText dump key arr) : p.key = some key := by
  unfold arrayProblem at h
  split at h
  · rw [List.mem_singleton.mp h]
    rfl
  · split at h
    · rw [List.mem_singleton.mp h]
      rfl
    · split at h
      · obtain hlength | hitems := List.mem_append.mp h
        · rw [(mem_noteIf.mp hlength).2]
          rfl
        · obtain ⟨item, -, hitem⟩ := List.mem_flatMap.mp hitems
          rw [(mem_noteIf.mp hitem).2]
          rfl
      · rw [List.mem_singleton.mp h]
        rfl

/-- What is noted of a key comes from what the probe says under that key. -/
theorem mem_problems_iff {p : Problem} {key : String} (hkey : p.key = some key) :
    p ∈ problems numberText probe dump ↔
      (∃ value, probe.hparams.get key = some value ∧ p ∈ hparamProblem numberText dump key value) ∨
        ∃ arr, probe.arrayFields.get key = some arr ∧ p ∈ arrayProblem numberText dump key arr := by
  have hne : p.key ≠ none := by
    rw [hkey]
    exact Option.some_ne_none key
  simp only [problems, List.mem_append, List.mem_flatMap]
  constructor
  · rintro (((hidentity | htensor) | ⟨entry, hentry, hmem⟩) | ⟨entry, hentry, hmem⟩)
    · exact absurd (key_of_mem_identityProblems hidentity) hne
    · exact absurd (key_of_mem_tensorProblems htensor) hne
    · obtain rfl := Option.some.inj (hkey.symm.trans (key_of_mem_hparamProblem hmem))
      exact .inl ⟨entry.2, JsMap.get_eq_some_iff.mpr hentry, hmem⟩
    · obtain rfl := Option.some.inj (hkey.symm.trans (key_of_mem_arrayProblem hmem))
      exact .inr ⟨entry.2, JsMap.get_eq_some_iff.mpr hentry, hmem⟩
  · rintro (⟨value, hvalue, hmem⟩ | ⟨arr, harr, hmem⟩)
    · exact .inl (.inr ⟨(key, value), JsMap.get_eq_some_iff.mp hvalue, hmem⟩)
    · exact .inr ⟨(key, arr), JsMap.get_eq_some_iff.mp harr, hmem⟩

variable {key : String} {field : Field}

/-- Nothing is noted of a key that the probe does not have. -/
theorem has_of_noted (h : Noted numberText probe dump key) : probe.Has key := by
  obtain ⟨p, hp, hkey⟩ := h
  obtain ⟨value, hvalue, -⟩ | ⟨arr, harr, -⟩ := (mem_problems_iff hkey).mp hp
  · exact .inl (Option.isSome_of_eq_some hvalue)
  · exact .inr (Option.isSome_of_eq_some harr)

theorem noted_hparam_iff {value : Prim} (hvalue : probe.hparams.get key = some value)
    (hfield : dump.metadata.get key = some field) : Noted numberText probe dump key ↔
      key ∉ SKIP_KEYS ∧ sameScalar numberText value field.value = false := by
  have hnil : hparamProblem numberText dump key value ≠ [] ↔
      key ∉ SKIP_KEYS ∧ sameScalar numberText value field.value = false := by
    rw [ne_eq, hparamProblem_eq_nil_iff, hfield]
    simp
  rw [← hnil]
  constructor
  · intro ⟨p, hp, hkey⟩
    obtain ⟨value', hvalue', hmem⟩ | ⟨arr, harr, -⟩ := (mem_problems_iff hkey).mp hp
    · obtain rfl := Option.some.inj (hvalue.symm.trans hvalue')
      exact List.ne_nil_of_mem hmem
    · have hnone := probe.disjoint key (Option.isSome_of_eq_some hvalue)
      rw [harr] at hnone
      cases hnone
  · intro hne
    obtain ⟨p, hmem⟩ := List.exists_mem_of_ne_nil _ hne
    have hkey := key_of_mem_hparamProblem hmem
    exact ⟨p, (mem_problems_iff hkey).mpr (.inl ⟨value, hvalue, hmem⟩), hkey⟩

theorem arrayItem_mem_iff {arr : ArrayField} {values : List Prim} {i : Nat} {sampled : Prim}
    (harr : probe.arrayFields.get key = some arr) (hfield : dump.metadata.get key = some field)
    (htype : field.type = some "ARRAY") (hvalue : field.value = some (.array values))
    (hi : arr.sample[i]? = some sampled) :
    .arrayItem key i ∈ problems numberText probe dump ↔ sameItem numberText sampled values[i]? = false := by
  have harray : .arrayItem key i ∈ arrayProblem numberText dump key arr ↔
      sameItem numberText sampled values[i]? = false := by
    rw [arrayProblem, property_of_get hfield]
    dsimp only
    rw [if_neg (not_not_intro htype), hvalue]
    simp only [List.mem_append, List.mem_flatMap, mem_noteIf, Problem.arrayItem.injEq, reduceCtorEq, and_false,
      false_or, Bool.not_eq_true', true_and]
    constructor
    · rintro ⟨item, hitem, hsame, rfl⟩
      rw [List.mem_zipIdx_iff_getElem?] at hitem
      obtain rfl := Option.some.inj (hi.symm.trans hitem)
      exact hsame
    · intro hsame
      exact ⟨(sampled, i), List.mem_zipIdx_iff_getElem?.mpr hi, hsame, rfl⟩
  rw [mem_problems_iff (p := .arrayItem key i) rfl, ← harray]
  constructor
  · rintro (⟨value, hvalue, -⟩ | ⟨arr', harr', hmem⟩)
    · have hnone := probe.disjoint key (Option.isSome_of_eq_some hvalue)
      rw [harr] at hnone
      cases hnone
    · obtain rfl := Option.some.inj (harr.symm.trans harr')
      exact hmem
  · intro hmem
    exact .inr ⟨arr, harr, hmem⟩

/-! ### The metadata from both sides -/

/-- An array of the dump passes for no hyperparameter. -/
theorem type_ne_of_has_hparams (hagrees : Agrees numberText probe dump) (hdistinct : Distinct numberText probe dump)
    (hkey : probe.hparams.has key) (hfield : dump.metadata.get key = some field) : field.type ≠ some "ARRAY" := by
  intro harray
  obtain ⟨value, hvalue⟩ := Option.isSome_iff_exists.mp hkey
  obtain ⟨hskip, hdiffers⟩ := hdistinct.kind key field value hfield harray hvalue
  obtain ⟨field', hfield', hsame⟩ := hagrees.hparam key value hvalue hskip
  obtain rfl := Option.some.inj (hfield.symm.trans hfield')
  exact Bool.false_ne_true (hdiffers.symm.trans hsame)

/-- What the probe says of a scalar is looked for, but for the template, which is looked for on its own. -/
theorem get_of_has_hparams (hagrees : Agrees numberText probe dump) (hkey : probe.hparams.has key) :
    ∃ field, dump.metadata.get key = some field := by
  by_cases hskip : key ∈ SKIP_KEYS
  · obtain rfl := List.mem_singleton.mp hskip
    have htemplate := hagrees.template.symm.trans (probe.template hkey)
    exact Option.isSome_iff_exists.mp htemplate
  · obtain ⟨value, hvalue⟩ := Option.isSome_iff_exists.mp hkey
    obtain ⟨field, hfield, -⟩ := hagrees.hparam key value hvalue hskip
    exact ⟨field, hfield⟩

theorem exists_array_of_has (hagrees : Agrees numberText probe dump) (hkey : probe.arrayFields.has key) :
    ∃ field, dump.metadata.get key = some field ∧ field.type = some "ARRAY" := by
  obtain ⟨arr, harr⟩ := Option.isSome_iff_exists.mp hkey
  obtain ⟨field, values, hfield, hsame⟩ := hagrees.array key arr harr
  exact ⟨field, hfield, hsame.type_eq⟩

theorem same_of_agrees (hdigits : WritesDigits numberText) (hagrees : Agrees numberText probe dump)
    (hcomplete : Complete numberText probe dump) (hdistinct : Distinct numberText probe dump) :
    Same numberText probe dump where
  architecture := eq_of_strictEquals hagrees.architecture
  pre := eq_of_strictEquals hagrees.pre
  tensors := hagrees.tensors
  scalar_iff key hunder := by
    constructor
    · intro hkey
      obtain ⟨field, hfield⟩ := get_of_has_hparams hagrees hkey
      exact ⟨field, hfield, type_ne_of_has_hparams hagrees hdistinct hkey hfield⟩
    · intro ⟨field, hfield, htype⟩
      refine (hcomplete key field hfield (.inr hunder)).resolve_right fun harray => ?_
      obtain ⟨field', hfield', htype'⟩ := exists_array_of_has hagrees harray
      obtain rfl := Option.some.inj (hfield.symm.trans hfield')
      exact htype htype'
  array_iff key := by
    constructor
    · exact exists_array_of_has hagrees
    · intro ⟨field, hfield, htype⟩
      refine (hcomplete key field hfield (.inl htype)).resolve_left fun hscalar => ?_
      exact type_ne_of_has_hparams hagrees hdistinct hscalar hfield htype
  array key arr field harr hfield := by
    obtain ⟨field', values, hfield', hsame⟩ := hagrees.array key arr harr
    obtain rfl := Option.some.inj (hfield.symm.trans hfield')
    refine ⟨values, hsame.value_eq, hsame.length_eq, fun i sampled hi => ?_⟩
    exact equalItem_of_sameItem hdigits (hsame.sample i sampled hi)
      (hdistinct.sample key arr field values harr hfield hsame.type_eq hsame.value_eq i sampled hi)

theorem reported_of_complete (hdigits : WritesDigits numberText) (h : Comparable probe dump)
    (hcomplete : Complete numberText probe dump) (hdistinct : Distinct numberText probe dump) :
    Reported numberText probe dump where
  same hpass := same_of_agrees hdigits ((compare_iff h).mp hpass) hcomplete hdistinct
  dropped key field hfield hkey hmissing := absurd (hcomplete key field hfield hkey) hmissing
  kind key field hfield htype hkey := by
    obtain ⟨value, hvalue⟩ := Option.isSome_iff_exists.mp hkey
    exact (noted_hparam_iff hvalue hfield).mpr (hdistinct.kind key field value hfield htype hvalue)
  sample key arr field values harr hfield htype hvalue i sampled hi hdiffers := by
    rw [arrayItem_mem_iff harr hfield htype hvalue hi, ← Bool.not_eq_true]
    intro hsame
    obtain ⟨q, hq, hequal⟩ := equalItem_of_sameItem hdigits hsame
      (hdistinct.sample key arr field values harr hfield htype hvalue i sampled hi)
    exact hdiffers q hq hequal

theorem complete_of_reported (hreported : Reported numberText probe dump) : Complete numberText probe dump := by
  intro key field hfield hkey
  by_contra hmissing
  exact hmissing (has_of_noted (hreported.dropped key field hfield hkey hmissing))

theorem distinct_of_reported (hreported : Reported numberText probe dump) : Distinct numberText probe dump where
  kind key field value hfield htype hvalue :=
    (noted_hparam_iff hvalue hfield).mp (hreported.kind key field hfield htype (Option.isSome_of_eq_some hvalue))
  sample key arr field values harr hfield htype hvalue i sampled hi hslips := by
    have hnoted := hreported.sample key arr field values harr hfield htype hvalue i sampled hi
      fun expected hexpected => not_equalItem_of_slips (hexpected ▸ hslips)
    rw [arrayItem_mem_iff harr hfield htype hvalue hi, sameItem_of_slips hslips] at hnoted
    exact Bool.false_ne_true hnoted.symm

/-- What the probe writes of a header is complete against a dump of the same keys. -/
theorem complete_ofHeader {ν : Type} {printing : Probe.Printing ν} {header : Gguf.Header ν} {tensorLimit : Nat}
    {architecture : String} (harch : header.metadata.get "general.architecture" = some (.string architecture))
    (hdump : ∀ key field, dump.metadata.get key = some field → ∃ value, header.metadata.get key = some value ∧
      (Probe.isArray value = true ↔ field.type = some "ARRAY")) :
    Complete numberText (Report.ofHeader printing header tensorLimit) dump := by
  intro key field hfield hkey
  obtain ⟨value, hvalue, harray⟩ := hdump key field hfield
  cases hplain : Probe.isArray value with
  | true => exact .inr (has_arrayFieldsJson.mpr ⟨value, hvalue, hplain⟩)
  | false =>
      have hunder := hkey.resolve_left fun htype => by
        rw [harray.mpr htype] at hplain
        cases hplain
      have hjson : (Report.ofHeader printing header tensorLimit).architecture =
          some (.prim (.string architecture)) := by
        rw [Report.ofHeader, Probe.metaValue, harch]
        rfl
      obtain ⟨htruthy, hprefix⟩ := hunder
      rw [hjson] at htruthy hprefix
      exact .inl (has_hparamsJson.mpr ⟨⟨.string architecture, harch, htruthy, hprefix⟩, value, hvalue, hplain⟩)

/-- **What the cross-check reports.** It passes only what is the same and notes all in which the probe falls short
if and only if the probe has left nothing of the metadata out and nothing passes for what it is not. -/
theorem reported_iff (hdigits : WritesDigits numberText) (h : Comparable probe dump) :
    Reported numberText probe dump ↔ Complete numberText probe dump ∧ Distinct numberText probe dump := by
  constructor
  · intro hreported
    exact ⟨complete_of_reported hreported, distinct_of_reported hreported⟩
  · intro ⟨hcomplete, hdistinct⟩
    exact reported_of_complete hdigits h hcomplete hdistinct

/-- gguf-py on a model of one hyperparameter and one array. -/
def oneBlockDump : Dump where
  metadata :=
    { entries :=
        [("general.architecture", ⟨some "STRING", some (.prim (.string "llama"))⟩),
          ("llama.block_count", ⟨some "UINT32", some (.prim (.number 1))⟩),
          ("tokenizer.ggml.tokens", ⟨some "ARRAY", some (.array [.string "<s>"])⟩)]
      nodup := by decide }
  tensors := .empty

/-- The probe on the same model. -/
def oneBlockReport : Report where
  architecture := some (.prim (.string "llama"))
  tokenizerPre := some (.prim .null)
  hasChatTemplate := false
  tensorCount := 0
  tensors := some []
  hparams := ⟨[("llama.block_count", .number 1)], by decide⟩
  arrayFields := ⟨[("tokenizer.ggml.tokens", ⟨8, 1, [.string "<s>"]⟩)], by decide⟩
  disjoint key h := by
    obtain ⟨value, hvalue⟩ := Option.isSome_iff_exists.mp h
    obtain ⟨rfl, -⟩ := Prod.mk.inj (List.mem_singleton.mp (JsMap.get_eq_some_iff.mp hvalue))
    decide
  template h := absurd h (by decide)

/-- A report without any of the metadata. -/
def droppingReport : Report where
  architecture := some (.prim (.string "llama"))
  tokenizerPre := some (.prim .null)
  hasChatTemplate := false
  tensorCount := 0
  tensors := some []
  hparams := .empty
  arrayFields := .empty
  disjoint _ _ := rfl
  template h := absurd h (by decide)

theorem comparable_of_no_tensors (hprobe : probe.tensors = some []) (hcount : probe.tensorCount = 0)
    (hdump : dump.tensors = .empty) : Comparable probe dump where
  count_eq tensors htensors := by
    obtain rfl := Option.some.inj (hprobe.symm.trans htensors)
    exact hcount
  dims_short tensors htensors t ht := by
    obtain rfl := Option.some.inj (hprobe.symm.trans htensors)
    exact absurd ht List.not_mem_nil
  shape_short name d hd := by
    rw [hdump, JsMap.get_empty] at hd
    exact nomatch hd

theorem writesDigits_toString : WritesDigits toString := by
  intro n _
  rfl

theorem complete_oneBlock : Complete toString oneBlockReport oneBlockDump := by
  intro key field hfield hkey
  have hentry := JsMap.get_eq_some_iff.mp hfield
  simp only [oneBlockDump, List.mem_cons, List.not_mem_nil, or_false, Prod.mk.injEq] at hentry
  obtain ⟨rfl, rfl⟩ | ⟨rfl, rfl⟩ | ⟨rfl, rfl⟩ := hentry
  · obtain htype | hunder := hkey
    · exact absurd htype (by decide)
    · exact absurd hunder.2 (by decide)
  · exact .inl rfl
  · exact .inr rfl

theorem distinct_oneBlock : Distinct toString oneBlockReport oneBlockDump where
  kind key field value hfield htype hvalue := by
    obtain ⟨rfl, rfl⟩ := Prod.mk.inj (List.mem_singleton.mp (JsMap.get_eq_some_iff.mp hvalue))
    obtain rfl := Option.some.inj hfield
    exact absurd htype (by decide)
  sample key arr field values harr hfield htype hvalue i sampled hi hslips := by
    obtain ⟨rfl, rfl⟩ := Prod.mk.inj (List.mem_singleton.mp (JsMap.get_eq_some_iff.mp harr))
    obtain rfl := Option.some.inj hfield
    obtain rfl := Json.array.inj (Option.some.inj hvalue)
    rw [hi] at hslips
    exact not_equalItem_of_slips hslips (.inl rfl)

theorem reported_oneBlock : Reported toString oneBlockReport oneBlockDump :=
  (reported_iff writesDigits_toString (comparable_of_no_tensors rfl rfl rfl)).mpr
    ⟨complete_oneBlock, distinct_oneBlock⟩

theorem not_same_dropping :
    ¬ ∀ (numberText : ℚ → String) (probe : Report) (dump : Dump), WritesDigits numberText →
      Comparable probe dump → compare numberText probe dump = true → Same numberText probe dump := by
  intro h
  have hcomparable : Comparable droppingReport oneBlockDump := comparable_of_no_tensors rfl rfl rfl
  have hsame := h toString droppingReport oneBlockDump writesDigits_toString hcomparable (by decide)
  have hkept := (hsame.array_iff "tokenizer.ggml.tokens").mpr ⟨_, rfl, rfl⟩
  exact Bool.false_ne_true hkept

end LlmRuntime.Crosscheck

import LlmRuntime.Crosscheck.Model

/-!
# What a passed cross-check says

The tensors are compared from both sides: with the counts equal and every name of the dump found, nothing
is left over. The metadata is gone through from the side of the probe only, so what the probe has dropped is
never asked for.
-/

namespace LlmRuntime.Crosscheck

open Gguf (double isSafeInteger)

/-! ### Lists of problems -/

theorem noteIf_eq_nil_iff {condition : Bool} {problem : Problem} :
    noteIf condition problem = [] ↔ condition = false := by
  cases condition with
  | false => exact iff_of_true rfl rfl
  | true => exact iff_of_false (List.cons_ne_nil _ _) Bool.noConfusion

theorem flatMap_entries_eq_nil_iff {κ ν : Type} [DecidableEq κ] {m : JsMap κ ν} {f : κ × ν → List Problem} :
    m.entries.flatMap f = [] ↔ ∀ key value, m.get key = some value → f (key, value) = [] := by
  rw [List.flatMap_eq_nil_iff]
  constructor
  · intro h key value hget
    exact h (key, value) (JsMap.get_eq_some_iff.mp hget)
  · intro h entry hentry
    exact h entry.1 entry.2 (JsMap.get_eq_some_iff.mpr hentry)

/-! ### Tensors -/

/-- The same names, each once, with the same type and the same dimensions. -/
structure SameTensors (tensors : List ReportTensor) (dump : JsMap String DumpTensor) : Prop where
  nodup : (tensors.map ReportTensor.name).Nodup
  name_iff : ∀ name, name ∈ tensors.map ReportTensor.name ↔ (dump.get name).isSome
  same : ∀ t ∈ tensors, ∀ d, dump.get t.name = some d → t.typeName = d.type ∧ t.dims = d.shape

/-- A tensor is the entry of its name. -/
def Names (t : ReportTensor) (name : String) (value : ReportTensor) : Prop := t.name = name ∧ t = value

theorem get_byName_iff {tensors : List ReportTensor} {name : String} {t : ReportTensor} :
    (byName tensors).get name = some t ↔ Ledger.Last Names tensors name t := by
  apply Ledger.get_tableOf
  intro a k v
  rw [Option.some.injEq, Prod.mk.injEq]
  exact Iff.rfl

theorem mem_of_get_byName {tensors : List ReportTensor} {name : String} {t : ReportTensor}
    (h : (byName tensors).get name = some t) : t ∈ tensors ∧ t.name = name := by
  obtain ⟨a, ha, rfl, rfl⟩ := (get_byName_iff.mp h).exists_mem
  exact ⟨ha, rfl⟩

theorem isSome_get_byName {tensors : List ReportTensor} {name : String} :
    ((byName tensors).get name).isSome ↔ name ∈ tensors.map ReportTensor.name := by
  apply Ledger.has_tableOf.trans
  rw [List.mem_map]
  constructor
  · intro ⟨a, ha, v, hentry⟩
    exact ⟨a, ha, congrArg Prod.fst (Option.some.inj hentry)⟩
  · intro ⟨a, ha, hname⟩
    exact ⟨a, ha, a, by rw [hname]⟩

/-- Where no name comes twice, every tensor is found under its name. -/
theorem get_byName_of_nodup {tensors : List ReportTensor} (h : (tensors.map ReportTensor.name).Nodup)
    {t : ReportTensor} (ht : t ∈ tensors) : (byName tensors).get t.name = some t := by
  obtain ⟨t', ht'⟩ := Option.isSome_iff_exists.mp (isSome_get_byName.mpr (List.mem_map_of_mem ht))
  obtain ⟨hmem, hname⟩ := mem_of_get_byName ht'
  rw [ht', List.inj_on_of_nodup_map h hmem ht hname]

theorem tensorProblem_eq_nil_iff {table : JsMap String ReportTensor} {name : String} {d : DumpTensor} :
    tensorProblem table name d = [] ↔
      ∃ p, table.get name = some p ∧ p.typeName = d.type ∧ p.dims.map double = d.shape.map double := by
  rw [tensorProblem]
  cases table.get name with
  | none => simp
  | some p => simp [noteIf_eq_nil_iff]

/-- All whole numbers are below `2 ^ 53`. -/
def Short (dims : List Nat) : Prop := ∀ n ∈ dims, isSafeInteger n

theorem map_double_inj {dims shape : List Nat} (hdims : Short dims) (hshape : Short shape)
    (h : dims.map double = shape.map double) : dims = shape := by
  have hsame : ∀ l : List Nat, Short l → l.map double = l := by
    intro l hl
    have hid : l.map double = l.map id := List.map_congr_left fun n hn => Gguf.double_of_lt (hl n hn)
    rw [hid, List.map_id]
  rw [← hsame dims hdims, h, hsame shape hshape]

variable {tensors : List ReportTensor} {dump : JsMap String DumpTensor}

/-- With every name of the dump found and as many tensors as names, nothing is left over. -/
theorem sameTensors_of_count (hcount : tensors.length = dump.keys.length)
    (hfound : ∀ name d, dump.get name = some d → ∃ p, (byName tensors).get name = some p ∧
      p.typeName = d.type ∧ p.dims = d.shape) : SameTensors tensors dump := by
  have hsub : dump.keys ⊆ tensors.map ReportTensor.name := by
    intro name hname
    obtain ⟨d, hd⟩ := Option.isSome_iff_exists.mp (JsMap.mem_keys_iff.mp hname)
    obtain ⟨p, hp, -⟩ := hfound name d hd
    exact isSome_get_byName.mp (Option.isSome_of_eq_some hp)
  have hperm : dump.keys.Perm (tensors.map ReportTensor.name) := by
    apply (List.subperm_of_subset dump.nodup_keys hsub).perm_of_length_le
    rw [List.length_map, hcount]
  have hnodup : (tensors.map ReportTensor.name).Nodup := hperm.nodup_iff.mp dump.nodup_keys
  refine ⟨hnodup, ?_, ?_⟩
  · intro name
    rw [← hperm.mem_iff, JsMap.mem_keys_iff]
  · intro t ht d hd
    obtain ⟨p, hp, htype, hdims⟩ := hfound t.name d hd
    obtain rfl : t = p := Option.some.inj ((get_byName_of_nodup hnodup ht).symm.trans hp)
    exact ⟨htype, hdims⟩

/-- What a comparison needs of the numbers: the probe's count is that of its list, and the
dimensions are exact as doubles. -/
structure Comparable (probe : Report) (dump : Dump) : Prop where
  count_eq : ∀ tensors, probe.tensors = some tensors → probe.tensorCount = tensors.length
  dims_short : ∀ tensors, probe.tensors = some tensors → ∀ t ∈ tensors, Short t.dims
  shape_short : ∀ name d, dump.tensors.get name = some d → Short d.shape

variable {probe : Report} {dump : Dump}

theorem tensorProblems_eq_nil_iff (h : Comparable probe dump) : tensorProblems probe dump = [] ↔
    ∃ tensors, probe.tensors = some tensors ∧ SameTensors tensors dump.tensors := by
  rw [tensorProblems, List.append_eq_nil_iff, noteIf_eq_nil_iff, bne_eq_false_iff_eq]
  cases htensors : probe.tensors with
  | none => simp
  | some tensors =>
      dsimp only
      rw [List.append_eq_nil_iff, flatMap_entries_eq_nil_iff, List.flatMap_eq_nil_iff, h.count_eq tensors htensors]
      simp only [tensorProblem_eq_nil_iff, noteIf_eq_nil_iff, Option.some.injEq, exists_eq_left']
      constructor
      · intro hpass
        obtain ⟨hcount, hfound, -⟩ := hpass
        apply sameTensors_of_count hcount
        intro name d hd
        obtain ⟨p, hp, htype, hdims⟩ := hfound name d hd
        have hshort := h.dims_short tensors htensors p (mem_of_get_byName hp).1
        exact ⟨p, hp, htype, map_double_inj hshort (h.shape_short name d hd) hdims⟩
      · intro hsame
        have hperm : (tensors.map ReportTensor.name).Perm dump.tensors.keys := by
          rw [List.perm_ext_iff_of_nodup hsame.nodup dump.tensors.nodup_keys]
          intro name
          rw [hsame.name_iff, JsMap.mem_keys_iff]
        refine ⟨by rw [← hperm.length_eq, List.length_map], ?_, ?_⟩
        · intro name d hd
          obtain ⟨t, ht, rfl⟩ := List.mem_map.mp ((hsame.name_iff name).mpr (Option.isSome_of_eq_some hd))
          obtain ⟨htype, hdims⟩ := hsame.same t ht d hd
          exact ⟨t, get_byName_of_nodup hsame.nodup ht, htype, by rw [hdims]⟩
        · intro name hname
          have hhas := (hsame.name_iff name).mp (isSome_get_byName.mp (JsMap.mem_keys_iff.mp hname))
          rw [isIn, JsMap.has, hhas]
          rfl

/-! ### Metadata -/

variable {numberText : ℚ → String}

theorem sameNumber_undefined (a : Option Json) : sameNumber a none = false := by
  rw [sameNumber]
  cases finiteNumber a with
  | none => rfl
  | some x => rfl

theorem sameScalar_undefined (value : Prim) : sameScalar numberText value none = false := by
  rw [sameScalar]
  cases value with
  | null => exact sameNumber_undefined (some (.prim .null))
  | number x => exact sameNumber_undefined (some (.prim (.number x)))
  | string s => exact sameNumber_undefined (some (.prim (.string s)))
  | bool b =>
      cases b with
      | false => exact beq_false_of_ne (show "false" ≠ "undefined" by decide)
      | true => exact beq_false_of_ne (show "true" ≠ "undefined" by decide)

theorem property_of_get {metadata : JsMap String Field} {key : String} {field : Field}
    (h : metadata.get key = some field) : property metadata key = some field := by
  rw [property, h]

/-- A name that is not in the metadata may still be inherited. -/
theorem property_of_get_none {metadata : JsMap String Field} {key : String} (h : metadata.get key = none) :
    property metadata key = none ∨ property metadata key = some ⟨none, none⟩ := by
  rw [property, h]
  dsimp only
  by_cases hinherited : OBJECT_PROTOTYPE.contains key = true
  · right
    rw [if_pos hinherited]
  · left
    rw [if_neg hinherited]

/-- What is inherited has no value, and no scalar of the probe is the same as no value. -/
theorem hparamProblem_eq_nil_iff {key : String} {value : Prim} : hparamProblem numberText dump key value = [] ↔
    (key ∉ SKIP_KEYS → ∃ field, dump.metadata.get key = some field ∧
      sameScalar numberText value field.value = true) := by
  rw [hparamProblem]
  by_cases hskip : key ∈ SKIP_KEYS
  · simp [hskip]
  rw [if_neg (by simpa using hskip)]
  cases hget : dump.metadata.get key with
  | some field =>
      rw [property_of_get hget]
      simp [hskip, noteIf_eq_nil_iff]
  | none =>
      apply iff_of_false
      · rcases property_of_get_none hget with hnone | hinherited
        · rw [hnone]
          exact List.cons_ne_nil _ _
        · rw [hinherited]
          dsimp only
          rw [sameScalar_undefined]
          exact List.cons_ne_nil _ _
      · intro hfound
        obtain ⟨field, hfield, -⟩ := hfound hskip
        cases hfield

/-- The dump has an array of as many items as the probe says, and the sample is found in it. -/
structure SameArray (numberText : ℚ → String) (arr : ArrayField) (field : Field) (values : List Prim) :
    Prop where
  type_eq : field.type = some "ARRAY"
  value_eq : field.value = some (.array values)
  length_eq : values.length = arr.length
  sample : ∀ (i : Nat) sampled, arr.sample[i]? = some sampled → sameItem numberText sampled values[i]? = true

theorem flatMap_zipIdx_eq_nil_iff {α : Type} {l : List α} {f : α × Nat → List Problem} :
    l.zipIdx.flatMap f = [] ↔ ∀ (i : Nat) a, l[i]? = some a → f (a, i) = [] := by
  rw [List.flatMap_eq_nil_iff]
  constructor
  · intro h i a ha
    exact h (a, i) (List.mem_zipIdx_iff_getElem?.mpr ha)
  · intro h item hitem
    exact h item.2 item.1 (List.mem_zipIdx_iff_getElem?.mp hitem)

theorem arrayProblem_eq_nil_iff {key : String} {arr : ArrayField} : arrayProblem numberText dump key arr = [] ↔
    ∃ field values, dump.metadata.get key = some field ∧ SameArray numberText arr field values := by
  rw [arrayProblem]
  cases hget : dump.metadata.get key with
  | none =>
      apply iff_of_false
      · rcases property_of_get_none hget with hnone | hinherited
        · rw [hnone]
          exact List.cons_ne_nil _ _
        · rw [hinherited]
          exact List.cons_ne_nil _ _
      · intro hfound
        obtain ⟨field, values, hfield, -⟩ := hfound
        cases hfield
  | some field =>
      rw [property_of_get hget]
      dsimp only
      by_cases htype : field.type = some "ARRAY"
      · rw [if_neg (not_not_intro htype)]
        split
        · rename_i values hvalue
          rw [List.append_eq_nil_iff, noteIf_eq_nil_iff, bne_eq_false_iff_eq, flatMap_zipIdx_eq_nil_iff]
          simp only [noteIf_eq_nil_iff, Bool.not_eq_false']
          constructor
          · intro ⟨hlength, hsample⟩
            exact ⟨field, values, rfl, htype, hvalue, hlength, hsample⟩
          · intro ⟨field', values', hfield, hsame⟩
            obtain rfl := Option.some.inj hfield
            obtain rfl : values' = values := by simpa [hsame.value_eq] using hvalue
            exact ⟨hsame.length_eq, hsame.sample⟩
        · rename_i hvalue
          apply iff_of_false (List.cons_ne_nil _ _)
          intro ⟨field', values, hfield, hsame⟩
          obtain rfl := Option.some.inj hfield
          exact hvalue values hsame.value_eq
      · rw [if_pos htype]
        apply iff_of_false (List.cons_ne_nil _ _)
        intro ⟨field', values, hfield, hsame⟩
        obtain rfl := Option.some.inj hfield
        exact htype hsame.type_eq

/-! ### The whole comparison -/

/-- What both sides have, and all that the probe says of the metadata, is the same. -/
structure Agrees (numberText : ℚ → String) (probe : Report) (dump : Dump) : Prop where
  architecture : strictEquals probe.architecture (dump.value "general.architecture") = true
  pre : strictEquals (orNull probe.tokenizerPre) (orNull (dump.value "tokenizer.ggml.pre")) = true
  template : probe.hasChatTemplate = dump.metadata.has "tokenizer.chat_template"
  tensors : ∃ tensors, probe.tensors = some tensors ∧ SameTensors tensors dump.tensors
  hparam : ∀ key value, probe.hparams.get key = some value → key ∉ SKIP_KEYS →
    ∃ field, dump.metadata.get key = some field ∧ sameScalar numberText value field.value = true
  array : ∀ key arr, probe.arrayFields.get key = some arr →
    ∃ field values, dump.metadata.get key = some field ∧ SameArray numberText arr field values

theorem eq_of_strictEquals {a b : Option Json} (h : strictEquals a b = true) : a = b := by
  unfold strictEquals at h
  split at h
  · rfl
  · rename_i p q
    rw [of_decide_eq_true h]
  · exact absurd h Bool.false_ne_true

theorem identityProblems_eq_nil_iff : identityProblems probe dump = [] ↔
    strictEquals probe.architecture (dump.value "general.architecture") = true ∧
      strictEquals (orNull probe.tokenizerPre) (orNull (dump.value "tokenizer.ggml.pre")) = true ∧
      probe.hasChatTemplate = dump.metadata.has "tokenizer.chat_template" := by
  have hin : isIn "tokenizer.chat_template" dump.metadata = dump.metadata.has "tokenizer.chat_template" :=
    Bool.or_false _
  rw [identityProblems, List.append_eq_nil_iff, List.append_eq_nil_iff, noteIf_eq_nil_iff, noteIf_eq_nil_iff,
    noteIf_eq_nil_iff, Bool.not_eq_false', Bool.not_eq_false', bne_eq_false_iff_eq, hin, and_assoc]

/-- A comparison passes exactly where all of it agrees. -/
theorem compare_iff (h : Comparable probe dump) :
    compare numberText probe dump = true ↔ Agrees numberText probe dump := by
  rw [compare, List.isEmpty_iff, problems, List.append_eq_nil_iff, List.append_eq_nil_iff, List.append_eq_nil_iff,
    identityProblems_eq_nil_iff, tensorProblems_eq_nil_iff h, flatMap_entries_eq_nil_iff, flatMap_entries_eq_nil_iff]
  simp only [hparamProblem_eq_nil_iff, arrayProblem_eq_nil_iff]
  constructor
  · intro hpass
    obtain ⟨⟨⟨⟨harchitecture, hpre, htemplate⟩, htensors⟩, hhparam⟩, harray⟩ := hpass
    exact ⟨harchitecture, hpre, htemplate, htensors, hhparam, harray⟩
  · intro hagrees
    exact ⟨⟨⟨⟨hagrees.architecture, hagrees.pre, hagrees.template⟩, hagrees.tensors⟩, hagrees.hparam⟩, hagrees.array⟩

end LlmRuntime.Crosscheck

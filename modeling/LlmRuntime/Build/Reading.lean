import LlmRuntime.Build.Model

/-!
# What a line of the provenance says

The three patterns of the reader as a grammar. A line is a record of a patch, a record of an artifact, a
setting, or nothing, and the tables hold of each name what the last line about it says.
-/

namespace LlmRuntime.Build

open Pattern Ledger

/-! ### White space and hexadecimal digits -/

theorem isWhiteSpace_of_toLower {c : Char} (h : isWhiteSpace c.toLower = false) : isWhiteSpace c = false := by
  by_contra hspace
  rw [Bool.not_eq_false] at hspace
  have hcase : ¬(c.val ≥ 'A'.val ∧ c.val ≤ 'Z'.val) := by
    simp only [isWhiteSpace, List.mem_cons, List.not_mem_nil, or_false, Bool.or_eq_true, decide_eq_true_eq,
      Bool.and_eq_true] at hspace
    simp only [ge_iff_le, UInt32.le_iff_toNat_le, Char.toNat_val, not_and]
    have ha : 'A'.toNat = 65 := rfl
    have hz : 'Z'.toNat = 90 := rfl
    omega
  have hlower : c.toLower = c := dif_neg hcase
  rw [hlower, hspace] at h
  cases h

theorem isHex_iff {c : Char} : isHex c = true ↔ c ∈ "0123456789ABCDEFabcdef".toList := decide_eq_true_iff

theorem toLower_toUpper_of_isHex {c : Char} (h : isHex c = true) : c.toUpper.toLower = c.toLower := by
  have hall : ("0123456789ABCDEFabcdef".toList.all fun c => c.toUpper.toLower = c.toLower) = true := by decide
  exact of_decide_eq_true (List.all_eq_true.mp hall c (isHex_iff.mp h))

theorem fold_map_toUpper {sha : Text} (h : ∀ c ∈ sha, isHex c = true) :
    fold (sha.map Char.toUpper) = fold sha := by
  apply Subtype.ext
  show (sha.map Char.toUpper).map Char.toLower = sha.map Char.toLower
  rw [List.map_map]
  exact List.map_congr_left fun c hc => toLower_toUpper_of_isHex (h c hc)

/-! ### The grammar -/

/-- A word, a name, a gap, `sha256=` and a hash, the two literals in either case. -/
def IsRecord (kind s name sha : Text) : Prop :=
  ∃ kind' gap tag, kind' ++ (name ++ (gap ++ (tag ++ sha))) = s ∧
    kind'.map Char.toLower = kind.map Char.toLower ∧
    tag.map Char.toLower = "sha256=".toList.map Char.toLower ∧
    1 ≤ name.length ∧ (∀ c ∈ name, (!isWhiteSpace c) = true) ∧
    1 ≤ gap.length ∧ (∀ c ∈ gap, isWhiteSpace c = true) ∧ 1 ≤ sha.length ∧ ∀ c ∈ sha, isHex c = true

def IsSetting (s key value : Text) : Prop :=
  key ++ '=' :: value = s ∧ 1 ≤ key.length ∧ (∀ c ∈ key, isKeyChar c = true) ∧
    ∀ c ∈ value, decide (c ≠ '\n') = true

variable {kind s name sha key value line : Text} {groups : List Text}

theorem exists_isRecord (h : matchGroups (recordPattern kind) s = some groups) :
    ∃ name sha, groups = [name, sha] ∧ IsRecord kind s name sha := by
  obtain ⟨m, hm, rfl⟩ := Option.map_eq_some_iff.mp h
  rw [recordPattern, exec_start] at hm
  obtain ⟨kind', s₁, rfl, hkind, hm⟩ := fits_wordUpTo hm
  obtain ⟨name, s₂, m₁, rfl, hname, hnospace, hm₁, rfl, -⟩ := fits_capture hm
  obtain ⟨gap, s₃, rfl, hgap, hspace, hm₁⟩ := fits_run hm₁
  obtain ⟨tag, s₄, rfl, htag, hm₁⟩ := fits_wordUpTo hm₁
  obtain ⟨sha, s₅, m₂, rfl, hsha, hhex, hm₂, rfl, -⟩ := fits_capture hm₁
  obtain ⟨rfl, rfl⟩ := fits_finish.mp hm₂
  refine ⟨name, sha, rfl, kind', gap, tag, ?_, hkind, htag, hname, hnospace, hgap, hspace, hsha, hhex⟩
  rw [List.append_nil]

theorem IsRecord.matchGroups (h : IsRecord kind s name sha) :
    matchGroups (recordPattern kind) s = some [name, sha] := by
  obtain ⟨kind', gap, tag, rfl, hkind, htag, hname, hnospace, hgap, hspace, hsha, hhex⟩ := h
  have hnameStop : ∀ c ∈ (gap ++ (tag ++ sha)).head?, (!isWhiteSpace c) = false := by
    intro c hc
    obtain ⟨d, gap, rfl⟩ := List.exists_cons_of_length_pos hgap
    cases hc
    rw [hspace _ List.mem_cons_self]
    rfl
  have hgapStop : ∀ c ∈ (tag ++ sha).head?, isWhiteSpace c = false := by
    intro c hc
    cases tag with
    | nil => cases htag
    | cons d tag =>
        cases hc
        obtain ⟨hd, -⟩ := List.cons.inj htag
        apply isWhiteSpace_of_toLower
        rw [hd]
        decide
  have hfinish : ∀ before, fits [.capture 1 isHex, .finish] before sha = some ⟨[sha], []⟩ := by
    intro before
    have happend : fits [.capture 1 isHex, .finish] before (sha ++ []) = some ⟨[sha], []⟩ :=
      fits_capture_append hsha hhex (by simp) (fits_finish.mpr ⟨rfl, rfl⟩)
    rwa [List.append_nil] at happend
  rw [Build.matchGroups, recordPattern, exec_start, fits_wordUpTo_append hkind,
    fits_capture_append hname hnospace hnameStop (m := ⟨[sha], []⟩)]
  · rfl
  · apply fits_run_append hgap hspace hgapStop
    rw [fits_wordUpTo_append htag]
    exact hfinish _

theorem exists_isSetting (h : matchGroups settingPattern s = some groups) :
    ∃ key value, groups = [key, value] ∧ IsSetting s key value := by
  obtain ⟨m, hm, rfl⟩ := Option.map_eq_some_iff.mp h
  rw [settingPattern, exec_start] at hm
  obtain ⟨key, s₁, m₁, rfl, hkey, hkeyChar, hm₁, rfl, -⟩ := fits_capture hm
  cases s₁ with
  | nil => cases hm₁
  | cons c s₂ =>
      rw [fits, Option.ite_none_right_eq_some] at hm₁
      obtain ⟨hc, hm₁⟩ := hm₁
      obtain ⟨value, s₃, m₂, rfl, -, hvalue, hm₂, rfl, -⟩ := fits_capture hm₁
      obtain ⟨rfl, rfl⟩ := fits_finish.mp hm₂
      refine ⟨key, value, rfl, ?_, hkey, hkeyChar, hvalue⟩
      rw [of_decide_eq_true hc, List.append_nil]

theorem IsSetting.matchGroups (h : IsSetting s key value) :
    matchGroups settingPattern s = some [key, value] := by
  obtain ⟨rfl, hkey, hkeyChar, hvalue⟩ := h
  have hstop : ∀ c ∈ ('=' :: value).head?, isKeyChar c = false := by
    intro c hc
    cases hc
    decide
  have hfinish : ∀ before, fits [.capture 0 (· ≠ '\n'), .finish] before value = some ⟨[value], []⟩ := by
    intro before
    have happend : fits [.capture 0 (· ≠ '\n'), .finish] before (value ++ []) = some ⟨[value], []⟩ :=
      fits_capture_append (Nat.zero_le _) hvalue (by simp) (fits_finish.mpr ⟨rfl, rfl⟩)
    rwa [List.append_nil] at happend
  rw [Build.matchGroups, settingPattern, exec_start,
    fits_capture_append hkey hkeyChar hstop (m := ⟨[value], []⟩)]
  · rfl
  · rw [fits, if_pos (decide_eq_true rfl)]
    exact hfinish _

/-! ### What a line is -/

theorem IsRecord.ne_nil (h : IsRecord kind s name sha) : s ≠ [] := by
  obtain ⟨kind', gap, tag, rfl, -, -, hname, -⟩ := h
  intro hnil
  rw [List.append_eq_nil_iff, List.append_eq_nil_iff] at hnil
  rw [hnil.2.1] at hname
  cases hname

theorem IsSetting.ne_nil (h : IsSetting s key value) : s ≠ [] := by
  obtain ⟨rfl, -⟩ := h
  exact List.append_ne_nil_of_right_ne_nil key (List.cons_ne_nil _ _)

/-- The first letter of a record tells its kind. -/
theorem IsRecord.head? (h : IsRecord kind s name sha) (hkind : kind ≠ []) :
    s.head?.map Char.toLower = kind.head?.map Char.toLower := by
  obtain ⟨kind', gap, tag, rfl, heq, -⟩ := h
  cases kind' with
  | nil => exact absurd (List.map_eq_nil_iff.mp heq.symm) hkind
  | cons c kind' =>
      rw [List.cons_append, List.head?_cons, ← List.head?_map, ← heq]
      rfl

theorem not_isRecord_artifact (h : IsRecord "patch=".toList s name sha) (name' sha' : Text) :
    ¬IsRecord "artifact=".toList s name' sha' := by
  intro h'
  have hhead := (h.head? (by decide)).symm.trans (h'.head? (by decide))
  revert hhead
  decide

/-- What a line gives a name or a key. -/
def PatchGives (line : Text) (name : Folded) (hash : Text) : Prop :=
  ∃ n sha, IsRecord "patch=".toList (trim line) n sha ∧ fold n = name ∧ sha.map Char.toUpper = hash

def ArtifactGives (line : Text) (name : Folded) (hash : Text) : Prop :=
  ∃ n sha, IsRecord "artifact=".toList (trim line) n sha ∧ fold n = name ∧ sha.map Char.toUpper = hash

def SettingGives (line : Text) (key : Folded) (value : Text) : Prop :=
  ∃ k, IsSetting (trim line) k value ∧ fold k = key ∧ (∀ name hash, ¬PatchGives line name hash) ∧
    ∀ name hash, ¬ArtifactGives line name hash

theorem recordOf_of_patch (h : IsRecord "patch=".toList (trim line) name sha) :
    recordOf line = some (.patch name (sha.map Char.toUpper)) := by
  simp only [recordOf, if_neg h.ne_nil, h.matchGroups]

theorem matchGroups_eq_none (h : ∀ name sha, ¬IsRecord kind s name sha) :
    matchGroups (recordPattern kind) s = none := by
  rw [Option.eq_none_iff_forall_ne_some]
  intro groups hgroups
  obtain ⟨name, sha, -, hrecord⟩ := exists_isRecord hgroups
  exact h name sha hrecord

theorem recordOf_of_artifact (h : IsRecord "artifact=".toList (trim line) name sha) :
    recordOf line = some (.artifact name (sha.map Char.toUpper)) := by
  have hpatch := matchGroups_eq_none fun name' sha' hpatch => not_isRecord_artifact hpatch name sha h
  simp only [recordOf, if_neg h.ne_nil, hpatch, h.matchGroups]

theorem recordOf_of_setting (h : IsSetting (trim line) key value)
    (hpatch : ∀ name sha, ¬IsRecord "patch=".toList (trim line) name sha)
    (hartifact : ∀ name sha, ¬IsRecord "artifact=".toList (trim line) name sha) :
    recordOf line = some (.setting key value) := by
  simp only [recordOf, if_neg h.ne_nil, matchGroups_eq_none hpatch, matchGroups_eq_none hartifact,
    h.matchGroups]

theorem recordOf_of_none (hpatch : ∀ name sha, ¬IsRecord "patch=".toList (trim line) name sha)
    (hartifact : ∀ name sha, ¬IsRecord "artifact=".toList (trim line) name sha)
    (hsetting : ∀ key value, ¬IsSetting (trim line) key value) : recordOf line = none := by
  have hnone : matchGroups settingPattern (trim line) = none := by
    rw [Option.eq_none_iff_forall_ne_some]
    intro groups hgroups
    obtain ⟨key, value, -, h⟩ := exists_isSetting hgroups
    exact hsetting key value h
  simp only [recordOf, matchGroups_eq_none hpatch, matchGroups_eq_none hartifact, hnone, ite_self]

/-- A line is a record of a patch, of an artifact, a setting or nothing, in this order. -/
theorem recordOf_cases (line : Text) :
    (∃ name sha, IsRecord "patch=".toList (trim line) name sha ∧
      recordOf line = some (.patch name (sha.map Char.toUpper))) ∨
    (∃ name sha, IsRecord "artifact=".toList (trim line) name sha ∧
      recordOf line = some (.artifact name (sha.map Char.toUpper))) ∨
    (∃ key value, IsSetting (trim line) key value ∧ recordOf line = some (.setting key value) ∧
      (∀ name sha, ¬IsRecord "patch=".toList (trim line) name sha) ∧
      ∀ name sha, ¬IsRecord "artifact=".toList (trim line) name sha) ∨
    recordOf line = none ∧ (∀ name sha, ¬IsRecord "patch=".toList (trim line) name sha) ∧
      (∀ name sha, ¬IsRecord "artifact=".toList (trim line) name sha) ∧
      ∀ key value, ¬IsSetting (trim line) key value := by
  by_cases hpatch : ∃ name sha, IsRecord "patch=".toList (trim line) name sha
  · obtain ⟨name, sha, h⟩ := hpatch
    exact Or.inl ⟨name, sha, h, recordOf_of_patch h⟩
  · by_cases hartifact : ∃ name sha, IsRecord "artifact=".toList (trim line) name sha
    · obtain ⟨name, sha, h⟩ := hartifact
      exact Or.inr (Or.inl ⟨name, sha, h, recordOf_of_artifact h⟩)
    · simp only [not_exists] at hpatch hartifact
      by_cases hsetting : ∃ key value, IsSetting (trim line) key value
      · obtain ⟨key, value, h⟩ := hsetting
        have hrecord := recordOf_of_setting h hpatch hartifact
        exact Or.inr (Or.inr (Or.inl ⟨key, value, h, hrecord, hpatch, hartifact⟩))
      · simp only [not_exists] at hsetting
        have hrecord := recordOf_of_none hpatch hartifact hsetting
        exact Or.inr (Or.inr (Or.inr ⟨hrecord, hpatch, hartifact, hsetting⟩))

/-! ### The tables -/

namespace Record

def patchEntry : Record → Option (Folded × Text)
  | patch name sha => some (fold name, sha)
  | _ => none

def artifactEntry : Record → Option (Folded × Text)
  | artifact name sha => some (fold name, sha)
  | _ => none

def settingEntry : Record → Option (Folded × Text)
  | setting key value => some (fold key, value)
  | _ => none

end Record

def patchEntry (line : Text) : Option (Folded × Text) := (recordOf line).bind Record.patchEntry

def artifactEntry (line : Text) : Option (Folded × Text) := (recordOf line).bind Record.artifactEntry

def settingEntry (line : Text) : Option (Folded × Text) := (recordOf line).bind Record.settingEntry

theorem patchEntry_eq_some {k : Folded} {v : Text} : patchEntry line = some (k, v) ↔ PatchGives line k v := by
  constructor
  · intro h
    unfold patchEntry at h
    obtain ⟨name, sha, hrecord, heq⟩ | ⟨name, sha, -, heq⟩ | ⟨key, value, -, heq, -⟩ | ⟨heq, -⟩ :=
      recordOf_cases line <;> rw [heq] at h <;> cases h
    exact ⟨name, sha, hrecord, rfl, rfl⟩
  · intro h
    obtain ⟨name, sha, hrecord, rfl, rfl⟩ := h
    rw [patchEntry, recordOf_of_patch hrecord]
    rfl

theorem artifactEntry_eq_some {k : Folded} {v : Text} :
    artifactEntry line = some (k, v) ↔ ArtifactGives line k v := by
  constructor
  · intro h
    unfold artifactEntry at h
    obtain ⟨name, sha, -, heq⟩ | ⟨name, sha, hrecord, heq⟩ | ⟨key, value, -, heq, -⟩ | ⟨heq, -⟩ :=
      recordOf_cases line <;> rw [heq] at h <;> cases h
    exact ⟨name, sha, hrecord, rfl, rfl⟩
  · intro h
    obtain ⟨name, sha, hrecord, rfl, rfl⟩ := h
    rw [artifactEntry, recordOf_of_artifact hrecord]
    rfl

theorem settingEntry_eq_some {k : Folded} {v : Text} :
    settingEntry line = some (k, v) ↔ SettingGives line k v := by
  constructor
  · intro h
    unfold settingEntry at h
    obtain ⟨name, sha, -, heq⟩ | ⟨name, sha, -, heq⟩ | ⟨key, value, hsetting, heq, hpatch, hartifact⟩ | ⟨heq, -⟩ :=
      recordOf_cases line <;> rw [heq] at h <;> cases h
    refine ⟨key, hsetting, rfl, ?_, ?_⟩
    · exact fun _ _ ⟨name, sha, hrecord, _⟩ => hpatch name sha hrecord
    · exact fun _ _ ⟨name, sha, hrecord, _⟩ => hartifact name sha hrecord
  · intro h
    obtain ⟨key, hsetting, rfl, hpatch, hartifact⟩ := h
    have hnoPatch (name sha : Text) (hrecord : IsRecord "patch=".toList (trim line) name sha) : False :=
      hpatch _ _ ⟨name, sha, hrecord, rfl, rfl⟩
    have hnoArtifact (name sha : Text) (hrecord : IsRecord "artifact=".toList (trim line) name sha) : False :=
      hartifact _ _ ⟨name, sha, hrecord, rfl, rfl⟩
    rw [settingEntry, recordOf_of_setting hsetting hnoPatch hnoArtifact]
    rfl

theorem Tables.add_eq (tables : Tables) (line : Text) :
    tables.add line = ⟨post settingEntry tables.info line, post patchEntry tables.patches line,
      post artifactEntry tables.artifacts line⟩ := by
  unfold Tables.add post settingEntry patchEntry artifactEntry
  cases recordOf line with
  | none => rfl
  | some record => cases record <;> rfl

/-- The three tables are read in one pass as each would be on its own. -/
theorem readTables_eq (lines : List Text) :
    readTables lines = ⟨tableOf settingEntry lines, tableOf patchEntry lines, tableOf artifactEntry lines⟩ := by
  induction lines using List.reverseRecOn with
  | nil => rfl
  | append_singleton lines line ih =>
      rw [readTables, List.foldl_concat, ← readTables, ih, Tables.add_eq]
      simp only [tableOf, List.foldl_concat]

variable {lines : List Text} {k : Folded} {v : Text}

theorem get_info : (readTables lines).info.get k = some v ↔ Last SettingGives lines k v := by
  rw [readTables_eq]
  exact get_tableOf fun _ _ _ => settingEntry_eq_some

theorem get_patches : (readTables lines).patches.get k = some v ↔ Last PatchGives lines k v := by
  rw [readTables_eq]
  exact get_tableOf fun _ _ _ => patchEntry_eq_some

theorem get_artifacts : (readTables lines).artifacts.get k = some v ↔ Last ArtifactGives lines k v := by
  rw [readTables_eq]
  exact get_tableOf fun _ _ _ => artifactEntry_eq_some

end LlmRuntime.Build

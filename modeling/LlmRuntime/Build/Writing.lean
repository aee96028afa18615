import LlmRuntime.Build.Provenance

/-!
# What the writer writes

The reader gets the lines of the writer back, whatever the ends of lines are, and reads from each the
record that it was written for. So the provenance describes the directory and the patches it was written
of, and with SHA-256 taken as injective none that differ from these.
-/

namespace LlmRuntime.Build

open Except Ledger

/-- What the scripts rely on: SHA-256 is taken to be injective, its digest is hexadecimal, and the encoding
that `Get-Content` assumes has ASCII as ASCII. -/
structure Host.Lawful (host : Host) : Prop where
  injective : ∀ a b, fold (host.sha256 a) = fold (host.sha256 b) → a = b
  nonempty : ∀ a, 1 ≤ (host.sha256 a).length
  hex : ∀ a, ∀ c ∈ host.sha256 a, isHex c = true
  decode : ∀ s : Text, (∀ c ∈ s, c.toNat < 128) → host.decode (s.flatMap String.utf8EncodeChar) = s

/-! ### Lines -/

/-- An ASCII character that does not end a line. -/
def isPlain (c : Char) : Bool := c.toNat < 128 && c ≠ '\r' && c ≠ '\n'

theorem isPlain_iff {c : Char} : isPlain c = true ↔ c.toNat < 128 ∧ c ≠ '\r' ∧ c ≠ '\n' := by
  simp [isPlain, and_assoc]

theorem readLinesFrom_cons {c : Char} (h : isPlain c = true) (line s : Text) :
    readLinesFrom line (c :: s) = readLinesFrom (line ++ [c]) s := by
  obtain ⟨-, hr, hn⟩ := isPlain_iff.mp h
  rw [readLinesFrom]
  · exact fun t hc _ => hr hc
  · exact hr
  · exact hn

theorem readLinesFrom_newLine (host : Host) (line s : Text) :
    readLinesFrom line (host.newLine ++ s) = line :: readLinesFrom [] s := by
  unfold Host.newLine
  cases host.crlf <;> rfl

theorem readLinesFrom_append (host : Host) {l : Text} (h : ∀ c ∈ l, isPlain c = true) (line s : Text) :
    readLinesFrom line (l ++ (host.newLine ++ s)) = (line ++ l) :: readLinesFrom [] s := by
  induction l generalizing line with
  | nil => rw [List.nil_append, readLinesFrom_newLine, List.append_nil]
  | cons c l ih =>
      rw [List.cons_append, readLinesFrom_cons (h c List.mem_cons_self),
        ih fun d hd => h d (List.mem_cons_of_mem c hd), List.append_assoc, List.singleton_append]

theorem readLinesFrom_flatMap (host : Host) {lines : List Text} (h : ∀ l ∈ lines, ∀ c ∈ l, isPlain c = true) :
    readLinesFrom [] (lines.flatMap fun line => line ++ host.newLine) = lines := by
  induction lines with
  | nil => rfl
  | cons l lines ih =>
      rw [List.flatMap_cons, List.append_assoc, readLinesFrom_append host (h l List.mem_cons_self),
        List.nil_append, ih fun m hm => h m (List.mem_cons_of_mem l hm)]

theorem newLine_lt (host : Host) : ∀ c ∈ host.newLine, c.toNat < 128 := by
  have hall : (host.newLine.all fun c => c.toNat < 128) = true := by
    unfold Host.newLine
    cases host.crlf <;> rfl
  exact fun c hc => of_decide_eq_true (List.all_eq_true.mp hall c hc)

variable {host : Host} {lines : List Text}

theorem getContent_encodeLines (law : host.Lawful) (h : ∀ l ∈ lines, ∀ c ∈ l, isPlain c = true) :
    getContent host (encodeLines host lines) = lines := by
  rw [getContent, encodeLines, law.decode, readLinesFrom_flatMap host h]
  intro c hc
  obtain ⟨l, hl, hc⟩ := List.mem_flatMap.mp hc
  rw [List.mem_append] at hc
  cases hc with
  | inl hc => exact (isPlain_iff.mp (h l hl c hc)).1
  | inr hc => exact newLine_lt host c hc

/-! ### A line is what it was written as -/

theorem dropWhile_eq_self {s : Text} (h : ∀ c ∈ s.head?, isWhiteSpace c = false) :
    s.dropWhile isWhiteSpace = s := by
  cases s with
  | nil => rfl
  | cons c s => rw [List.dropWhile_cons_of_neg (by simp [h c rfl])]

theorem trim_eq_self {s : Text} (hfirst : ∀ c ∈ s.head?, isWhiteSpace c = false)
    (hlast : ∀ c ∈ s.getLast?, isWhiteSpace c = false) : trim s = s := by
  rw [trim, dropWhile_eq_self hfirst, dropWhile_eq_self (by rwa [List.head?_reverse]), List.reverse_reverse]

theorem not_isWhiteSpace_of_isHex {c : Char} (h : isHex c = true) : isWhiteSpace c = false := by
  have hall : ("0123456789ABCDEFabcdef".toList.all fun c => isWhiteSpace c = false) = true := by decide
  exact of_decide_eq_true (List.all_eq_true.mp hall c (isHex_iff.mp h))

theorem isPlain_of_isHex {c : Char} (h : isHex c = true) : isPlain c = true := by
  have hall : ("0123456789ABCDEFabcdef".toList.all isPlain) = true := by decide
  exact List.all_eq_true.mp hall c (isHex_iff.mp h)

/-- A name in the sources: printable ASCII, not empty. -/
def IsName (name : Text) : Prop :=
  (name.all fun c => isPlain c && !isWhiteSpace c) = true ∧ 1 ≤ name.length

instance (name : Text) : Decidable (IsName name) := inferInstanceAs (Decidable (_ ∧ _))

theorem IsName.plain {name : Text} (h : IsName name) : ∀ c ∈ name, isPlain c = true := by
  intro c hc
  have hboth := List.all_eq_true.mp h.1 c hc
  rw [Bool.and_eq_true] at hboth
  exact hboth.1

theorem IsName.noSpace {name : Text} (h : IsName name) : ∀ c ∈ name, (!isWhiteSpace c) = true := by
  intro c hc
  have hboth := List.all_eq_true.mp h.1 c hc
  rw [Bool.and_eq_true] at hboth
  exact hboth.2

theorem isName_targets : ∀ target ∈ runtimePatchTargets, IsName target.name := by
  have hall : (runtimePatchTargets.all fun target => IsName target.name) = true := by decide
  exact fun target h => of_decide_eq_true (List.all_eq_true.mp hall target h)

theorem isName_artifacts : ∀ name ∈ runtimeBuildArtifacts, IsName name := by
  have hall : (runtimeBuildArtifacts.all fun name => IsName name) = true := by decide
  exact fun name h => of_decide_eq_true (List.all_eq_true.mp hall name h)

variable {kind name : Text}

/-- A record line, with the hash of some content. -/
theorem isRecord_recordLine (law : host.Lawful) (hkind : IsName kind) (hname : IsName name) (content : Bytes) :
    IsRecord kind (trim (recordLine kind name (host.sha256 content))) name (host.sha256 content) := by
  have hassoc : recordLine kind name (host.sha256 content) =
      kind ++ (name ++ ([' '] ++ ("sha256=".toList ++ host.sha256 content))) := by
    simp [recordLine]
  have htrim : trim (recordLine kind name (host.sha256 content)) = recordLine kind name (host.sha256 content) := by
    apply trim_eq_self
    · intro c hc
      obtain ⟨d, rest, rfl⟩ := List.exists_cons_of_length_pos hkind.2
      cases hc
      have hspace := hkind.noSpace _ List.mem_cons_self
      rwa [Bool.not_eq_true'] at hspace
    · intro c hc
      have hne : host.sha256 content ≠ [] := List.ne_nil_of_length_pos (law.nonempty content)
      rw [recordLine, List.getLast?_append_of_ne_nil _ hne] at hc
      exact not_isWhiteSpace_of_isHex (law.hex content c (List.mem_of_getLast? hc))
  rw [htrim, hassoc]
  refine ⟨kind, [' '], "sha256=".toList, rfl, rfl, rfl, hname.2, hname.noSpace, Nat.le_refl 1, ?_,
    law.nonempty content, law.hex content⟩
  intro c hc
  rw [List.mem_singleton.mp hc]
  decide

theorem plain_recordLine (law : host.Lawful) (hkind : IsName kind) (hname : IsName name) (content : Bytes) :
    ∀ c ∈ recordLine kind name (host.sha256 content), isPlain c = true := by
  intro c hc
  rw [recordLine, List.mem_append, List.mem_append, List.mem_append] at hc
  obtain ((hc | hc) | hc) | hc := hc
  · exact hkind.plain c hc
  · exact hname.plain c hc
  · exact List.all_eq_true.mp (show (" sha256=".toList.all isPlain) = true by decide) c hc
  · exact isPlain_of_isHex (law.hex content c hc)

def isPrintable (c : Char) : Bool := 32 < c.toNat && c.toNat < 127

theorem isPrintable_iff {c : Char} : isPrintable c = true ↔ 32 < c.toNat ∧ c.toNat < 127 := by
  simp [isPrintable]

theorem isPlain_of_isPrintable {c : Char} (h : isPrintable c = true) : isPlain c = true := by
  obtain ⟨hlow, hhigh⟩ := isPrintable_iff.mp h
  refine isPlain_iff.mpr ⟨by omega, ?_, ?_⟩
  · rintro rfl
    exact absurd hlow (by decide)
  · rintro rfl
    exact absurd hlow (by decide)

theorem not_isWhiteSpace_of_isPrintable {c : Char} (h : isPrintable c = true) : isWhiteSpace c = false := by
  obtain ⟨hlow, hhigh⟩ := isPrintable_iff.mp h
  simp only [isWhiteSpace, List.mem_cons, List.not_mem_nil, or_false, Bool.or_eq_false_iff,
    Bool.and_eq_false_iff, decide_eq_false_iff_not]
  omega

theorem isPrintable_of_isKeyChar {c : Char} (h : isKeyChar c = true) : isPrintable c = true := by
  have hA : 'A'.toNat = 65 := rfl
  have hZ : 'Z'.toNat = 90 := rfl
  have ha : 'a'.toNat = 97 := rfl
  have hz : 'z'.toNat = 122 := rfl
  rw [isPrintable_iff]
  have hkey : isKeyChar c =
      (decide (c.val ≥ 'A'.val ∧ c.val ≤ 'Z'.val) || (c.val ≥ 'a'.val && c.val ≤ 'z'.val) || c = '_') := rfl
  simp only [hkey, Bool.or_eq_true, Bool.and_eq_true, decide_eq_true_eq, ge_iff_le, UInt32.le_iff_toNat_le,
    Char.toNat_val] at h
  obtain (h | h) | rfl := h
  · omega
  · omega
  · decide

/-- A setting of the writer: a key that begins like no record, and a printable value. -/
structure IsPair (key value : Text) : Prop where
  keyChars : ∀ c ∈ key, isKeyChar c = true
  letter : key.head?.map Char.toLower ∉ [none, some 'p', some 'a']
  printable : ∀ c ∈ value, isPrintable c = true

theorem IsPair.printable_line {key value : Text} (h : IsPair key value) :
    ∀ c ∈ settingLine key value, isPrintable c = true := by
  intro c hc
  rw [settingLine, List.mem_append, List.mem_cons] at hc
  obtain hc | rfl | hc := hc
  · exact isPrintable_of_isKeyChar (h.keyChars c hc)
  · decide
  · exact h.printable c hc

theorem IsPair.trim_line {key value : Text} (h : IsPair key value) :
    trim (settingLine key value) = settingLine key value := by
  apply trim_eq_self
  · exact fun c hc => not_isWhiteSpace_of_isPrintable (h.printable_line c (List.mem_of_mem_head? hc))
  · exact fun c hc => not_isWhiteSpace_of_isPrintable (h.printable_line c (List.mem_of_getLast? hc))

theorem IsPair.isSetting {key value : Text} (h : IsPair key value) :
    IsSetting (trim (settingLine key value)) key value := by
  rw [h.trim_line]
  refine ⟨rfl, ?_, h.keyChars, ?_⟩
  · cases key with
    | nil => exact absurd h.letter (by decide)
    | cons c key => exact Nat.succ_pos _
  · intro c hc
    rw [decide_eq_true_iff]
    exact (isPlain_iff.mp (isPlain_of_isPrintable (h.printable c hc))).2.2

theorem IsPair.not_isRecord {key value : Text} (h : IsPair key value) (hkind : kind ≠ [])
    (hletter : kind.head?.map Char.toLower ∈ [some 'p', some 'a']) (name sha : Text) :
    ¬IsRecord kind (trim (settingLine key value)) name sha := by
  rw [h.trim_line]
  intro hrecord
  apply h.letter
  have hhead := hrecord.head? hkind
  cases key with
  | nil => exact absurd h.letter (by decide)
  | cons c key =>
      rw [settingLine, List.cons_append, List.head?_cons] at hhead
      rw [List.head?_cons, hhead]
      exact List.mem_cons_of_mem _ hletter

theorem recordOf_settingLine {key value : Text} (h : IsPair key value) :
    recordOf (settingLine key value) = some (.setting key value) :=
  recordOf_of_setting h.isSetting (h.not_isRecord (by decide) (by decide))
    (h.not_isRecord (by decide) (by decide))

/-! ### The lines of a build -/

def recordedArtifact (host : Host) (outputDir : Dir) (name : Text) : Text :=
  host.sha256 ((outputDir.leaf (fold name)).getD [])

def recordedLines (host : Host) (stamp : Stamp) (outputDir : Dir) (patchDir : Option Dir) : List Text :=
  provenanceLines stamp (runtimePatchTargets.map (patchOf host patchDir))
    (runtimeBuildArtifacts.map fun name =>
      recordLine "artifact=".toList name (recordedArtifact host outputDir name))

/-- Where the writer finds the artifacts, and a place for its file. -/
structure Writable (outputDir : Dir) : Prop where
  produced : ∀ name ∈ runtimeBuildArtifacts, ∃ content, outputDir.leaf (fold name) = some content
  noFolder : ∀ content, outputDir.get (fold runtimeBuildInfoName) ≠ some (.folder content)
  notHidden : ∀ content, outputDir.get (fold runtimeBuildInfoName) ≠ some (.file true content)

variable {stamp : Stamp} {outputDir written : Dir} {patchDir : Option Dir}

theorem artifactLine_eq_ok {line : Text} :
    artifactLine host outputDir name = .ok line ↔ ∃ content, outputDir.leaf (fold name) = some content ∧
      recordLine "artifact=".toList name (host.sha256 content) = line := by
  unfold artifactLine
  cases outputDir.leaf (fold name) <;> simp

theorem artifactLines_eq {artifacts : List Text}
    (h : runtimeBuildArtifacts.mapM (artifactLine host outputDir) = .ok artifacts) :
    artifacts = runtimeBuildArtifacts.map fun name =>
      recordLine "artifact=".toList name (recordedArtifact host outputDir name) := by
  apply eq_map_of_mapM_eq_ok _ h
  intro name line hline
  obtain ⟨content, hcontent, rfl⟩ := artifactLine_eq_ok.mp hline
  rw [recordedArtifact, hcontent, Option.getD_some]

theorem exists_artifactLines :
    (∃ artifacts, runtimeBuildArtifacts.mapM (artifactLine host outputDir) = .ok artifacts) ↔
      ∀ name ∈ runtimeBuildArtifacts, ∃ content, outputDir.leaf (fold name) = some content := by
  rw [exists_mapM_eq_ok]
  refine forall₂_congr fun name _ => ?_
  simp [artifactLine_eq_ok]

/-- The writer succeeds if and only if the patches and the artifacts are there and its file can be. -/
theorem writeRuntimeBuildInfo_eq_ok :
    writeRuntimeBuildInfo host stamp outputDir patchDir = .ok written ↔
      Stocked patchDir ∧ Writable outputDir ∧
        written = outputDir.set (fold runtimeBuildInfoName)
          (.file false (encodeLines host (recordedLines host stamp outputDir patchDir))) := by
  rw [writeRuntimeBuildInfo, bind_eq_ok, ← exists_inventory]
  simp only [bind_eq_ok]
  constructor
  · intro h
    obtain ⟨inventory, hinventory, artifacts, hartifacts, hput⟩ := h
    have hproduced := exists_artifactLines.mp ⟨artifacts, hartifacts⟩
    rw [inventory_eq hinventory, artifactLines_eq hartifacts, ← recordedLines] at hput
    refine ⟨⟨inventory, hinventory⟩, ?_⟩
    split at hput
    · cases hput
    · cases hput
    · rename_i hfolder hhidden
      cases hput
      exact ⟨⟨hproduced, hfolder, hhidden⟩, rfl⟩
  · intro h
    obtain ⟨⟨inventory, hinventory⟩, hwritable, rfl⟩ := h
    obtain ⟨artifacts, hartifacts⟩ : ∃ artifacts, runtimeBuildArtifacts.mapM (artifactLine host outputDir) =
      .ok artifacts := exists_artifactLines.mpr hwritable.produced
    refine ⟨inventory, hinventory, artifacts, hartifacts, ?_⟩
    rw [inventory_eq hinventory, artifactLines_eq hartifacts, ← recordedLines]
    split
    · exact absurd ‹_› (hwritable.noFolder _)
    · exact absurd ‹_› (hwritable.notHidden _)
    · rfl

end LlmRuntime.Build

import LlmRuntime.Build.Writing

/-!
# What a written provenance vouches for

The file that was written for a directory and for `patches/` vouches for the artifacts of that directory
with those patches and for nothing else. `Get-ChildItem` leaves out hidden files, so the gate cannot see a
hidden patch that is not registered: this is the one way in which `patches/` can hold more than it should.
-/

namespace LlmRuntime.Build

open Except Ledger

variable {host : Host} {stamp : Stamp} {outputDir directory written later : Dir} {patchDir now : Option Dir}

/-! ### The records of the lines -/

theorem isPair_llmlet : IsPair "llmlet_commit".toList runtimeLlmletCommit :=
  ⟨List.all_eq_true.mp (by decide), by decide, List.all_eq_true.mp (by decide)⟩

theorem isPair_llamaCpp : IsPair "llamacpp_commit".toList runtimeLlamaCppCommit :=
  ⟨List.all_eq_true.mp (by decide), by decide, List.all_eq_true.mp (by decide)⟩

theorem isPair_stamp (stamp : Stamp) : IsPair "built_utc".toList stamp.text :=
  ⟨List.all_eq_true.mp (by decide), by decide, List.all_eq_true.mp stamp.printable⟩

theorem isName_patch : IsName "patch=".toList := by decide

theorem isName_artifact : IsName "artifact=".toList := by decide

theorem recordOf_patchLine (law : host.Lawful) {target : PatchTarget} (h : target ∈ runtimePatchTargets) :
    recordOf (patchLine (patchOf host patchDir target)) =
      some (.patch target.name ((patchOf host patchDir target).sha256.map Char.toUpper)) :=
  recordOf_of_patch (isRecord_recordLine law isName_patch (isName_targets target h) _)

theorem recordOf_artifactLine (law : host.Lawful) {name : Text} (h : name ∈ runtimeBuildArtifacts) :
    recordOf (recordLine "artifact=".toList name (recordedArtifact host outputDir name)) =
      some (.artifact name ((recordedArtifact host outputDir name).map Char.toUpper)) :=
  recordOf_of_artifact (isRecord_recordLine law isName_artifact (isName_artifacts name h) _)

theorem plain_recordedLines (law : host.Lawful) :
    ∀ l ∈ recordedLines host stamp outputDir patchDir, ∀ c ∈ l, isPlain c = true := by
  intro l hl
  rw [recordedLines, provenanceLines, List.mem_append, List.mem_append, List.mem_append] at hl
  have hpair {key value : Text} (h : IsPair key value) : ∀ c ∈ settingLine key value, isPlain c = true :=
    fun c hc => isPlain_of_isPrintable (h.printable_line c hc)
  obtain ((hl | hl) | hl) | hl := hl
  · rw [List.mem_cons, List.mem_singleton] at hl
    obtain rfl | rfl := hl
    · exact hpair isPair_llmlet
    · exact hpair isPair_llamaCpp
  · rw [List.map_map] at hl
    obtain ⟨target, htarget, rfl⟩ := List.mem_map.mp hl
    exact plain_recordLine law isName_patch (isName_targets target htarget) _
  · obtain ⟨name, hname, rfl⟩ := List.mem_map.mp hl
    exact plain_recordLine law isName_artifact (isName_artifacts name hname) _
  · rw [List.mem_singleton.mp hl]
    exact hpair (isPair_stamp stamp)

/-- What the reader makes of the lines of a build. -/
def records (host : Host) (stamp : Stamp) (outputDir : Dir) (patchDir : Option Dir) : List Record :=
  [.setting "llmlet_commit".toList runtimeLlmletCommit,
    .setting "llamacpp_commit".toList runtimeLlamaCppCommit] ++
  runtimePatchTargets.map (fun target =>
    .patch target.name ((patchOf host patchDir target).sha256.map Char.toUpper)) ++
  runtimeBuildArtifacts.map (fun name =>
    .artifact name ((recordedArtifact host outputDir name).map Char.toUpper)) ++
  [.setting "built_utc".toList stamp.text]

/-- Every line is read as the record that it was written for. -/
theorem filterMap_recordOf (law : host.Lawful) :
    (recordedLines host stamp outputDir patchDir).filterMap recordOf = records host stamp outputDir patchDir := by
  have hpatches : ((runtimePatchTargets.map (patchOf host patchDir)).map patchLine).filterMap recordOf =
      runtimePatchTargets.map fun target =>
        .patch target.name ((patchOf host patchDir target).sha256.map Char.toUpper) := by
    rw [List.map_map, List.filterMap_map, List.filterMap_eq_map_iff_forall_eq_some]
    exact fun target htarget => recordOf_patchLine law htarget
  have hartifacts : (runtimeBuildArtifacts.map fun name =>
      recordLine "artifact=".toList name (recordedArtifact host outputDir name)).filterMap recordOf =
      runtimeBuildArtifacts.map fun name =>
        .artifact name ((recordedArtifact host outputDir name).map Char.toUpper) := by
    rw [List.filterMap_map, List.filterMap_eq_map_iff_forall_eq_some]
    exact fun name hname => recordOf_artifactLine law hname
  rw [recordedLines, provenanceLines, records]
  simp only [List.filterMap_append, hpatches, hartifacts, List.filterMap_cons, List.filterMap_nil,
    recordOf_settingLine isPair_llmlet, recordOf_settingLine isPair_llamaCpp,
    recordOf_settingLine (isPair_stamp stamp)]

theorem filterMap_bind_recordOf (law : host.Lawful) {κ : Type} (entry : Record → Option κ) :
    (recordedLines host stamp outputDir patchDir).filterMap (fun line => (recordOf line).bind entry) =
      (records host stamp outputDir patchDir).filterMap entry := by
  rw [← filterMap_recordOf law, List.filterMap_filterMap]

theorem patchEntries (law : host.Lawful) :
    (recordedLines host stamp outputDir patchDir).filterMap patchEntry =
      runtimePatchTargets.map fun target =>
        (fold target.name, (patchOf host patchDir target).sha256.map Char.toUpper) :=
  filterMap_bind_recordOf law Record.patchEntry

theorem artifactEntries (law : host.Lawful) :
    (recordedLines host stamp outputDir patchDir).filterMap artifactEntry =
      runtimeBuildArtifacts.map fun name =>
        (fold name, (recordedArtifact host outputDir name).map Char.toUpper) :=
  filterMap_bind_recordOf law Record.artifactEntry

theorem settingEntries (law : host.Lawful) :
    (recordedLines host stamp outputDir patchDir).filterMap settingEntry =
      [(fold "llmlet_commit".toList, runtimeLlmletCommit),
        (fold "llamacpp_commit".toList, runtimeLlamaCppCommit), (fold "built_utc".toList, stamp.text)] :=
  filterMap_bind_recordOf law Record.settingEntry

/-! ### What the file vouches for -/

theorem nodup_registered : registered.Nodup := by decide

theorem nodup_artifacts : (runtimeBuildArtifacts.map fold).Nodup := by decide

theorem last_patch (law : host.Lawful) {name : Folded} {v : Text} :
    Last PatchGives (recordedLines host stamp outputDir patchDir) name v ↔
      ∃ target ∈ runtimePatchTargets, fold target.name = name ∧
        (patchOf host patchDir target).sha256.map Char.toUpper = v := by
  rw [last_iff_mem_filterMap fun _ _ _ => patchEntry_eq_some, patchEntries law]
  · simp only [List.mem_map, Prod.mk.injEq]
  · rw [patchEntries law, List.map_map]
    exact nodup_registered

theorem last_artifact (law : host.Lawful) {name : Text} (h : name ∈ runtimeBuildArtifacts) {v : Text} :
    Last ArtifactGives (recordedLines host stamp outputDir patchDir) (fold name) v ↔
      (recordedArtifact host outputDir name).map Char.toUpper = v := by
  rw [last_iff_mem_filterMap fun _ _ _ => artifactEntry_eq_some, artifactEntries law]
  · simp only [List.mem_map, Prod.mk.injEq]
    constructor
    · intro hv
      obtain ⟨name', -, hname', rfl⟩ := hv
      rw [recordedArtifact, recordedArtifact, hname']
    · exact fun hv => ⟨name, h, rfl, hv⟩
  · rw [artifactEntries law, List.map_map]
    exact nodup_artifacts

theorem last_commits (law : host.Lawful) :
    Last SettingGives (recordedLines host stamp outputDir patchDir) (fold "llmlet_commit".toList)
        runtimeLlmletCommit ∧
      Last SettingGives (recordedLines host stamp outputDir patchDir) (fold "llamacpp_commit".toList)
        runtimeLlamaCppCommit := by
  have hnodup : (((recordedLines host stamp outputDir patchDir).filterMap settingEntry).map Prod.fst).Nodup := by
    rw [settingEntries law]
    show [fold "llmlet_commit".toList, fold "llamacpp_commit".toList, fold "built_utc".toList].Nodup
    decide
  rw [last_iff_mem_filterMap (fun _ _ _ => settingEntry_eq_some) hnodup,
    last_iff_mem_filterMap (fun _ _ _ => settingEntry_eq_some) hnodup, settingEntries law]
  exact ⟨by simp, by simp⟩

/-- The recorded map is the inventory of the patches that the file was written for. -/
theorem recorded_iff_held (law : host.Lawful) (hstocked : Stocked patchDir) {name hash : Folded} :
    (∃ v, Last PatchGives (recordedLines host stamp outputDir patchDir) name v ∧ fold v = hash) ↔
      Held host patchDir name hash := by
  simp only [last_patch law]
  constructor
  · intro h
    obtain ⟨v, ⟨target, htarget, rfl, rfl⟩, rfl⟩ := h
    have hname := mem_registered.mpr ⟨target, htarget, rfl⟩
    obtain ⟨content, hcontent⟩ := hstocked.complete _ hname
    refine ⟨hname, content, hcontent, ?_⟩
    rw [patchOf, hcontent, Option.getD_some, fold_map_toUpper (law.hex content)]
  · intro h
    obtain ⟨hname, content, hcontent, rfl⟩ := h
    obtain ⟨target, htarget, rfl⟩ := mem_registered.mp hname
    refine ⟨_, ⟨target, htarget, rfl, rfl⟩, ?_⟩
    rw [patchOf, hcontent, Option.getD_some, fold_map_toUpper (law.hex content)]

/-- Two inventories are the same map if the registered files have the same contents. -/
theorem held_iff_held (law : host.Lawful) (hstocked : Stocked patchDir) :
    (∀ name hash, Held host patchDir name hash ↔ Held host now name hash) ↔
      ∀ name ∈ registered, fileOf now name = fileOf patchDir name := by
  constructor
  · intro h name hname
    obtain ⟨content, hcontent⟩ := hstocked.complete name hname
    obtain ⟨-, content', hcontent', hhash⟩ := (h name _).mp ⟨hname, content, hcontent, rfl⟩
    rw [hcontent, hcontent', law.injective content' content hhash]
  · intro h name hash
    unfold Held
    refine and_congr_right fun hname => ?_
    rw [h name hname]

theorem no_byteOrderMark :
    (encodeLines host (recordedLines host stamp outputDir patchDir)).take 3 ≠ [0xEF, 0xBB, 0xBF] := by
  intro h
  have hfirst : (encodeLines host (recordedLines host stamp outputDir patchDir)).head? = some 0x6c := rfl
  have hhead := congrArg List.head? h
  rw [List.head?_take, if_neg (by decide), hfirst] at hhead
  revert hhead
  decide

/-- The file that was written vouches for a directory and for patches exactly if the artifacts and the
registered patches are those that it was written for. -/
theorem vouched_iff (law : host.Lawful)
    (hwrite : writeRuntimeBuildInfo host stamp outputDir patchDir = .ok written)
    (hsame : later.leaf (fold runtimeBuildInfoName) = written.leaf (fold runtimeBuildInfoName)) :
    Vouched host later now ↔ (∀ name ∈ registered, fileOf now name = fileOf patchDir name) ∧
      ∀ name ∈ runtimeBuildArtifacts, later.leaf (fold name) = outputDir.leaf (fold name) := by
  obtain ⟨hstocked, hwritable, rfl⟩ := writeRuntimeBuildInfo_eq_ok.mp hwrite
  have hleaf : later.leaf (fold runtimeBuildInfoName) =
      some (encodeLines host (recordedLines host stamp outputDir patchDir)) := by
    rw [hsame, Dir.leaf, JsMap.get_set_self]
  have hread : getContent host (encodeLines host (recordedLines host stamp outputDir patchDir)) =
      recordedLines host stamp outputDir patchDir := getContent_encodeLines law (plain_recordedLines law)
  rw [← held_iff_held law hstocked]
  constructor
  · intro h
    obtain ⟨bytes, hbytes, -, hdescribes⟩ := h
    rw [hleaf] at hbytes
    cases hbytes
    rw [hread] at hdescribes
    refine ⟨fun name hash => ?_, fun name hname => ?_⟩
    · rw [← recorded_iff_held law hstocked, hdescribes.patches]
    · obtain ⟨content, v, hcontent, hlast, hhash⟩ := hdescribes.artifacts name hname
      obtain ⟨built, hbuilt⟩ := hwritable.produced name hname
      rw [last_artifact law hname] at hlast
      rw [← hlast, recordedArtifact, hbuilt, Option.getD_some, fold_map_toUpper (law.hex built)] at hhash
      rw [hcontent, hbuilt, law.injective built content hhash]
  · intro h
    refine ⟨_, hleaf, no_byteOrderMark, ?_⟩
    rw [hread]
    refine ⟨⟨_, (last_commits law).1, rfl⟩, ⟨_, (last_commits law).2, rfl⟩, fun name hash => ?_, ?_⟩
    · rw [recorded_iff_held law hstocked, h.1]
    · intro name hname
      obtain ⟨built, hbuilt⟩ := hwritable.produced name hname
      refine ⟨built, _, (h.2 name hname).trans hbuilt, (last_artifact law hname).mpr rfl, ?_⟩
      rw [recordedArtifact, hbuilt, Option.getD_some, fold_map_toUpper (law.hex built)]

/-! ### The gate -/

/-- What a `*.patch` file in `patches/` holds, hidden or not. -/
def patchFile (patchDir : Option Dir) (name : Folded) : Option Bytes :=
  if IsPatchName name then fileOf patchDir name else none

/-- `patches/` holds exactly the registered names. -/
def Registered (patchDir : Option Dir) : Prop := ∀ name, (patchFile patchDir name).isSome ↔ name ∈ registered

/-- Every hidden patch is a registered one. -/
def HidesNone (patchDir : Option Dir) : Prop :=
  ∀ dir ∈ patchDir, ∀ name content, dir.get name = some (.file true content) → IsPatchName name →
    name ∈ registered

theorem isPatchName_of_registered {name : Folded} (h : name ∈ registered) : IsPatchName name := by
  have hall : (registered.all fun name => IsPatchName name) = true := by decide
  exact of_decide_eq_true (List.all_eq_true.mp hall name h)

theorem patchFile_of_registered {name : Folded} (h : name ∈ registered) :
    patchFile patchDir name = fileOf patchDir name := if_pos (isPatchName_of_registered h)

theorem Dir.mem_onDisk {dir : Dir} {name : Folded} :
    name ∈ dir.onDisk ↔ IsPatchName name ∧ ∃ content, dir.get name = some (.file false content) := by
  simp only [Dir.onDisk, List.mem_map, List.mem_filter, JsMap.get_eq_some_iff, decide_eq_true_eq]
  constructor
  · intro h
    obtain ⟨⟨_, entry⟩, ⟨hmem, hpatch, hlisted⟩, rfl⟩ := h
    cases entry with
    | folder => cases hlisted
    | file hidden content =>
        cases hidden with
        | true => cases hlisted
        | false => exact ⟨hpatch, content, hmem⟩
  · intro h
    obtain ⟨hpatch, content, hmem⟩ := h
    exact ⟨(name, .file false content), ⟨hmem, hpatch, rfl⟩, rfl⟩

/-- Where `patches/` is stocked, only a hidden file can be one too many. -/
theorem registered_iff (h : Stocked patchDir) : Registered patchDir ↔ HidesNone patchDir := by
  constructor
  · intro hregistered dir hdir name content hget hpatch
    cases hdir
    apply (hregistered name).mp
    rw [patchFile, if_pos hpatch, fileOf, Option.bind_some, Dir.leaf, hget, Option.isSome_some]
  · intro hhides name
    constructor
    · intro hfile
      obtain ⟨content, hcontent⟩ := Option.isSome_iff_exists.mp hfile
      rw [patchFile, Option.ite_none_right_eq_some] at hcontent
      obtain ⟨hpatch, hcontent⟩ := hcontent
      obtain ⟨dir, hdir, hleaf⟩ := Option.bind_eq_some_iff.mp hcontent
      unfold Dir.leaf at hleaf
      split at hleaf
      · rename_i hidden held hget
        cases hidden with
        | true => exact hhides dir hdir name held hget hpatch
        | false => exact h.listed dir hdir name (Dir.mem_onDisk.mpr ⟨hpatch, held, hget⟩)
      · cases hleaf
    · intro hname
      obtain ⟨content, hcontent⟩ := h.complete name hname
      rw [patchFile_of_registered hname, hcontent, Option.isSome_some]

/-- The gate, for `patches/` as it was when a provenance was written and as it is `now`: what passes is
vouched for with exactly the registered patches; what was just written passes; and it passes later only
with the same artifacts and the same patches. -/
structure Gate (host : Host) (patchDir now : Option Dir) : Prop where
  sound : ∀ directory, assertRuntimeReferenceBuild host directory now = .ok () →
    Vouched host directory now ∧ Registered now
  accepts : ∀ stamp outputDir written, writeRuntimeBuildInfo host stamp outputDir patchDir = .ok written →
    assertRuntimeReferenceBuild host written patchDir = .ok ()
  detects : ∀ stamp outputDir written later, writeRuntimeBuildInfo host stamp outputDir patchDir = .ok written →
    later.leaf (fold runtimeBuildInfoName) = written.leaf (fold runtimeBuildInfoName) →
    assertRuntimeReferenceBuild host later now = .ok () →
    (∀ name ∈ runtimeBuildArtifacts, later.leaf (fold name) = outputDir.leaf (fold name)) ∧
      ∀ name, patchFile now name = patchFile patchDir name

theorem leaf_written (hwrite : writeRuntimeBuildInfo host stamp outputDir patchDir = .ok written) {name : Text}
    (h : name ∈ runtimeBuildArtifacts) : written.leaf (fold name) = outputDir.leaf (fold name) := by
  obtain ⟨-, -, rfl⟩ := writeRuntimeBuildInfo_eq_ok.mp hwrite
  have hall : (runtimeBuildArtifacts.all fun name => fold name ≠ fold runtimeBuildInfoName) = true := by decide
  have hne := of_decide_eq_true (List.all_eq_true.mp hall name h)
  rw [Dir.leaf, JsMap.get_set_of_ne _ hne, ← Dir.leaf]

/-- What was written passes with any stocked `patches/` of the same registered files. -/
theorem assert_written (law : host.Lawful)
    (hwrite : writeRuntimeBuildInfo host stamp outputDir patchDir = .ok written) (hstocked : Stocked now)
    (hfiles : ∀ name ∈ registered, fileOf now name = fileOf patchDir name) :
    assertRuntimeReferenceBuild host written now = .ok () :=
  assertRuntimeReferenceBuild_eq_ok.mpr
    ⟨hstocked, (vouched_iff law hwrite rfl).mpr ⟨hfiles, fun _ hname => leaf_written hwrite hname⟩⟩

/-- A directory with an empty file for each artifact. -/
def bareBuild : Dir :=
  runtimeBuildArtifacts.foldl (fun dir name => dir.set (fold name) (.file false [])) .empty

theorem writable_bareBuild : Writable bareBuild where
  produced := by
    have hall : (runtimeBuildArtifacts.all fun name => bareBuild.leaf (fold name) = some []) = true := by decide
    exact fun name hname => ⟨[], of_decide_eq_true (List.all_eq_true.mp hall name hname)⟩
  noFolder := by
    rw [show bareBuild.get (fold runtimeBuildInfoName) = none by decide]
    exact nofun
  notHidden := by
    rw [show bareBuild.get (fold runtimeBuildInfoName) = none by decide]
    exact nofun

theorem exists_written (host : Host) (h : Stocked patchDir) :
    ∃ written, writeRuntimeBuildInfo host ⟨[], rfl⟩ bareBuild patchDir = .ok written :=
  ⟨_, writeRuntimeBuildInfo_eq_ok.mpr ⟨h, writable_bareBuild, rfl⟩⟩

/-- The gate holds if and only if, whenever the inventory accepts the `patches/` of now, every hidden patch
in it is registered, and so it is in the one that the provenance was written for if that has the same
registered files. -/
theorem gate_iff (law : host.Lawful) (patchDir now : Option Dir) :
    Gate host patchDir now ↔ (Stocked now → HidesNone now ∧ (Stocked patchDir →
      (∀ name ∈ registered, fileOf now name = fileOf patchDir name) → HidesNone patchDir)) := by
  constructor
  · intro hgate hnow
    have hregistered : Registered now := by
      obtain ⟨written, hwrite⟩ := exists_written host hnow
      exact (hgate.sound written (assert_written law hwrite hnow fun _ _ => rfl)).2
    refine ⟨(registered_iff hnow).mp hregistered, fun hthen hfiles => ?_⟩
    obtain ⟨written, hwrite⟩ := exists_written host hthen
    have hpass := assert_written law hwrite hnow hfiles
    have hsame := (hgate.detects _ _ written written hwrite rfl hpass).2
    apply (registered_iff hthen).mp
    intro name
    rw [← hsame name, hregistered name]
  · intro hcondition
    refine ⟨?_, ?_, ?_⟩
    · intro directory hpass
      obtain ⟨hnow, hvouched⟩ := assertRuntimeReferenceBuild_eq_ok.mp hpass
      exact ⟨hvouched, (registered_iff hnow).mpr (hcondition hnow).1⟩
    · intro stamp outputDir written hwrite
      have hthen := (writeRuntimeBuildInfo_eq_ok.mp hwrite).1
      exact assert_written law hwrite hthen fun _ _ => rfl
    · intro stamp outputDir written later hwrite hinfo hpass
      obtain ⟨hnow, hvouched⟩ := assertRuntimeReferenceBuild_eq_ok.mp hpass
      obtain ⟨hfiles, hartifacts⟩ := (vouched_iff law hwrite hinfo).mp hvouched
      have hthen := (writeRuntimeBuildInfo_eq_ok.mp hwrite).1
      have hregistered := (registered_iff hnow).mpr (hcondition hnow).1
      have hregistered' := (registered_iff hthen).mpr ((hcondition hnow).2 hthen hfiles)
      refine ⟨hartifacts, fun name => ?_⟩
      by_cases hname : name ∈ registered
      · rw [patchFile_of_registered hname, patchFile_of_registered hname, hfiles name hname]
      · have hnone := mt (hregistered name).mp hname
        have hnone' := mt (hregistered' name).mp hname
        rw [Bool.not_eq_true, Option.isSome_eq_false_iff, Option.isNone_iff_eq_none] at hnone hnone'
        rw [hnone, hnone']

/-! ### A hidden patch -/

def hexDigit (n : Fin 16) : Char := "0123456789ABCDEF".toList.get (n.cast rfl)

def hexByte (x : UInt8) : Text := [hexDigit (Fin.ofNat 16 (x.toNat / 16)), hexDigit (Fin.ofNat 16 x.toNat)]

/-- The SHA-256 of no bytes, and of others a text that tells them apart. -/
def sampleDigest (bytes : Bytes) : Text :=
  if bytes = [] then "E3B0C44298FC1C149AFBF4C8996FB92427AE41E4649B934CA495991B7852B855".toList
  else '0' :: bytes.flatMap hexByte

def sampleHost : Host where
  sha256 := sampleDigest
  decode bytes := bytes.map fun x => Char.ofNat x.toNat
  crlf := true

theorem hexDigit_injective : ∀ m n : Fin 16, (hexDigit m).toLower = (hexDigit n).toLower → m = n := by decide

theorem isHex_hexDigit : ∀ n : Fin 16, isHex (hexDigit n) = true := by decide

theorem hexByte_injective {x y : UInt8} (h : (hexByte x).map Char.toLower = (hexByte y).map Char.toLower) :
    x = y := by
  obtain ⟨hhigh, hlow⟩ := List.cons.inj h
  have hhigh := congrArg Fin.val (hexDigit_injective _ _ hhigh)
  have hlow := congrArg Fin.val (hexDigit_injective _ _ (List.cons.inj hlow).1)
  simp only [Fin.val_ofNat] at hhigh hlow
  have hx := x.toNat_lt
  have hy := y.toNat_lt
  apply UInt8.toNat_inj.mp
  omega

theorem hexBytes_injective {a b : Bytes}
    (h : (a.flatMap hexByte).map Char.toLower = (b.flatMap hexByte).map Char.toLower) : a = b := by
  induction a generalizing b with
  | nil =>
      cases b with
      | nil => rfl
      | cons y b => cases h
  | cons x a ih =>
      cases b with
      | nil => cases h
      | cons y b =>
          rw [List.flatMap_cons, List.flatMap_cons, List.map_append, List.map_append] at h
          obtain ⟨hbyte, hrest⟩ := List.append_inj h rfl
          rw [hexByte_injective hbyte, ih hrest]

theorem sampleHost_lawful : sampleHost.Lawful where
  injective := by
    intro a b h
    have htexts := congrArg Subtype.val h
    change (sampleDigest a).map Char.toLower = (sampleDigest b).map Char.toLower at htexts
    unfold sampleDigest at htexts
    by_cases ha : a = [] <;> by_cases hb : b = []
    · rw [ha, hb]
    · rw [if_pos ha, if_neg hb] at htexts
      exact absurd (congrArg List.head? htexts) (by simp)
    · rw [if_neg ha, if_pos hb] at htexts
      exact absurd (congrArg List.head? htexts) (by simp)
    · rw [if_neg ha, if_neg hb] at htexts
      exact hexBytes_injective (List.cons.inj htexts).2
  nonempty := by
    intro a
    show 1 ≤ (sampleDigest a).length
    unfold sampleDigest
    split
    · decide
    · exact Nat.succ_pos _
  hex := by
    intro a c hc
    change c ∈ sampleDigest a at hc
    unfold sampleDigest at hc
    split at hc
    · exact List.all_eq_true.mp (by decide) c hc
    · rw [List.mem_cons, List.mem_flatMap] at hc
      obtain rfl | ⟨x, -, hc⟩ := hc
      · decide
      · rw [hexByte, List.mem_cons, List.mem_singleton] at hc
        obtain rfl | rfl := hc <;> exact isHex_hexDigit _
  decode := by
    intro s hs
    show (s.flatMap String.utf8EncodeChar).map (fun x => Char.ofNat x.toNat) = s
    induction s with
    | nil => rfl
    | cons c s ih =>
        have hc := hs c List.mem_cons_self
        rw [List.flatMap_cons, List.map_append, ih fun d hd => hs d (List.mem_cons_of_mem c hd)]
        have hone : String.utf8EncodeChar c = [c.toNat.toUInt8] := by
          rw [String.utf8EncodeChar, if_pos (by simpa using Nat.le_of_lt_succ hc)]
          rfl
        rw [hone, List.map_singleton, Nat.toUInt8_eq, UInt8.toNat_ofNat', Nat.mod_eq_of_lt (by omega),
          Char.ofNat_toNat, List.singleton_append]

/-- `patches/` with an empty file for each registered patch. -/
def barePatches : Dir :=
  runtimePatchTargets.foldl (fun dir target => dir.set (fold target.name) (.file false [])) .empty

theorem gate_barePatches : Gate sampleHost (some barePatches) (some barePatches) := by
  apply (gate_iff sampleHost_lawful (some barePatches) (some barePatches)).mpr
  have hhides : HidesNone (some barePatches) := by
    intro dir hdir name content hget _
    cases hdir
    have hkeys : barePatches.keys = registered := by decide
    rw [← hkeys, JsMap.mem_keys_iff, hget]
    rfl
  exact fun _ => ⟨hhides, fun _ _ => hhides⟩

/-- The same with one more patch, which is hidden. -/
def hiddenPatches : Dir := barePatches.set (fold ".0006-local.patch".toList) (.file true [])

theorem stocked_of_all {dir : Dir}
    (hcomplete : (registered.all fun name => (fileOf (some dir) name).isSome) = true)
    (hlisted : (dir.onDisk.all fun name => name ∈ registered) = true) : Stocked (some dir) where
  complete name hname := Option.isSome_iff_exists.mp (List.all_eq_true.mp hcomplete name hname)
  listed := by
    intro d hd name hname
    cases hd
    exact of_decide_eq_true (List.all_eq_true.mp hlisted name hname)

/-- A provenance that was written without the hidden patch passes with it, and the patch is not registered. -/
theorem not_gate_hiddenPatches :
    (∃ written, writeRuntimeBuildInfo sampleHost ⟨[], rfl⟩ bareBuild (some barePatches) = .ok written ∧
      assertRuntimeReferenceBuild sampleHost written (some hiddenPatches) = .ok ()) ∧
      patchFile (some barePatches) (fold ".0006-local.patch".toList) = none ∧
      patchFile (some hiddenPatches) (fold ".0006-local.patch".toList) = some [] ∧
      fold ".0006-local.patch".toList ∉ registered ∧
      ¬Gate sampleHost (some barePatches) (some hiddenPatches) := by
  have hbare : Stocked (some barePatches) := stocked_of_all (by decide) (by decide)
  obtain ⟨written, hwrite⟩ := exists_written sampleHost hbare
  have hfiles : (registered.all fun name => fileOf (some hiddenPatches) name = fileOf (some barePatches) name) =
    true := by decide
  have hstocked : Stocked (some hiddenPatches) := stocked_of_all (by decide) (by decide)
  have hpass := assert_written sampleHost_lawful hwrite hstocked fun name hname =>
    of_decide_eq_true (List.all_eq_true.mp hfiles name hname)
  refine ⟨⟨written, hwrite, hpass⟩, by decide, by decide, by decide, fun hgate => ?_⟩
  have hregistered := ((hgate.sound _ hpass).2 (fold ".0006-local.patch".toList)).mp (by decide)
  revert hregistered
  decide

end LlmRuntime.Build

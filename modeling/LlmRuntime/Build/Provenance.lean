import LlmRuntime.Build.Reading

/-!
# The provenance gate

A build is described by its `BUILD_INFO.txt` if that names the pinned commits, the patches that `patches/`
holds with their hashes, and the hashes of the artifacts next to it. The check passes exactly if the build
is described and `patches/` is stocked: every registered patch is there, and nothing else that is listed.
What the writer writes describes the build it was written for and no other.
-/

namespace LlmRuntime.Build

open Except Ledger

/-! ### The inventory -/

def registered : List Folded := runtimePatchTargets.map fun target => fold target.name

def fileOf (patchDir : Option Dir) (name : Folded) : Option Bytes := patchDir.bind fun dir => dir.leaf name

/-- What the inventory asks of `patches/`. -/
structure Stocked (patchDir : Option Dir) : Prop where
  complete : ∀ name ∈ registered, ∃ content, fileOf patchDir name = some content
  listed : ∀ dir ∈ patchDir, ∀ name ∈ dir.onDisk, name ∈ registered

/-- The inventory as a map from names to hashes. -/
def Held (host : Host) (patchDir : Option Dir) (name hash : Folded) : Prop :=
  name ∈ registered ∧ ∃ content, fileOf patchDir name = some content ∧ fold (host.sha256 content) = hash

variable {host : Host} {patchDir : Option Dir} {inventory : List Patch}

theorem mem_registered {name : Folded} :
    name ∈ registered ↔ ∃ target ∈ runtimePatchTargets, fold target.name = name := List.mem_map

theorem checkRegistered_eq_ok {name : Folded} : checkRegistered name = .ok () ↔ name ∈ registered := by
  unfold checkRegistered
  exact ite_ok_eq_ok

theorem readPatch_eq_ok {dir : Dir} {target : PatchTarget} {patch : Patch} :
    readPatch host dir target = .ok patch ↔ ∃ content, dir.leaf (fold target.name) = some content ∧
      ⟨target.name, target.repo, host.sha256 content⟩ = patch := by
  unfold readPatch
  cases dir.leaf (fold target.name) <;> simp

theorem inventory_some {dir : Dir} :
    getRuntimePatchInventory host (some dir) = .ok inventory ↔
      (∀ name ∈ dir.onDisk, name ∈ registered) ∧
        runtimePatchTargets.mapM (readPatch host dir) = .ok inventory := by
  rw [getRuntimePatchInventory, andThen_eq_ok, forM_eq_ok]
  exact and_congr_left' (forall₂_congr fun name _ => checkRegistered_eq_ok)

theorem exists_inventory : (∃ inventory, getRuntimePatchInventory host patchDir = .ok inventory) ↔
    Stocked patchDir := by
  cases patchDir with
  | none =>
      apply iff_of_false
      · intro h
        obtain ⟨_, h⟩ := h
        cases h
      · intro h
        obtain ⟨content, hcontent⟩ := h.complete _ (List.mem_cons_self)
        cases hcontent
  | some dir =>
      simp only [inventory_some, exists_and_left, exists_mapM_eq_ok, readPatch_eq_ok]
      constructor
      · intro h
        refine ⟨?_, fun d hd => ?_⟩
        · intro name hname
          obtain ⟨target, htarget, rfl⟩ := mem_registered.mp hname
          obtain ⟨-, content, hcontent, -⟩ := h.2 target htarget
          exact ⟨content, hcontent⟩
        · cases hd
          exact h.1
      · intro h
        refine ⟨h.listed dir rfl, fun target htarget => ?_⟩
        obtain ⟨content, hcontent⟩ := h.complete _ (mem_registered.mpr ⟨target, htarget, rfl⟩)
        exact ⟨_, content, hcontent, rfl⟩

/-- The entry of the inventory for a target. -/
def patchOf (host : Host) (patchDir : Option Dir) (target : PatchTarget) : Patch :=
  ⟨target.name, target.repo, host.sha256 ((fileOf patchDir (fold target.name)).getD [])⟩

theorem inventory_eq (h : getRuntimePatchInventory host patchDir = .ok inventory) :
    inventory = runtimePatchTargets.map (patchOf host patchDir) := by
  cases patchDir with
  | none => cases h
  | some dir =>
      apply eq_map_of_mapM_eq_ok _ (inventory_some.mp h).2
      intro target patch hpatch
      obtain ⟨content, hcontent, rfl⟩ := readPatch_eq_ok.mp hpatch
      rw [patchOf, show fileOf (some dir) (fold target.name) = some content from hcontent, Option.getD_some]

theorem mem_names_inventory (h : getRuntimePatchInventory host patchDir = .ok inventory) {name : Folded} :
    name ∈ inventory.map (fun patch => fold patch.name) ↔ name ∈ registered := by
  rw [inventory_eq h, List.map_map]
  exact Iff.rfl

theorem held_iff (h : getRuntimePatchInventory host patchDir = .ok inventory) {name hash : Folded} :
    Held host patchDir name hash ↔
      ∃ patch ∈ inventory, fold patch.name = name ∧ fold patch.sha256 = hash := by
  rw [inventory_eq h]
  constructor
  · intro hheld
    obtain ⟨hname, content, hcontent, rfl⟩ := hheld
    obtain ⟨target, htarget, rfl⟩ := mem_registered.mp hname
    refine ⟨_, List.mem_map_of_mem htarget, rfl, ?_⟩
    rw [patchOf, hcontent, Option.getD_some]
  · intro hpatch
    obtain ⟨patch, hpatch, rfl, rfl⟩ := hpatch
    obtain ⟨target, htarget, rfl⟩ := List.mem_map.mp hpatch
    have hname := mem_registered.mpr ⟨target, htarget, rfl⟩
    obtain ⟨content, hcontent⟩ := (exists_inventory.mp ⟨inventory, h⟩).complete _ hname
    refine ⟨hname, content, hcontent, ?_⟩
    rw [patchOf, hcontent, Option.getD_some]

/-! ### The check -/

/-- What `BUILD_INFO.txt` has to say of a directory and of `patches/`. -/
structure Describes (host : Host) (lines : List Text) (directory : Dir) (patchDir : Option Dir) : Prop where
  llmlet : ∃ v, Last SettingGives lines (fold "llmlet_commit".toList) v ∧ fold v = fold runtimeLlmletCommit
  llamaCpp :
    ∃ v, Last SettingGives lines (fold "llamacpp_commit".toList) v ∧ fold v = fold runtimeLlamaCppCommit
  patches : ∀ name hash,
    (∃ v, Last PatchGives lines name v ∧ fold v = hash) ↔ Held host patchDir name hash
  artifacts : ∀ name ∈ runtimeBuildArtifacts, ∃ content v, directory.leaf (fold name) = some content ∧
    Last ArtifactGives lines (fold name) v ∧ fold v = fold (host.sha256 content)

/-- `BUILD_INFO.txt` is there, without a mark in front, and describes the build. -/
def Vouched (host : Host) (directory : Dir) (patchDir : Option Dir) : Prop :=
  ∃ bytes, directory.leaf (fold runtimeBuildInfoName) = some bytes ∧ bytes.take 3 ≠ [0xEF, 0xBB, 0xBF] ∧
    Describes host (getContent host bytes) directory patchDir

variable {directory : Dir} {lines : List Text}

theorem assertNoByteOrderMark_eq_ok {bytes : Bytes} :
    assertNoByteOrderMark bytes = .ok () ↔ bytes.take 3 ≠ [0xEF, 0xBB, 0xBF] := by
  unfold assertNoByteOrderMark
  exact ite_error_eq_ok

theorem assertCommit_eq_ok {info : JsMap Folded Text} {key : String} {pin : Text}
    {refusal : Option Text → Refusal} :
    assertCommit info key pin refusal = .ok () ↔
      ∃ v, info.get (fold key.toList) = some v ∧ fold v = fold pin := by
  unfold assertCommit
  rw [← Option.map_eq_some_iff]
  exact ite_ok_eq_ok

theorem assertPatch_eq_ok {patches : JsMap Folded Text} {patch : Patch} :
    assertPatch patches patch = .ok () ↔
      ∃ v, patches.get (fold patch.name) = some v ∧ fold v = fold patch.sha256 := by
  unfold assertPatch
  cases patches.get (fold patch.name) <;> simp

theorem assertRecorded_eq_ok {recorded : Folded} :
    assertRecorded inventory recorded = .ok () ↔ recorded ∈ inventory.map fun patch => fold patch.name := by
  unfold assertRecorded
  exact ite_ok_eq_ok

theorem assertArtifact_eq_ok {artifacts : JsMap Folded Text} {name : Text} :
    assertArtifact host directory artifacts name = .ok () ↔
      ∃ content v, directory.leaf (fold name) = some content ∧ artifacts.get (fold name) = some v ∧
        fold v = fold (host.sha256 content) := by
  unfold assertArtifact
  cases artifacts.get (fold name) with
  | none => simp
  | some v =>
      cases directory.leaf (fold name) with
      | none => simp
      | some content => simp [eq_comm]

/-- Every registered name has a hyphen, and no hash has one. -/
theorem hyphen_of_registered {name : Folded} (h : name ∈ registered) : '-' ∈ name.val := by
  have hall : (registered.all fun name => '-' ∈ name.val) = true := by decide
  exact of_decide_eq_true (List.all_eq_true.mp hall name h)

theorem fold_hash_not_registered {line : Text} {name : Folded} {hash : Text} (h : PatchGives line name hash) :
    fold hash ∉ registered := by
  obtain ⟨n, sha, ⟨kind', gap, tag, -, -, -, -, -, -, -, -, hhex⟩, -, rfl⟩ := h
  intro hregistered
  rw [fold_map_toUpper hhex] at hregistered
  obtain ⟨c, hc, hhyphen⟩ := List.mem_map.mp (hyphen_of_registered hregistered)
  have hall : ("0123456789ABCDEFabcdef".toList.all fun c => c.toLower ≠ '-') = true := by decide
  exact of_decide_eq_true (List.all_eq_true.mp hall c (isHex_iff.mp (hhex c hc))) hhyphen

theorem keys_not_registered : fold "Keys".toList ∉ registered := by decide

/-- The two loops over the patches compare the recorded map with the inventory. -/
theorem patches_eq_ok (h : getRuntimePatchInventory host patchDir = .ok inventory) :
    ((∀ patch ∈ inventory, assertPatch (readTables lines).patches patch = .ok ()) ∧
        ∀ recorded ∈ keysOf (readTables lines).patches, assertRecorded inventory recorded = .ok ()) ↔
      ∀ name hash, (∃ v, Last PatchGives lines name v ∧ fold v = hash) ↔ Held host patchDir name hash := by
  simp only [assertPatch_eq_ok, assertRecorded_eq_ok, mem_names_inventory h, ← get_patches]
  generalize htable : (readTables lines).patches = table
  constructor
  · intro hchecks name hash
    obtain ⟨hpatches, hrecorded⟩ := hchecks
    constructor
    · intro hv
      obtain ⟨v, hv, rfl⟩ := hv
      have hkeys : keysOf table = table.keys := by
        unfold keysOf
        cases hsha : table.get (fold "Keys".toList) with
        | none => rfl
        | some sha =>
            rw [← htable, get_patches] at hsha
            obtain ⟨line, -, hline⟩ := hsha.exists_mem
            rw [← htable, keysOf, get_patches.mpr hsha] at hrecorded
            exact absurd (hrecorded _ (List.mem_singleton_self _)) (fold_hash_not_registered hline)
      have hname := hrecorded name (hkeys ▸ JsMap.mem_keys_iff.mpr (by rw [hv]; rfl))
      obtain ⟨patch, hpatch, rfl⟩ := List.mem_map.mp ((mem_names_inventory h).mpr hname)
      obtain ⟨v', hv', hsha⟩ := hpatches patch hpatch
      rw [hv] at hv'
      rw [Option.some.inj hv']
      exact (held_iff h).mpr ⟨patch, hpatch, rfl, hsha.symm⟩
    · intro hheld
      obtain ⟨patch, hpatch, rfl, rfl⟩ := (held_iff h).mp hheld
      exact hpatches patch hpatch
  · intro hsame
    have hregistered {name : Folded} {v : Text} (hv : table.get name = some v) : name ∈ registered :=
      ((hsame name (fold v)).mp ⟨v, hv, rfl⟩).1
    constructor
    · intro patch hpatch
      exact (hsame _ _).mpr ((held_iff h).mpr ⟨patch, hpatch, rfl, rfl⟩)
    · intro recorded hrecorded
      have hnone : table.get (fold "Keys".toList) = none := by
        rw [Option.eq_none_iff_forall_ne_some]
        exact fun v hv => keys_not_registered (hregistered hv)
      rw [keysOf, hnone] at hrecorded
      obtain ⟨v, hv⟩ := Option.isSome_iff_exists.mp (JsMap.mem_keys_iff.mp hrecorded)
      exact hregistered hv

/-- The check passes if and only if `patches/` is stocked and the build is vouched for. -/
theorem assertRuntimeReferenceBuild_eq_ok :
    assertRuntimeReferenceBuild host directory patchDir = .ok () ↔
      Stocked patchDir ∧ Vouched host directory patchDir := by
  unfold assertRuntimeReferenceBuild Vouched
  cases directory.leaf (fold runtimeBuildInfoName) with
  | none => simp
  | some bytes =>
      dsimp only
      rw [andThen_eq_ok, andThen_eq_ok, andThen_eq_ok, bind_eq_ok, assertNoByteOrderMark_eq_ok,
        assertCommit_eq_ok, assertCommit_eq_ok, ← exists_inventory]
      simp only [andThen_eq_ok, forM_eq_ok, get_info]
      constructor
      · intro h
        obtain ⟨hmark, hllmlet, hllamaCpp, inventory, hinventory, hpatches, hrecorded, hartifacts⟩ := h
        refine ⟨⟨inventory, hinventory⟩, bytes, rfl, hmark, hllmlet, hllamaCpp, ?_, ?_⟩
        · exact (patches_eq_ok hinventory).mp ⟨hpatches, hrecorded⟩
        · intro name hname
          obtain ⟨content, v, hcontent, hv, heq⟩ := assertArtifact_eq_ok.mp (hartifacts name hname)
          exact ⟨content, v, hcontent, get_artifacts.mp hv, heq⟩
      · intro h
        obtain ⟨⟨inventory, hinventory⟩, bytes', hbytes, hmark, hdescribes⟩ := h
        cases hbytes
        have hpatches := (patches_eq_ok hinventory).mpr hdescribes.patches
        refine ⟨hmark, hdescribes.llmlet, hdescribes.llamaCpp, inventory, hinventory, hpatches.1, hpatches.2, ?_⟩
        intro name hname
        obtain ⟨content, v, hcontent, hv, heq⟩ := hdescribes.artifacts name hname
        exact assertArtifact_eq_ok.mpr ⟨content, v, hcontent, get_artifacts.mpr hv, heq⟩

end LlmRuntime.Build

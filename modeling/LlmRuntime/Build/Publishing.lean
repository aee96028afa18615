import LlmRuntime.Base.Cleanup
import LlmRuntime.Build.Gate

/-!
# Publishing a reference build

The last block of `scripts/build-llmlet-reference.ps1`: the build goes into a staging directory, is given
its provenance, is checked, and takes the place of the output directory. `finally` removes what is left of
the staging directory. What docker and the file system do is a script of outcomes, one for each step.
-/

namespace LlmRuntime.Build

/-- What ends the script. -/
inductive Stop where
  | removeItem
  | newItem
  | dockerBuild (exitCode : Int)
  | expectedArtifact (name : Text)
  | refused (refusal : Refusal)
  | device
  | moveItem
  deriving DecidableEq

/-- `$ResolvedOutputDir` and `$StagingDir`, where there are any. -/
structure Site where
  output : Option Dir
  staging : Option Dir
  deriving DecidableEq

abbrev Script := EStateM Stop Site

/-- How `Remove-Item -Recurse -Force` ends. It removes one thing after another, so what it leaves when it
fails is up to the file system. -/
inductive Removal where
  | done
  | failed (left : Option Dir)
  deriving DecidableEq

def Removal.left : Removal → Option Dir
  | done => none
  | failed left => left

def Removal.report : Removal → Script Unit
  | done => pure ()
  | failed _ => throw .removeItem

/-- The outcomes, in the order of the steps. `writeFault` is what the staging directory holds if the disk
fails while `BUILD_INFO.txt` is written. The staging directory lies beside the output directory, so moving
it is one renaming, which is done or not. -/
structure Outcomes where
  stale : Removal
  created : Bool
  built : Dir
  exitCode : Int
  patchDir : Option Dir
  stamp : Stamp
  writeFault : Option Dir
  readFault : Bool
  old : Removal
  moved : Bool
  cleanup : Removal

/-- `if (Test-Path $StagingDir) { Remove-Item -Recurse -Force $StagingDir }` -/
def removeStaging (removal : Removal) : Script Unit := do
  if (← get).staging.isSome then
    modify fun site => { site with staging := removal.left }
    removal.report

def newStaging (created : Bool) : Script Unit := do
  if created then modify fun site => { site with staging := some .empty } else throw .newItem

def dockerBuild (built : Dir) (exitCode : Int) : Script Unit := do
  modify fun site => { site with staging := some built }
  if exitCode ≠ 0 then throw (.dockerBuild exitCode)

def stagingDir : Script Dir := return (← get).staging.getD .empty

def expectArtifact (name : Text) : Script Unit := do
  if ((← stagingDir).leaf (fold name)).isNone then throw (.expectedArtifact name)

/-- A function of `runtime-build.ps1`, whose exceptions go up. -/
def called {α : Type} : Except Refusal α → Script α
  | .error refusal => throw (.refused refusal)
  | .ok a => pure a

def writeProvenance (host : Host) (outcomes : Outcomes) : Script Unit := do
  if let some left := outcomes.writeFault then
    modify fun site => { site with staging := some left }
    throw .device
  let written ← called (writeRuntimeBuildInfo host outcomes.stamp (← stagingDir) outcomes.patchDir)
  modify fun site => { site with staging := some written }

def assertStaging (host : Host) (outcomes : Outcomes) : Script Unit := do
  if outcomes.readFault then throw .device
  called (assertRuntimeReferenceBuild host (← stagingDir) outcomes.patchDir)

/-- `if (Test-Path $ResolvedOutputDir) { Remove-Item -Recurse -Force $ResolvedOutputDir }` -/
def removeOutput (removal : Removal) : Script Unit := do
  if (← get).output.isSome then
    modify fun site => { site with output := removal.left }
    removal.report

/-- `Move-Item -Path $StagingDir -Destination $ResolvedOutputDir` -/
def moveStaging (moved : Bool) : Script Unit := do
  if moved then modify fun site => ⟨site.staging, none⟩ else throw .moveItem

def buildStaging (host : Host) (outcomes : Outcomes) : Script Unit := do
  dockerBuild outcomes.built outcomes.exitCode
  forM runtimeBuildArtifacts expectArtifact
  writeProvenance host outcomes
  assertStaging host outcomes

def replaceOutput (outcomes : Outcomes) : Script Unit := do
  removeOutput outcomes.old
  moveStaging outcomes.moved

def publish (host : Host) (outcomes : Outcomes) : Script Unit := do
  removeStaging outcomes.stale
  newStaging outcomes.created
  try
    buildStaging host outcomes
    replaceOutput outcomes
  finally
    removeStaging outcomes.cleanup

/-! ### What each part leaves -/

variable {host : Host} {outcomes : Outcomes} {site : Site} {built written : Dir} {removal : Removal}

/-- What was built, with the provenance that was checked. -/
structure Built (host : Host) (outcomes : Outcomes) (written : Dir) : Prop where
  exitCode : outcomes.exitCode = 0
  artifacts : ∀ name ∈ runtimeBuildArtifacts, outcomes.built.leaf (fold name) ≠ none
  writeFault : outcomes.writeFault = none
  provenance : writeRuntimeBuildInfo host outcomes.stamp outcomes.built outcomes.patchDir = .ok written
  readFault : outcomes.readFault = false
  checked : assertRuntimeReferenceBuild host written outcomes.patchDir = .ok ()

theorem finalState_removeStaging (removal : Removal) (site : Site) :
    (removeStaging removal).finalState site =
      if site.staging.isSome then { site with staging := removal.left } else site := by
  obtain ⟨output, staging⟩ := site
  cases staging <;> cases removal <;> rfl

theorem removeStaging_of_done (h : site.staging.isSome → removal = .done) :
    removeStaging removal site = .ok () { site with staging := none } := by
  obtain ⟨output, staging⟩ := site
  cases staging with
  | none => rfl
  | some dir =>
      rw [h rfl]
      rfl

theorem exists_removeStaging_eq_error (hsome : site.staging.isSome) (h : removal ≠ .done) :
    ∃ stop, removeStaging removal site = .error stop { site with staging := removal.left } := by
  obtain ⟨output, staging⟩ := site
  cases staging with
  | none => cases hsome
  | some dir =>
      cases removal with
      | done => exact absurd rfl h
      | failed left => exact ⟨.removeItem, rfl⟩

theorem forM_expectArtifact (names : List Text) (site : Site) (hstaging : site.staging = some built) :
    (∀ name ∈ names, built.leaf (fold name) ≠ none) ∧ forM names expectArtifact site = .ok () site ∨
      ¬(∀ name ∈ names, built.leaf (fold name) ≠ none) ∧
        ∃ stop, forM names expectArtifact site = .error stop site := by
  induction names with
  | nil => exact Or.inl ⟨by simp, rfl⟩
  | cons name names ih =>
      rw [List.forM_cons, List.forall_mem_cons]
      have hstep : expectArtifact name site =
          if (built.leaf (fold name)).isNone then .error (.expectedArtifact name) site else .ok () site := by
        show (if (site.staging.getD .empty).leaf (fold name) |>.isNone then
          throw (.expectedArtifact name) else pure () : Script Unit) site = _
        rw [hstaging, Option.getD_some]
        split <;> rfl
      cases hleaf : built.leaf (fold name) with
      | none =>
          rw [hleaf, Option.isNone_none, if_pos rfl] at hstep
          exact Or.inr ⟨fun h => h.1 rfl, _, EStateM.bind_of_error _ hstep⟩
      | some content =>
          rw [hleaf, Option.isNone_some, if_neg Bool.false_ne_true] at hstep
          rw [EStateM.bind_of_ok hstep]
          obtain ⟨hall, hok⟩ | ⟨hnot, herror⟩ := ih
          · exact Or.inl ⟨⟨Option.some_ne_none content, hall⟩, hok⟩
          · exact Or.inr ⟨fun h => hnot h.2, herror⟩

theorem writeProvenance_cases (host : Host) (outcomes : Outcomes) (site : Site)
    (hstaging : site.staging = some built) :
    (∃ written, outcomes.writeFault = none ∧
      writeRuntimeBuildInfo host outcomes.stamp built outcomes.patchDir = .ok written ∧
      writeProvenance host outcomes site = .ok () { site with staging := some written }) ∨
    (∀ written, ¬(outcomes.writeFault = none ∧
      writeRuntimeBuildInfo host outcomes.stamp built outcomes.patchDir = .ok written)) ∧
      ∃ stop left, writeProvenance host outcomes site = .error stop { site with staging := some left } := by
  obtain ⟨output, staging⟩ := site
  cases hstaging
  unfold writeProvenance
  cases hfault : outcomes.writeFault with
  | some left => exact Or.inr ⟨fun _ h => (nomatch h.1), .device, left, rfl⟩
  | none =>
      cases hwrite : writeRuntimeBuildInfo host outcomes.stamp built outcomes.patchDir with
      | error refusal =>
          have hstep : (called (writeRuntimeBuildInfo host outcomes.stamp built outcomes.patchDir))
              ⟨output, some built⟩ = .error (.refused refusal) ⟨output, some built⟩ := by
            rw [hwrite]
            rfl
          refine Or.inr ⟨fun _ h => (nomatch h.2), .refused refusal, built, ?_⟩
          exact EStateM.bind_of_error
            (fun written => modify fun site : Site => { site with staging := some written }) hstep
      | ok written =>
          have hstep : (called (writeRuntimeBuildInfo host outcomes.stamp built outcomes.patchDir))
              ⟨output, some built⟩ = .ok written ⟨output, some built⟩ := by
            rw [hwrite]
            rfl
          exact Or.inl ⟨written, rfl, rfl, EStateM.bind_of_ok hstep⟩

theorem assertStaging_cases (host : Host) (outcomes : Outcomes) (site : Site)
    (hstaging : site.staging = some written) :
    (outcomes.readFault = false ∧ assertRuntimeReferenceBuild host written outcomes.patchDir = .ok ()) ∧
      assertStaging host outcomes site = .ok () site ∨
    ¬(outcomes.readFault = false ∧ assertRuntimeReferenceBuild host written outcomes.patchDir = .ok ()) ∧
      ∃ stop, assertStaging host outcomes site = .error stop site := by
  obtain ⟨output, staging⟩ := site
  cases hstaging
  unfold assertStaging
  cases hfault : outcomes.readFault with
  | true => exact Or.inr ⟨fun h => (nomatch h.1), .device, rfl⟩
  | false =>
      show _ ∧ called (assertRuntimeReferenceBuild host written outcomes.patchDir) ⟨output, some written⟩ = _ ∨
        _ ∧ ∃ stop, called (assertRuntimeReferenceBuild host written outcomes.patchDir) ⟨output, some written⟩ = _
      cases hassert : assertRuntimeReferenceBuild host written outcomes.patchDir with
      | error refusal => exact Or.inr ⟨fun h => (nomatch h.2), .refused refusal, rfl⟩
      | ok u => exact Or.inl ⟨⟨rfl, rfl⟩, rfl⟩

/-- The staging directory is built and checked, or the block stops with something in it. -/
theorem buildStaging_cases (host : Host) (outcomes : Outcomes) (site : Site) :
    (∃ written, Built host outcomes written ∧
      buildStaging host outcomes site = .ok () { site with staging := some written }) ∨
    (∀ written, ¬Built host outcomes written) ∧
      ∃ stop left, buildStaging host outcomes site = .error stop { site with staging := some left } := by
  unfold buildStaging
  by_cases hcode : outcomes.exitCode = 0
  · have hdocker : dockerBuild outcomes.built outcomes.exitCode site =
        .ok () { site with staging := some outcomes.built } := by
      unfold dockerBuild
      rw [hcode]
      rfl
    rw [EStateM.bind_of_ok hdocker]
    obtain ⟨hartifacts, hexpect⟩ | ⟨hnot, stop, hstop⟩ :=
      forM_expectArtifact runtimeBuildArtifacts { site with staging := some outcomes.built } rfl
    · rw [EStateM.bind_of_ok hexpect]
      obtain ⟨written, hfault, hwrite, hstep⟩ | ⟨hnot, stop, left, hstop⟩ :=
        writeProvenance_cases host outcomes { site with staging := some outcomes.built } rfl
      · rw [EStateM.bind_of_ok hstep]
        obtain ⟨⟨hread, hassert⟩, hlast⟩ | ⟨hnot, stop, hstop⟩ :=
          assertStaging_cases host outcomes { site with staging := some written } rfl
        · exact Or.inl ⟨written, ⟨hcode, hartifacts, hfault, hwrite, hread, hassert⟩, hlast⟩
        · refine Or.inr ⟨fun written' hbuilt => ?_, stop, written, hstop⟩
          have hsame := hwrite.symm.trans hbuilt.provenance
          cases hsame
          exact hnot ⟨hbuilt.readFault, hbuilt.checked⟩
      · refine Or.inr ⟨fun written hbuilt => ?_, stop, left, EStateM.bind_of_error _ hstop⟩
        exact hnot written ⟨hbuilt.writeFault, hbuilt.provenance⟩
    · refine Or.inr ⟨fun written hbuilt => ?_, stop, _, EStateM.bind_of_error _ hstop⟩
      exact hnot hbuilt.artifacts
  · have hdocker : dockerBuild outcomes.built outcomes.exitCode site =
        .error (.dockerBuild outcomes.exitCode) { site with staging := some outcomes.built } := by
      show (if outcomes.exitCode ≠ 0 then throw (.dockerBuild outcomes.exitCode) else pure () : Script Unit)
        { site with staging := some outcomes.built } = _
      rw [if_pos hcode]
      rfl
    refine Or.inr ⟨fun written hbuilt => hcode hbuilt.exitCode, _, _, EStateM.bind_of_error _ hdocker⟩

/-- Nothing stands in the way of the new directory, and it is put there. -/
def Replaces (outcomes : Outcomes) (output : Option Dir) : Prop :=
  (output.isSome → outcomes.old = .done) ∧ outcomes.moved = true

theorem replaceOutput_of_replaces (h : Replaces outcomes site.output) :
    replaceOutput outcomes site = .ok () ⟨site.staging, none⟩ := by
  obtain ⟨output, staging⟩ := site
  obtain ⟨hold, hmoved⟩ := h
  unfold replaceOutput removeOutput
  rw [hmoved]
  cases output with
  | none => rfl
  | some dir =>
      rw [hold rfl]
      rfl

/-- The output directory if it is not replaced: what is left of it. -/
theorem replaceOutput_of_not_replaces (h : ¬Replaces outcomes site.output) :
    ∃ stop, replaceOutput outcomes site =
      .error stop { site with output := if site.output.isSome then outcomes.old.left else none } := by
  obtain ⟨output, staging⟩ := site
  unfold replaceOutput removeOutput
  cases output with
  | none =>
      have hmoved : outcomes.moved = false := by
        rw [← Bool.not_eq_true]
        exact fun hmoved => h ⟨fun hsome => (nomatch hsome), hmoved⟩
      rw [hmoved]
      exact ⟨.moveItem, rfl⟩
  | some dir =>
      cases hold : outcomes.old with
      | failed left => exact ⟨.removeItem, rfl⟩
      | done =>
          have hmoved : outcomes.moved = false := by
            rw [← Bool.not_eq_true]
            exact fun hmoved => h ⟨fun _ => hold, hmoved⟩
          rw [hmoved]
          exact ⟨.moveItem, rfl⟩

/-! ### What the block leaves -/

/-- No staging directory of an earlier run is in the way, and the new one is there. -/
def Starts (outcomes : Outcomes) (initial : Site) : Prop :=
  (initial.staging.isSome → outcomes.stale = .done) ∧ outcomes.created = true

theorem publish_of_starts {initial : Site} (h : Starts outcomes initial) :
    (publish host outcomes).finalState initial =
      (removeStaging outcomes.cleanup).finalState
        ((do buildStaging host outcomes; replaceOutput outcomes : Script Unit).finalState
          { initial with staging := some .empty }) := by
  have hnew : newStaging outcomes.created { initial with staging := none } =
      .ok () { initial with staging := some .empty } := by
    unfold newStaging
    rw [h.2]
    rfl
  rw [publish, EStateM.finalState_bind_of_ok (removeStaging_of_done h.1), EStateM.finalState_bind_of_ok hnew,
    EStateM.finalState_finally]

theorem publish_of_not_starts {initial : Site} (h : ¬Starts outcomes initial) :
    (publish host outcomes).finalState initial =
      { initial with staging := if initial.staging.isSome then outcomes.stale.left else none } := by
  rw [publish]
  by_cases hstale : initial.staging.isSome → outcomes.stale = .done
  · have hnew : newStaging outcomes.created { initial with staging := none } =
        .error .newItem { initial with staging := none } := by
      unfold newStaging
      rw [Bool.eq_false_iff.mpr fun hcreated => h ⟨hstale, hcreated⟩]
      rfl
    rw [EStateM.finalState_bind_of_ok (removeStaging_of_done hstale),
      EStateM.finalState_bind_of_error hnew]
    split
    · rename_i hsome
      rw [hstale hsome]
      rfl
    · rfl
  · rw [not_forall] at hstale
    obtain ⟨hsome, hstale⟩ := hstale
    obtain ⟨stop, hstop⟩ := exists_removeStaging_eq_error hsome hstale
    rw [EStateM.finalState_bind_of_error hstop, if_pos hsome]

theorem publish_of_not_built {initial : Site} (h : Starts outcomes initial)
    (hbuilt : ∀ written, ¬Built host outcomes written) :
    (publish host outcomes).finalState initial = { initial with staging := outcomes.cleanup.left } := by
  rw [publish_of_starts h]
  obtain ⟨written, hwritten, -⟩ | ⟨-, stop, left, hstop⟩ :=
    buildStaging_cases host outcomes { initial with staging := some .empty }
  · exact absurd hwritten (hbuilt written)
  · rw [EStateM.finalState_bind_of_error hstop, finalState_removeStaging]
    rfl

theorem buildStaging_of_built (h : Built host outcomes written) (site : Site) :
    buildStaging host outcomes site = .ok () { site with staging := some written } := by
  obtain ⟨written', hwritten', hstep⟩ | ⟨hnone, -⟩ := buildStaging_cases host outcomes site
  · have hsame := h.provenance.symm.trans hwritten'.provenance
    cases hsame
    exact hstep
  · exact absurd h (hnone written)

theorem publish_of_replaces {initial : Site} (h : Starts outcomes initial) (hbuilt : Built host outcomes written)
    (hreplaces : Replaces outcomes initial.output) :
    (publish host outcomes).finalState initial = ⟨some written, none⟩ := by
  have hreplaced : replaceOutput outcomes { initial with staging := some written } =
      .ok () ⟨some written, none⟩ := replaceOutput_of_replaces hreplaces
  rw [publish_of_starts h, EStateM.finalState_bind_of_ok (buildStaging_of_built hbuilt _),
    EStateM.finalState_of_ok hreplaced, finalState_removeStaging]
  rfl

theorem publish_of_not_replaces {initial : Site} (h : Starts outcomes initial)
    (hbuilt : Built host outcomes written) (hreplaces : ¬Replaces outcomes initial.output) :
    (publish host outcomes).finalState initial =
      ⟨if initial.output.isSome then outcomes.old.left else none, outcomes.cleanup.left⟩ := by
  obtain ⟨stop, hstop⟩ : ∃ stop, replaceOutput outcomes { initial with staging := some written } =
      .error stop ⟨if initial.output.isSome then outcomes.old.left else none, some written⟩ :=
    replaceOutput_of_not_replaces hreplaces
  rw [publish_of_starts h, EStateM.finalState_bind_of_ok (buildStaging_of_built hbuilt _),
    EStateM.finalState_of_error hstop, finalState_removeStaging]
  rfl

/-- The output directory is as it was or exactly what was built and checked, and no staging directory is
left. -/
def AllOrNothing (host : Host) (outcomes : Outcomes) (initial : Site) : Prop :=
  let final := (publish host outcomes).finalState initial
  final.staging = none ∧
    (final.output = initial.output ∨ ∃ written, Built host outcomes written ∧ final.output = some written)

/-- Each removal of the staging directory leaves none of it, and the old output directory is replaced by
what was built, or else is left as it was, or happens to be left as the new one is. -/
structure Undisturbed (host : Host) (outcomes : Outcomes) (initial : Site) : Prop where
  stale : initial.staging.isSome → outcomes.stale.left = none
  cleanup : Starts outcomes initial →
    (¬∃ written, Built host outcomes written ∧ Replaces outcomes initial.output) → outcomes.cleanup.left = none
  old : Starts outcomes initial → ∀ written, Built host outcomes written →
    ∀ dir, initial.output = some dir → Replaces outcomes initial.output ∨ outcomes.old.left = some dir ∨
      outcomes.old.left = some written

/-- The block is all or nothing if and only if it goes undisturbed. -/
theorem allOrNothing_iff (host : Host) (outcomes : Outcomes) (initial : Site) :
    AllOrNothing host outcomes initial ↔ Undisturbed host outcomes initial := by
  unfold AllOrNothing
  by_cases hstarts : Starts outcomes initial
  · have hstale : initial.staging.isSome → outcomes.stale.left = none := by
      intro hsome
      rw [hstarts.1 hsome]
      rfl
    by_cases hbuilt : ∃ written, Built host outcomes written
    · obtain ⟨written, hbuilt⟩ := hbuilt
      have hunique {w : Dir} (hw : Built host outcomes w) : w = written :=
        Except.ok.inj (hw.provenance.symm.trans hbuilt.provenance)
      by_cases hreplaces : Replaces outcomes initial.output
      · rw [publish_of_replaces hstarts hbuilt hreplaces]
        apply iff_of_true
        · exact ⟨rfl, Or.inr ⟨written, hbuilt, rfl⟩⟩
        · exact ⟨hstale, fun _ hnot => absurd ⟨written, hbuilt, hreplaces⟩ hnot, fun _ _ _ _ _ => Or.inl hreplaces⟩
      · rw [publish_of_not_replaces hstarts hbuilt hreplaces]
        constructor
        · intro h
          obtain ⟨hcleanup, houtput⟩ := h
          refine ⟨hstale, fun _ _ => hcleanup, fun _ w hw dir hdir => Or.inr ?_⟩
          rw [hdir, Option.isSome_some, if_pos rfl] at houtput
          refine houtput.imp_right fun hnew => ?_
          obtain ⟨w', hw', hsame⟩ := hnew
          exact hsame.trans (by rw [hunique hw, hunique hw'])
        · intro h
          refine ⟨h.cleanup hstarts fun hnot => hreplaces hnot.choose_spec.2, ?_⟩
          cases houtput : initial.output with
          | none => exact Or.inl rfl
          | some dir =>
              have hleft := (h.old hstarts written hbuilt dir houtput).resolve_left hreplaces
              rw [Option.isSome_some, if_pos rfl]
              exact hleft.imp_right fun hnew => ⟨written, hbuilt, hnew⟩
    · rw [publish_of_not_built hstarts (not_exists.mp hbuilt)]
      constructor
      · intro h
        refine ⟨hstale, fun _ _ => h.1, fun _ w hw => absurd ⟨w, hw⟩ hbuilt⟩
      · intro h
        exact ⟨h.cleanup hstarts fun hnot => hbuilt ⟨_, hnot.choose_spec.1⟩, Or.inl rfl⟩
  · rw [publish_of_not_starts hstarts]
    constructor
    · intro h
      refine ⟨fun hsome => ?_, fun hnot => absurd hnot hstarts, fun hnot => absurd hnot hstarts⟩
      have hleft := h.1
      dsimp only at hleft
      rwa [if_pos hsome] at hleft
    · intro h
      refine ⟨?_, Or.inl rfl⟩
      dsimp only
      split
      · exact h.stale ‹_›
      · rfl

/-- Every step goes well but the last, the moving of the staging directory. -/
def notMoved : Outcomes where
  stale := .done
  created := true
  built := bareBuild
  exitCode := 0
  patchDir := some barePatches
  stamp := ⟨[], rfl⟩
  writeFault := none
  readFault := false
  old := .done
  moved := false
  cleanup := .done

/-- The old directory is gone, and so is the new one. -/
theorem not_allOrNothing_notMoved :
    (publish sampleHost notMoved).finalState ⟨some bareBuild, none⟩ = ⟨none, none⟩ ∧
      ¬AllOrNothing sampleHost notMoved ⟨some bareBuild, none⟩ := by
  have hstocked : Stocked (some barePatches) := stocked_of_all (by decide) (by decide)
  obtain ⟨written, hwrite⟩ := exists_written sampleHost hstocked
  have hchecked := assert_written sampleHost_lawful hwrite hstocked fun _ _ => rfl
  have hartifacts : (runtimeBuildArtifacts.all fun name => bareBuild.leaf (fold name) ≠ none) = true := by decide
  have hbuilt : Built sampleHost notMoved written :=
    ⟨rfl, fun name hname => of_decide_eq_true (List.all_eq_true.mp hartifacts name hname), rfl, hwrite, rfl,
      hchecked⟩
  have hfinal : (publish sampleHost notMoved).finalState ⟨some bareBuild, none⟩ = ⟨none, none⟩ :=
    publish_of_not_replaces ⟨nofun, rfl⟩ hbuilt fun h => nomatch h.2
  refine ⟨hfinal, fun h => ?_⟩
  unfold AllOrNothing at h
  rw [hfinal] at h
  obtain ⟨-, hsame | ⟨w, -, hnew⟩⟩ := h
  · cases hsame
  · cases hnew

end LlmRuntime.Build

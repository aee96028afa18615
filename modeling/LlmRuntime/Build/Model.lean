import LlmRuntime.Base.Checks
import LlmRuntime.Base.Ledger
import LlmRuntime.Base.Pattern

/-!
# The provenance of a reference build

`scripts/lib/runtime-build.ps1`: the inventory of `patches/`, the `BUILD_INFO.txt` that records what went
into a build, and the check that what a directory holds is what was recorded. A directory is the map of
what stands directly in it. Names are compared up to the case of their letters, here of the ASCII letters,
and so are the texts `-eq` compares, the keys of a hashtable and the literals of `-match`.
-/

namespace LlmRuntime.Build

open Pattern

abbrev Text := List Char

abbrev Bytes := List UInt8

/-- A text of which only the letters count, not their case. -/
def Folded : Type := {t : Text // ∃ s : Text, s.map Char.toLower = t}
  deriving DecidableEq

def fold (s : Text) : Folded := ⟨s.map Char.toLower, s, rfl⟩

/-! ### Directories -/

/-- `hidden` is the attribute of the file system, or a name that begins with a dot on the systems that hide
these. What is in a folder counts only as a whole. -/
inductive Entry where
  | file (hidden : Bool) (content : Bytes)
  | folder (content : Bytes)
  deriving DecidableEq

/-- Files that `-File` lets through and that are not hidden. -/
def Entry.listed : Entry → Bool
  | file hidden _ => !hidden
  | folder _ => false

abbrev Dir := JsMap Folded Entry

/-- `Test-Path -PathType Leaf`, and what the file holds. -/
def Dir.leaf (dir : Dir) (name : Folded) : Option Bytes :=
  match dir.get name with
  | some (.file _ content) => some content
  | _ => none

/-- A name that `*.patch` matches. -/
def IsPatchName (name : Folded) : Prop := ".patch".toList <:+ name.val

instance (name : Folded) : Decidable (IsPatchName name) :=
  inferInstanceAs (Decidable (".patch".toList <:+ name.val))

/-- `Get-ChildItem -Filter "*.patch" -File`, which without `-Force` leaves out what is hidden. -/
def Dir.onDisk (dir : Dir) : List Folded :=
  (dir.entries.filter fun entry => IsPatchName entry.1 ∧ entry.2.listed).map Prod.fst

/-! ### The machine -/

/-- What the scripts have from .NET: SHA-256 in upper-case hexadecimal, the encoding in which `Get-Content`
reads a file that has no mark of its own, and `[Environment]::NewLine`. -/
structure Host where
  sha256 : Bytes → Text
  decode : Bytes → Text
  crlf : Bool

def Host.newLine (host : Host) : Text := if host.crlf then ['\r', '\n'] else ['\n']

/-- `(Get-Date).ToUniversalTime().ToString("yyyy-MM-ddTHH:mm:ssZ")` -/
structure Stamp where
  text : Text
  printable : text.all (fun c => 32 < c.toNat && c.toNat < 127) = true

/-! ### Constants -/

def runtimeLlmletCommit : Text := "730bad2f5b4d6598f55b09eb22d54b5bf2a467ed".toList

def runtimeLlamaCppCommit : Text := "c4b18b39dbebb29d2f9f934dd0b136a9493a962e".toList

def runtimeBuildInfoName : Text := "BUILD_INFO.txt".toList

def runtimeBuildArtifacts : List Text := ["llmlet-mod.js".toList, "llmlet-mod.wasm".toList]

structure PatchTarget where
  name : Text
  repo : Text

def runtimePatchTargets : List PatchTarget :=
  [⟨"0001-llmlet-close-peer-free-connbuf.patch".toList, ".".toList⟩,
    ⟨"0002-ggml-rpc-close-accepted-fd.patch".toList, "llama.cpp".toList⟩,
    ⟨"0003-ggml-webgpu-keep-reg-context-on-emscripten.patch".toList, "llama.cpp".toList⟩,
    ⟨"0004-ggml-webgpu-mul-mat-id.patch".toList, "llama.cpp".toList⟩,
    ⟨"0005-ggml-webgpu-graph-progress-trace.patch".toList, "llama.cpp".toList⟩]

/-! ### What is thrown -/

inductive Refusal where
  | patchDirNotFound
  | notRegistered (name : Folded)
  | patchMissing (name : Text)
  | notProduced (name : Text)
  | notWritable
  | infoNotFound
  | byteOrderMark
  | llmletCommit (found : Option Text)
  | llamaCppCommit (found : Option Text)
  | builtWithout (name : Text)
  | patchChanged (name recorded now : Text)
  | carriesPatch (recorded : Folded)
  | noHash (name : Text)
  | artifactMissing (name : Text)
  | artifactChanged (name recorded actual : Text)
  deriving DecidableEq

/-- The text of the exception, names up to case. An absent commit is interpolated as nothing. -/
def Refusal.text (directory patchDir : String) : Refusal → String
  | patchDirNotFound => "Patch directory was not found: " ++ patchDir
  | notRegistered name => "patches/" ++ .ofList name.val ++
      " is not registered in scripts/lib/runtime-build.ps1. Add it to $RuntimePatchTargets or remove the file."
  | patchMissing name => "Required patch is missing: " ++ patchDir ++ "/" ++ .ofList name
  | notProduced name =>
      "Cannot record provenance: the build did not produce " ++ .ofList name ++ " in " ++ directory
  | notWritable => "Access to the path '" ++ directory ++ "/" ++ .ofList runtimeBuildInfoName ++ "' is denied."
  | infoNotFound => .ofList runtimeBuildInfoName ++ " was not found in: " ++ directory ++
      "\n\nThat directory holds artifacts built before the Runtime patches existed, so close_peer()\n" ++
      "still leaves a stale Module._connbuf slot behind when an fd number is reused\n" ++
      "(patches/0001, patches/0002). Rebuild first:\n\n" ++
      "    pwsh -NoProfile -File scripts/build-llmlet-reference.ps1"
  | byteOrderMark => directory ++ "/" ++ .ofList runtimeBuildInfoName ++ " starts with a UTF-8 BOM. " ++
      "Shell and CI readers see it as part of the first key; rewrite it without one."
  | llmletCommit found => "Artifacts were built from llmlet " ++ .ofList (found.getD []) ++
      " but the pin is " ++ .ofList runtimeLlmletCommit ++ "."
  | llamaCppCommit found => "Artifacts were built from llama.cpp " ++ .ofList (found.getD []) ++
      " but the pin is " ++ .ofList runtimeLlamaCppCommit ++ "."
  | builtWithout name => "Artifacts were built without patches/" ++ .ofList name ++
      ". Rebuild with scripts/build-llmlet-reference.ps1."
  | patchChanged name recorded now => "patches/" ++ .ofList name ++
      " changed since these artifacts were built (recorded " ++ .ofList recorded ++ ", now " ++ .ofList now ++
      "). Rebuild with scripts/build-llmlet-reference.ps1."
  | carriesPatch recorded => "Artifacts carry patch " ++ .ofList recorded.val ++
      ", which no longer exists in patches/. Rebuild with scripts/build-llmlet-reference.ps1."
  | noHash name => .ofList runtimeBuildInfoName ++ " in " ++ directory ++ " records no hash for " ++
      .ofList name ++ ". It predates artifact pinning; rebuild with scripts/build-llmlet-reference.ps1."
  | artifactMissing name => .ofList name ++ " is missing from " ++ directory ++ ", but " ++
      .ofList runtimeBuildInfoName ++ " says it should be there."
  | artifactChanged name recorded actual => .ofList name ++ " in " ++ directory ++
      " does not match its provenance (recorded " ++ .ofList recorded ++ ", found " ++ .ofList actual ++
      "). These artifacts and this " ++ .ofList runtimeBuildInfoName ++
      " come from different builds; rebuild with scripts/build-llmlet-reference.ps1."

/-! ### The inventory -/

structure Patch where
  name : Text
  repo : Text
  sha256 : Text
  deriving DecidableEq

def checkRegistered (name : Folded) : Except Refusal Unit :=
  let expected := runtimePatchTargets.map fun target => fold target.name
  if name ∈ expected then .ok () else .error (.notRegistered name)

def readPatch (host : Host) (patchDir : Dir) (target : PatchTarget) : Except Refusal Patch :=
  match patchDir.leaf (fold target.name) with
  | none => .error (.patchMissing target.name)
  | some content => .ok ⟨target.name, target.repo, host.sha256 content⟩

/-- `Get-RuntimePatchInventory`, of nothing where `patches/` is no directory. -/
def getRuntimePatchInventory (host : Host) : Option Dir → Except Refusal (List Patch)
  | none => .error .patchDirNotFound
  | some patchDir => do
    forM patchDir.onDisk checkRegistered
    runtimePatchTargets.mapM (readPatch host patchDir)

/-! ### The writer -/

def recordLine (kind name sha : Text) : Text := kind ++ name ++ " sha256=".toList ++ sha

def settingLine (key value : Text) : Text := key ++ '=' :: value

/-- `Write-RuntimeTextFile`: `WriteAllLines` in UTF-8 without a mark. -/
def encodeLines (host : Host) (lines : List Text) : Bytes :=
  (lines.flatMap fun line => line ++ host.newLine).flatMap String.utf8EncodeChar

def artifactLine (host : Host) (outputDir : Dir) (name : Text) : Except Refusal Text :=
  match outputDir.leaf (fold name) with
  | none => .error (.notProduced name)
  | some content => .ok (recordLine "artifact=".toList name (host.sha256 content))

def patchLine (patch : Patch) : Text := recordLine "patch=".toList patch.name patch.sha256

def provenanceLines (stamp : Stamp) (patches : List Patch) (artifacts : List Text) : List Text :=
  [settingLine "llmlet_commit".toList runtimeLlmletCommit,
    settingLine "llamacpp_commit".toList runtimeLlamaCppCommit] ++
  patches.map patchLine ++ artifacts ++ [settingLine "built_utc".toList stamp.text]

/-- `Write-RuntimeBuildInfo`, with the directory as it is afterwards. `WriteAllLines` refuses a name under
which there is a folder or a hidden file. -/
def writeRuntimeBuildInfo (host : Host) (stamp : Stamp) (outputDir : Dir) (patchDir : Option Dir) :
    Except Refusal Dir := do
  let patches ← getRuntimePatchInventory host patchDir
  let artifacts ← runtimeBuildArtifacts.mapM (artifactLine host outputDir)
  let bytes := encodeLines host (provenanceLines stamp patches artifacts)
  match outputDir.get (fold runtimeBuildInfoName) with
  | some (.folder _) | some (.file true _) => .error .notWritable
  | _ => .ok (outputDir.set (fold runtimeBuildInfoName) (.file false bytes))

/-! ### The reader -/

/-- White space to .NET, for `Trim` as for `\s`. -/
def isWhiteSpace (c : Char) : Bool :=
  c.toNat ∈ [9, 10, 11, 12, 13, 32, 0x85, 0xa0, 0x1680, 0x2028, 0x2029, 0x202f, 0x205f, 0x3000] ||
    (0x2000 ≤ c.toNat && c.toNat ≤ 0x200a)

def trim (s : Text) : Text := ((s.dropWhile isWhiteSpace).reverse.dropWhile isWhiteSpace).reverse

/-- The lines of `ReadLine`, `line` being what has been read of the first. -/
def readLinesFrom (line : Text) : Text → List Text
  | [] => if line = [] then [] else [line]
  | '\r' :: '\n' :: s => line :: readLinesFrom [] s
  | '\r' :: s => line :: readLinesFrom [] s
  | '\n' :: s => line :: readLinesFrom [] s
  | c :: s => readLinesFrom (line ++ [c]) s

/-- `Get-Content` -/
def getContent (host : Host) (bytes : Bytes) : List Text := readLinesFrom [] (host.decode bytes)

/-- `[0-9A-Fa-f]` -/
def isHex (c : Char) : Bool := c ∈ "0123456789ABCDEFabcdef".toList

/-- `[a-z_]`, either case. -/
def isKeyChar (c : Char) : Bool := c.isAlpha || c = '_'

/-- `^patch=(?<name>\S+)\s+sha256=(?<sha>[0-9A-Fa-f]+)$`, with the word before the name. -/
def recordPattern (kind : Text) : List (Item Char) :=
  .start :: (wordUpTo Char.toLower kind ++ .capture 1 (fun c => !isWhiteSpace c) :: .run 1 isWhiteSpace ::
    (wordUpTo Char.toLower "sha256=".toList ++ [.capture 1 isHex, .finish]))

/-- `^(?<key>[a-z_]+)=(?<value>.*)$` -/
def settingPattern : List (Item Char) :=
  [.start, .capture 1 isKeyChar, .one (· = '='), .capture 0 (· ≠ '\n'), .finish]

/-- `-match` and the groups of `$Matches`, in order. -/
def matchGroups (pattern : List (Item Char)) (s : Text) : Option (List Text) :=
  (exec pattern s).map (·.captures)

inductive Record where
  | patch (name sha : Text)
  | artifact (name sha : Text)
  | setting (key value : Text)
  deriving DecidableEq

/-- What the loop of `Assert-RuntimeReferenceBuild` makes of a line. -/
def recordOf (line : Text) : Option Record :=
  let trimmed := trim line
  if trimmed = [] then none
  else match matchGroups (recordPattern "patch=".toList) trimmed with
    | some [name, sha] => some (.patch name (sha.map Char.toUpper))
    | _ => match matchGroups (recordPattern "artifact=".toList) trimmed with
      | some [name, sha] => some (.artifact name (sha.map Char.toUpper))
      | _ => match matchGroups settingPattern trimmed with
        | some [key, value] => some (.setting key value)
        | _ => none

/-- `$Info`, `$Patches` and `$Artifacts` -/
structure Tables where
  info : JsMap Folded Text
  patches : JsMap Folded Text
  artifacts : JsMap Folded Text

def Tables.add (tables : Tables) (line : Text) : Tables :=
  match recordOf line with
  | some (.patch name sha) => { tables with patches := tables.patches.set (fold name) sha }
  | some (.artifact name sha) => { tables with artifacts := tables.artifacts.set (fold name) sha }
  | some (.setting key value) => { tables with info := tables.info.set (fold key) value }
  | none => tables

def readTables (lines : List Text) : Tables := lines.foldl Tables.add ⟨.empty, .empty, .empty⟩

/-- `$Patches.Keys`: an entry of that name comes before the property, and its value is the one thing that
`foreach` then goes through. -/
def keysOf (patches : JsMap Folded Text) : List Folded :=
  match patches.get (fold "Keys".toList) with
  | some sha => [fold sha]
  | none => patches.keys

def assertNoByteOrderMark (bytes : Bytes) : Except Refusal Unit :=
  if bytes.take 3 = [0xEF, 0xBB, 0xBF] then .error .byteOrderMark else .ok ()

def assertCommit (info : JsMap Folded Text) (key : String) (pin : Text) (refusal : Option Text → Refusal) :
    Except Refusal Unit :=
  let found := info.get (fold key.toList)
  if found.map fold = some (fold pin) then .ok () else .error (refusal found)

def assertPatch (patches : JsMap Folded Text) (patch : Patch) : Except Refusal Unit :=
  match patches.get (fold patch.name) with
  | none => .error (.builtWithout patch.name)
  | some recorded =>
    if fold recorded = fold patch.sha256 then .ok ()
    else .error (.patchChanged patch.name recorded patch.sha256)

def assertRecorded (inventory : List Patch) (recorded : Folded) : Except Refusal Unit :=
  if recorded ∈ inventory.map fun patch => fold patch.name then .ok () else .error (.carriesPatch recorded)

def assertArtifact (host : Host) (directory : Dir) (artifacts : JsMap Folded Text) (name : Text) :
    Except Refusal Unit :=
  match artifacts.get (fold name), directory.leaf (fold name) with
  | none, _ => .error (.noHash name)
  | some _, none => .error (.artifactMissing name)
  | some recorded, some content =>
    let actual := host.sha256 content
    if fold actual = fold recorded then .ok () else .error (.artifactChanged name recorded actual)

/-- `Assert-RuntimeReferenceBuild` -/
def assertRuntimeReferenceBuild (host : Host) (directory : Dir) (patchDir : Option Dir) :
    Except Refusal Unit :=
  match directory.leaf (fold runtimeBuildInfoName) with
  | none => .error .infoNotFound
  | some bytes => do
    assertNoByteOrderMark bytes
    let tables := readTables (getContent host bytes)
    assertCommit tables.info "llmlet_commit" runtimeLlmletCommit .llmletCommit
    assertCommit tables.info "llamacpp_commit" runtimeLlamaCppCommit .llamaCppCommit
    let inventory ← getRuntimePatchInventory host patchDir
    forM inventory (assertPatch tables.patches)
    forM (keysOf tables.patches) (assertRecorded inventory)
    forM runtimeBuildArtifacts (assertArtifact host directory tables.artifacts)

end LlmRuntime.Build

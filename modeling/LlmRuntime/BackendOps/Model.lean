import LlmRuntime.Base.Pattern
import LlmRuntime.Gguf.Model

/-!
# The judge of a backend run

`BackendOpsSummary` of `harness/backend-ops/summary.mjs`: the output of `test-backend-ops` arrives in
slices, is cut into lines, and each line that is a case is counted in the section it stands under. A text
is its UTF-16 code units; a pattern tests them one at a time, and the letters of a pattern with the `i`
flag stand for themselves and the same ASCII letter in the other case.
-/

namespace LlmRuntime.BackendOps

open Pattern
open Gguf (double)

abbrev Text := List UInt16

/-- The code units of a literal, which is ASCII throughout the source. -/
def text (s : String) : Text := s.toList.map fun c => c.toNat.toUInt16

def newline : UInt16 := 10

/-! ### Numbers -/

/-- What `Number` makes of digits: a double that is a whole number, or `Infinity`. -/
inductive Whole where
  | finite (n : Nat)
  | infinity
  deriving DecidableEq

/-- The largest finite double is below `2 ** 1024`. -/
def Whole.ofNat (n : Nat) : Whole := if double n < 2 ^ 1024 then .finite (double n) else .infinity

/-- `Number` of a run of digits. -/
def number (digits : Text) : Whole :=
  .ofNat (digits.foldl (fun n c => 10 * n + (c.toNat - 48)) 0)

/-- Of the numbers whose double is `x` the one with the fewest digits before its zeros. -/
def shortest (x : Nat) : Nat :=
  let candidates := (List.range (Nat.toDigits 10 x).length).reverse.flatMap fun zeros =>
    let below := x / 10 ^ zeros * 10 ^ zeros
    let above := below + 10 ^ zeros
    if x - below ≤ above - x then [below, above] else [above, below]
  (candidates.find? fun v => Whole.ofNat v = .finite x).getD x

/-- `String(x)`, with an exponent from `10 ** 21` on. -/
def Whole.toText : Whole → Text
  | .infinity => text "Infinity"
  | .finite x =>
    let digits := Nat.toDigits 10 (shortest x)
    if digits.length ≤ 21 then text (String.ofList digits)
    else
      let fraction := (digits.tail.reverse.dropWhile (· = '0')).reverse
      text (String.ofList (digits.take 1)) ++
        (if fraction = [] then [] else text "." ++ text (String.ofList fraction)) ++
        text s!"e+{digits.length - 1}"

def natText (n : Nat) : Text := (Whole.finite n).toText

/-! ### Classes of characters -/

/-- `\s`, which is also what `trim` takes away. -/
def isSpace (c : UInt16) : Bool :=
  c ∈ [9, 10, 11, 12, 13, 32, 0xa0, 0x1680, 0x2028, 0x2029, 0x202f, 0x205f, 0x3000, 0xfeff] ||
    (0x2000 ≤ c && c ≤ 0x200a)

/-- `.` -/
def isDot (c : UInt16) : Bool := c ∉ [10, 13, 0x2028, 0x2029]

/-- `\d` -/
def isDigit (c : UInt16) : Bool := 48 ≤ c && c ≤ 57

def isUpper (c : UInt16) : Bool := 65 ≤ c && c ≤ 90

def isLower (c : UInt16) : Bool := 97 ≤ c && c ≤ 122

/-- `\w`, the class of the word boundary. -/
def isWord (c : UInt16) : Bool := isUpper c || isLower c || isDigit c || c = 95

def upper (c : UInt16) : UInt16 := if isLower c then c - 32 else c

def trim (s : Text) : Text := ((s.dropWhile isSpace).reverse.dropWhile isSpace).reverse

def literal (s : String) : List (Item UInt16) := (text s).map fun c => .one (· = c)

/-- A literal under the `i` flag. -/
def caseless (s : String) : List (Item UInt16) := (text s).map fun c => .one (upper · = upper c)

/-! ### The patterns -/

/-- `ESC + "\\[[0-9;]*m"` -/
def ANSI : List (Item UInt16) :=
  [.one (· = 27), .one (· = 91), .run 0 fun c => isDigit c || c = 59, .one (· = 109)]

/-- `/\r$/` -/
def CARRIAGE_RETURN : List (Item UInt16) := [.one (· = 13), .finish]

/-- `/^Backend (\d+)\/(\d+): (.+)$/` -/
def SECTION_RE : List (Item UInt16) :=
  [.start] ++ literal "Backend " ++ [.capture 1 isDigit] ++ literal "/" ++ [.capture 1 isDigit] ++
    literal ": " ++ [.capture 1 isDot, .finish]

/-- `/(\S+)\((.*)\): (.+)$/` -/
def CASE_RE : List (Item UInt16) :=
  [.capture 1 fun c => !isSpace c] ++ literal "(" ++ [.capture 0 isDot] ++ literal "): " ++
    [.capture 1 isDot, .finish]

/-- `/^\s*\d+\/\d+ tests passed$/` -/
def SELF_REPORTED_RE : List (Item UInt16) :=
  [.start, .run 0 isSpace, .run 1 isDigit] ++ literal "/" ++ [.run 1 isDigit] ++
    literal " tests passed" ++ [.finish]

/-! ### Outcomes -/

inductive Status where
  | ok
  | fail
  | notSupported
  | skipped
  | unknown
  deriving DecidableEq

namespace Status

def name : Status → Text
  | ok => text "OK"
  | fail => text "FAIL"
  | notSupported => text "NOT_SUPPORTED"
  | skipped => text "SKIPPED"
  | unknown => text "UNKNOWN"

end Status

def STATUSES : List Status := [.ok, .fail, .notSupported, .skipped, .unknown]

/-- The text after `"): "`, put into one of five buckets. -/
def classifyOutcome (outcome : Text) : Status :=
  let s := trim outcome
  if test ([.start] ++ literal "OK" ++ [.boundary isWord]) s then .ok
  else if test (caseless "not supported") s then .notSupported
  else if test ([.boundary isWord] ++ caseless "skipped" ++ [.boundary isWord]) s then .skipped
  else if test ([.boundary isWord] ++ literal "FAIL" ++ [.boundary isWord]) s then .fail
  else .unknown

abbrev Counts := Status → Nat

def emptyCounts : Counts := fun _ => 0

/-- `counts[status] += 1` -/
def Counts.increment (counts : Counts) (status : Status) : Counts :=
  fun other => if other = status then counts other + 1 else counts other

def total (counts : Counts) : Nat := STATUSES.foldl (fun sum key => sum + counts key) 0

/-! ### The summary -/

structure Section where
  index : Whole
  of : Whole
  name : Text
  counts : Counts

/-- A regular expression with neither of the flags `g` and `y`, and how it is printed. -/
structure Target where
  test : Text → Bool
  source : Text

/-- `/webgpu/i` -/
def Target.webgpu : Target := ⟨Pattern.test (caseless "webgpu"), text "/webgpu/i"⟩

/-- `current` is the place of a section in `sections`, both being references to the same object. -/
structure BackendOpsSummary where
  expected : Option Nat
  target : Target
  sections : List Section
  current : Option Nat
  orphans : Counts
  selfReported : List Text
  carry : Text

namespace BackendOpsSummary

def new (expected : Option Nat) (target : Target) : BackendOpsSummary where
  expected := expected
  target := target
  sections := []
  current := none
  orphans := emptyCounts
  selfReported := []
  carry := []

def countCase (s : BackendOpsSummary) (status : Status) : BackendOpsSummary :=
  match s.current with
  | some i =>
    { s with sections := s.sections.modify i fun sec => { sec with counts := sec.counts.increment status } }
  | none => { s with orphans := s.orphans.increment status }

def line (s : BackendOpsSummary) (raw : Text) : BackendOpsSummary :=
  let txt := remove CARRIAGE_RETURN (removeAll ANSI raw)
  match exec SECTION_RE txt with
  | some m =>
    let sec : Section :=
      { index := number (m.captures.getD 0 []), of := number (m.captures.getD 1 []),
        name := trim (m.captures.getD 2 []), counts := emptyCounts }
    { s with sections := s.sections ++ [sec], current := some s.sections.length }
  | none =>
    if test SELF_REPORTED_RE txt then { s with selfReported := s.selfReported ++ [trim txt] }
    else
      match exec CASE_RE txt with
      | some m => s.countCase (classifyOutcome (m.captures.getD 2 []))
      | none => s

/-- `carry.indexOf("\n")`: what stands before it and what comes after it. -/
def cut : Text → Option (Text × Text)
  | [] => none
  | c :: s => if c = newline then some ([], s) else (cut s).map fun t => (c :: t.1, t.2)

theorem length_cut {carry before after : Text} (h : cut carry = some (before, after)) :
    after.length < carry.length := by
  induction carry generalizing before after with
  | nil => cases h
  | cons c s ih =>
      unfold cut at h
      split at h
      · cases h
        exact Nat.lt_succ_self _
      · obtain ⟨t, ht, heq⟩ := Option.map_eq_some_iff.mp h
        cases heq
        exact Nat.lt_succ_of_lt (ih ht)

/-- The loop of `feed`. -/
def handOver (s : BackendOpsSummary) : BackendOpsSummary :=
  match _h : cut s.carry with
  | none => s
  | some (before, after) => handOver { s.line before with carry := after }
termination_by s.carry.length
decreasing_by exact length_cut _h

def feed (s : BackendOpsSummary) (chunk : Text) : BackendOpsSummary :=
  handOver { s with carry := s.carry ++ chunk }

def flush (s : BackendOpsSummary) : BackendOpsSummary :=
  if s.carry.length > 0 then { s.line s.carry with carry := [] } else s

def targets (s : BackendOpsSummary) : List Section := s.sections.filter fun sec => s.target.test sec.name

end BackendOpsSummary

/-- `${s.index}/${s.of} ${s.name}` -/
def Section.label (sec : Section) : Text := sec.index.toText ++ text "/" ++ sec.of.toText ++ text " " ++ sec.name

/-- `texts.join(separator)` -/
def join (separator : String) (texts : List Text) : Text := (text separator).intercalate texts

structure Verdict where
  pass : Bool
  reasons : List Text
  sec : Option Section

namespace BackendOpsSummary

def verdict (s : BackendOpsSummary) : Verdict :=
  let sec := match s.targets with
    | [sec] => some sec
    | _ => none
  let aboutTargets :=
    if s.targets.length = 0 then [text "no backend section matching " ++ s.target.source ++ text " was seen"]
    else if s.targets.length > 1 then
      [natText s.targets.length ++ text " backend sections match " ++ s.target.source ++ text " (" ++
        join ", " (s.targets.map Section.label) ++ text "); the target is ambiguous"]
    else []
  let aboutOrphans :=
    if total s.orphans > 0 then
      [natText (total s.orphans) ++ text " case(s) appeared before any backend section"]
    else []
  let aboutExpected := match s.expected with
    | none => [text "expected case count is unknown (no --test-file), so completeness cannot be claimed"]
    | some n => if n ≤ 0 then [text "expected case count is zero"] else []
  let aboutCounts := match sec, s.expected with
    | some sec, some n =>
      if n > 0 then
        (if total sec.counts ≠ n then
          [text "observed " ++ natText (total sec.counts) ++ text " case(s), expected " ++ natText n]
        else []) ++
        (if sec.counts .ok ≠ n then [natText (sec.counts .ok) ++ text " OK, expected " ++ natText n] else []) ++
        [Status.fail, .notSupported, .skipped, .unknown].flatMap fun status =>
          if sec.counts status > 0 then [natText (sec.counts status) ++ text " " ++ status.name] else []
      else []
    | _, _ => []
  let reasons := aboutTargets ++ aboutOrphans ++ aboutExpected ++ aboutCounts
  { pass := reasons.isEmpty, reasons, sec }

def format (s : BackendOpsSummary) : Text :=
  let v := s.verdict
  let counts := match v.sec with
    | some sec => sec.counts
    | none => emptyCounts
  let observed := match v.sec with
    | some _ => total counts
    | none => 0
  let orNone (t : Text) : Text := if t = [] then text "(none)" else t
  let lines :=
    [text "VERDICT            : " ++ if v.pass then text "PASS" else text "NOT A PASS"] ++
    (if v.pass then [] else v.reasons.map fun r => text "  - " ++ r) ++
    [[],
      text "target section     : " ++ (match v.sec with
        | some sec => sec.label
        | none => text "(none)"),
      text "expected cases     : " ++ (match s.expected with
        | none => text "unknown (no --test-file)"
        | some n => natText n),
      text "observed cases     : " ++ natText observed,
      text "  OK               : " ++ natText (counts .ok),
      text "  FAIL             : " ++ natText (counts .fail),
      text "  NOT SUPPORTED    : " ++ natText (counts .notSupported),
      text "  SKIPPED          : " ++ natText (counts .skipped),
      text "  UNKNOWN          : " ++ natText (counts .unknown),
      [],
      text "all sections       : " ++ orNone (join " | " (s.sections.map fun sec =>
        sec.label ++ text " (" ++ natText (total sec.counts) ++ text ")")),
      text "self-reported      : " ++ orNone (join " | " s.selfReported),
      text "  ^ counts executed cases only; NOT SUPPORTED and SKIPPED are excluded, so neither",
      text "    this line nor the exit status can decide a pass."] ++
    if total s.orphans > 0 then
      [[], text "orphan cases       : " ++ natText (total s.orphans) ++ text " (printed before any backend section)"]
    else []
  join "\n" lines

end BackendOpsSummary

end LlmRuntime.BackendOps

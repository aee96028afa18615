import LlmRuntime.Base.Segment
import Mathlib.Algebra.GroupWithZero.Nat

/-!
# Serving a file

`parse_byte_range`, `send_head` and `copyfile` of `scripts/serve-runtime.py`, and the range that the adapter
of `llmlet-runtime.js` asks for. What `http.server` does on its own is a parameter.
-/

namespace LlmRuntime.Serving

def COPY_CHUNK : Nat := 256 * 1024

/-! ### Strings

The headers of a request are decoded as ISO 8859-1. Of these characters only `0` to `9` are decimal digits. -/

/-- `text` without the `p` at both ends. -/
def trim (p : Char → Bool) (text : List Char) : List Char := ((text.dropWhile p).reverse.dropWhile p).reverse

/-- `str.isspace` of a character below U+0100. -/
def isSpace (c : Char) : Bool :=
  (9 ≤ c.toNat && c.toNat ≤ 13) || (28 ≤ c.toNat && c.toNat ≤ 32) || c.toNat == 0x85 || c.toNat == 0xa0

/-- The white space around a number: the separators U+001C to U+001F, which `str.isspace` takes, are none. -/
def isNumberSpace (c : Char) : Bool :=
  (9 ≤ c.toNat && c.toNat ≤ 13) || c.toNat == 32 || c.toNat == 0x85 || c.toNat == 0xa0

def strip (text : List Char) : List Char := trim isSpace text

/-- `text.partition("-")`, where the second result is whether there is a separator. -/
def partition (text : List Char) : List Char × Bool × List Char :=
  (text.takeWhile (· ≠ '-'), text.contains '-', (text.dropWhile (· ≠ '-')).tail)

/-- `sys.get_int_max_str_digits()`. -/
def MAX_STR_DIGITS : Nat := 4300

/-- Digits with single underscores between them; the first argument is whether a digit came before. -/
def unsignedDigits : Bool → List Char → Option (List Char)
  | afterDigit, [] => if afterDigit then some [] else none
  | afterDigit, c :: rest =>
      if c.isDigit then (unsignedDigits true rest).map (c :: ·)
      else if c = '_' ∧ afterDigit then unsignedDigits false rest
      else none

def unsigned (text : List Char) : Option Nat :=
  (unsignedDigits false text).bind fun digits =>
    if digits.length ≤ MAX_STR_DIGITS then some (Nat.ofDigitChars 10 digits 0) else none

/-- `int(text)`, or nothing for a `ValueError`. -/
def int (text : List Char) : Option Int :=
  match trim isNumberSpace text with
  | '-' :: rest => (unsigned rest).map fun n => -(n : Int)
  | '+' :: rest => (unsigned rest).map fun n => (n : Int)
  | rest => (unsigned rest).map fun n => (n : Int)

/-! ### The range -/

inductive Parsed where
  | ignore
  | unsatisfiable
  | range (start stop : Int)
  deriving DecidableEq, Repr

def BYTES : List Char := ['b', 'y', 't', 'e', 's', '=']

/-- The end of `parse_byte_range`. -/
def clamp (start stop : Int) (size : Nat) : Parsed :=
  if start ≥ size ∨ start < 0 ∨ stop < start then .unsatisfiable else .range start (min stop (size - 1))

def parseByteRange (value : List Char) (size : Nat) : Parsed :=
  if ¬ BYTES.isPrefixOf value then .ignore
  else
    let spec := strip (value.drop BYTES.length)
    if spec.contains ',' then .ignore
    else
      match partition spec with
      | (_, false, _) => .ignore
      | (first, true, last) =>
          if first = [] then
            match int last with
            | none => .ignore
            | some length => if length ≤ 0 then .unsatisfiable else clamp (max 0 (size - length)) (size - 1) size
          else
            match int first, if last = [] then some (size - 1 : Int) else int last with
            | some start, some stop => clamp start stop size
            | _, _ => .ignore

/-! ### The answer -/

structure Response where
  status : Nat
  headers : List (String × String)
  body : List UInt8

/-- What `send_head` leaves: all has been sent, or the body is still to be copied from a position of the
file, where `remaining` is `_range_remaining`. -/
inductive Head where
  | answered (response : Response)
  | stream (status : Nat) (headers : List (String × String)) (position : Nat) (remaining : Option Int)

def Head.status : Head → Nat
  | .answered response => response.status
  | .stream status _ _ _ => status

/-- A file on disk, whose size is a signed 64-bit number. -/
structure ServedFile where
  content : List UInt8
  size_lt : content.length < 2 ^ 63

/-- What the handler has from elsewhere: what `SimpleHTTPRequestHandler.send_head` does with the file, its
answer to an error, whether the file can be opened, and the values of two headers. -/
structure Environment where
  base : Head
  notFound : Response
  opens : Bool
  guessType : String
  lastModified : String

/-- `end_headers`. -/
def isolation : List (String × String) :=
  [("Cross-Origin-Opener-Policy", "same-origin"), ("Cross-Origin-Embedder-Policy", "require-corp"),
    ("Cross-Origin-Resource-Policy", "same-origin"), ("Cache-Control", "no-store"), ("Accept-Ranges", "bytes")]

variable (file : ServedFile) (env : Environment)

/-- `rawRange` is the `Range` header, if there is one. -/
def sendHead (rawRange : Option (List Char)) : Head :=
  let size := file.content.length
  match rawRange with
  | none => env.base
  | some value =>
      if value = [] then env.base
      else
        match parseByteRange value size with
        | .ignore => env.base
        | .unsatisfiable =>
            .answered ⟨416, [("Content-Range", s!"bytes */{size}"), ("Content-Length", "0")] ++ isolation, []⟩
        | .range start stop =>
            if env.opens then
              let remaining := stop - start + 1
              .stream 206
                ([("Content-Type", env.guessType), ("Content-Range", s!"bytes {start}-{stop}/{size}"),
                  ("Content-Length", toString remaining), ("Last-Modified", env.lastModified)] ++ isolation)
                start.toNat (some remaining)
            else .answered env.notFound

/-- The loop of `copyfile`. A read of a file gets what is asked for, up to the end of the file. -/
def copyLoop (content : List UInt8) (position remaining : Nat) : List UInt8 :=
  if 0 < remaining then
    let chunk := content.segment position (position + min COPY_CHUNK remaining)
    if chunk = [] then []
    else chunk ++ copyLoop content (position + chunk.length) (remaining - chunk.length)
  else []
termination_by remaining
decreasing_by
  rename_i hpositive hsome
  have hpos : 0 < (content.segment position (position + min COPY_CHUNK remaining)).length :=
    List.length_pos_iff.mpr hsome
  omega

def copyfile (content : List UInt8) (position : Nat) : Option Int → List UInt8
  | none => content.drop position
  | some remaining => copyLoop content position remaining.toNat

/-- What follows `send_head` in `do_GET`: a stream that it returned is copied. -/
def Head.respond (content : List UInt8) : Head → Response
  | .answered response => response
  | .stream status headers position remaining => ⟨status, headers, copyfile content position remaining⟩

def get (rawRange : Option (List Char)) : Response := (sendHead file env rawRange).respond file.content

/-- The adapter's `Range` header, `bytes=${begin}-${end - 1}`. -/
def rangeHeader (start stop : Nat) : List Char :=
  BYTES ++ Nat.toDigits 10 start ++ '-' :: Nat.toDigits 10 (stop - 1)

end LlmRuntime.Serving

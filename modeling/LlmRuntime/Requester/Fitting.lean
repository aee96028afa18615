import LlmRuntime.Gguf.Alignment
import LlmRuntime.Requester.Prompting
import Mathlib.Data.List.TakeWhile

/-!
# Prompts that fit

C++ copies a prompt into `n_ctx` bytes and ends it with a NUL. How many bytes these are, C++ reads off its
arguments from left to right, and the adapter from right to left before anything is started. Here the
adapter's `utf8BinaryString` has its blocks, and a string of JavaScript the length it may have at most.
-/

namespace LlmRuntime.Requester

open Gguf (isStrWhiteSpace digits double)
open Transition

def DEFAULT_CONTEXT_SIZE : Nat := 4096

/-- `Number.parseInt(text, 10)`. -/
def parseInt (text : String) : Binary64 :=
  let unsigned (negative : Bool) (rest : List Char) : Binary64 :=
    if rest.takeWhile Char.isDigit = [] then .nan
    else .round negative (digits 10 (rest.takeWhile Char.isDigit) : Nat)
  match text.toList.dropWhile isStrWhiteSpace with
  | '+' :: rest => unsigned false rest
  | '-' :: rest => unsigned true rest
  | rest => unsigned false rest

/-- `Number.isFinite(parsed) && parsed > 0 ? parsed : DEFAULT_CONTEXT_SIZE`. What is parsed is whole. -/
def acceptedSize : Binary64 → Nat
  | .finite false q _ => if 0 < q then ⌊q⌋₊ else DEFAULT_CONTEXT_SIZE
  | _ => DEFAULT_CONTEXT_SIZE

/-- The loop of `contextSizeFromArgs`, with as many rounds left as the second argument says. -/
def contextSizeLoop (args : List String) : Nat → Nat
  | 0 => DEFAULT_CONTEXT_SIZE
  | i + 1 =>
      if args[i]? = some "-c" then acceptedSize (parseInt (args.getD (i + 1) ""))
      else contextSizeLoop args i

/-- `args` is none where `options.args` is not an array. -/
def contextSizeFromArgs : Option (List String) → Nat
  | none => DEFAULT_CONTEXT_SIZE
  | some args => contextSizeLoop args (args.length - 1)

/-- `String.fromCharCode(...bytes)`: code units. -/
def fromCharCode (bytes : List UInt8) : List UInt16 := bytes.map UInt8.toUInt16

def block : Nat := 0x8000

/-- The loop of `utf8BinaryString` from `i` on, with `out` so far. `limit` is the length that a string may
have at most. -/
def appendBlocks (limit : Nat) (bytes : List UInt8) (i : Nat) (out : List UInt16) :
    Except String (List UInt16) :=
  if i < bytes.length then
    let longer := out ++ fromCharCode ((bytes.drop i).take block)
    if limit < longer.length then .error "Invalid string length"
    else appendBlocks limit bytes (i + block) longer
  else .ok out
termination_by bytes.length - i
decreasing_by
  rw [block]
  omega

def binaryString (limit : Nat) (text : String) : Except String (List UInt16) :=
  appendBlocks limit (utf8BinaryString text) 0 []

/-- `encodePromptForRuntime`. -/
def encodePrompt (limit : Nat) (text : String) (contextSize : Nat) (label : String) :
    Except String (List UInt16) := do
  let encoded ← binaryString limit text
  if encoded.length ≥ contextSize then
    throw s!"{label} is {encoded.length} UTF-8 bytes; the Runtime accepts at most {contextSize - 1}"
  return encoded

/-- What `startRequester` settles before anything is started: `contextSize` and `systemPrompt`. -/
def startRequester (limit : Nat) (args : Option (List String)) (systemPrompt : Option String) :
    Except String (Nat × List UInt16) := do
  let contextSize := contextSizeFromArgs args
  let encoded ← encodePrompt limit (systemPrompt.getD "") contextSize "systemPrompt"
  return (contextSize, encoded)

/-- `Module.arguments` when C++ is started. -/
def moduleArguments (args : Option (List String)) (peerIds : List String) : List String :=
  args.getD [] ++ ["-d"] ++ peerIds.flatMap (fun peerId => ["-rpc", peerId]) ++ ["-m", "/work/model.gguf"]

/-! ### What C++ makes of its arguments -/

/-- A positive decimal integer. -/
structure Numeral (text : String) : Prop where
  ne_nil : text.toList ≠ []
  isDigit : ∀ c ∈ text.toList, c.isDigit = true
  pos : 0 < digits 10 text.toList

instance (text : String) : Decidable (Numeral text) :=
  decidable_of_iff (text.toList ≠ [] ∧ text.toList.all Char.isDigit ∧ 0 < digits 10 text.toList)
    ⟨fun h => ⟨h.1, List.all_eq_true.mp h.2.1, h.2.2⟩, fun h => ⟨h.1, List.all_eq_true.mpr h.2, h.3⟩⟩

/-- The number a numeral stands for. -/
def decimal (text : String) : Nat := digits 10 text.toList

/-- Each `-c` has its number. -/
def Numbered (args : List String) : Prop :=
  ∀ i < args.length, args[i]? = some "-c" → Numeral (args.getD (i + 1) "")

instance (args : List String) : Decidable (Numbered args) :=
  inferInstanceAs (Decidable (∀ i < args.length, args[i]? = some "-c" → Numeral (args.getD (i + 1) "")))

/-- `n_ctx` after the arguments, when it was `nCtx` before them. `valued` are the other flags that take a
value. -/
def scanArgs (valued : String → Bool) (nCtx : Nat) : List String → Nat
  | flag :: value :: rest =>
      if flag = "-c" then scanArgs valued (decimal value) rest
      else if valued flag then scanArgs valued nCtx rest
      else scanArgs valued nCtx (value :: rest)
  | _ => nCtx

/-- What is known of the flags that the adapter passes itself. -/
structure Flags (valued : String → Bool) : Prop where
  device : valued "-d" = false
  rpc : valued "-rpc" = true
  model : valued "-m" = true

/-- No value of another flag is `-c`. -/
def ValuesClear (valued : String → Bool) : List String → Prop
  | flag :: value :: rest =>
      if flag = "-c" then ValuesClear valued rest
      else if valued flag then value ≠ "-c" ∧ ValuesClear valued rest
      else ValuesClear valued (value :: rest)
  | _ => True

/-- What follows the last `-c`. -/
def lastSize : List String → Option String
  | flag :: value :: rest => (lastSize (value :: rest)).or (if flag = "-c" then some value else none)
  | _ => none

variable {valued : String → Bool} {args : List String} {limit contextSize i : Nat} {text label : String}
  {bytes : List UInt8}

/-! ### From right to left -/

theorem contextSizeLoop_cons (flag : String) (args : List String) (i : Nat) :
    contextSizeLoop (flag :: args) (i + 1) =
      if ∃ j < i, args[j]? = some "-c" then contextSizeLoop args i
      else if flag = "-c" then acceptedSize (parseInt (args.getD 0 "")) else DEFAULT_CONTEXT_SIZE := by
  induction i with
  | zero => simp [contextSizeLoop]
  | succ i ih =>
      rw [contextSizeLoop, ih, contextSizeLoop]
      simp only [List.getElem?_cons_succ, List.getD_cons_succ]
      by_cases hc : args[i]? = some "-c"
      · rw [if_pos hc, if_pos hc, if_pos ⟨i, Nat.lt_succ_self i, hc⟩]
      · have hiff : (∃ j < i + 1, args[j]? = some "-c") ↔ ∃ j < i, args[j]? = some "-c" := by
          constructor
          · intro ⟨j, hj, hflag⟩
            refine ⟨j, Nat.lt_of_le_of_ne (Nat.le_of_lt_succ hj) ?_, hflag⟩
            rintro rfl
            exact hc hflag
          · intro ⟨j, hj, hflag⟩
            exact ⟨j, Nat.lt_succ_of_lt hj, hflag⟩
        rw [if_neg hc, if_neg hc, if_congr hiff rfl rfl]

theorem lastSize_eq_none : lastSize args = none ↔ ¬ ∃ j < args.length - 1, args[j]? = some "-c" := by
  fun_induction lastSize args with
  | case1 flag value rest ih =>
      rw [Option.or_eq_none_iff, ih]
      constructor
      · intro ⟨hrest, hflag⟩ ⟨j, hj, heq⟩
        cases j with
        | zero => simp_all
        | succ j => exact hrest ⟨j, by simp at hj ⊢; omega, heq⟩
      · intro h
        refine ⟨fun ⟨j, hj, heq⟩ => h ⟨j + 1, by simp at hj ⊢; omega, heq⟩, ?_⟩
        rw [if_neg]
        rintro rfl
        exact h ⟨0, by simp, rfl⟩
  | case2 args hshort =>
      refine iff_of_true rfl ?_
      rintro ⟨j, hj, -⟩
      match args, hshort with
      | [], _ => exact absurd hj (Nat.not_lt_zero j)
      | [flag], _ => exact absurd hj (Nat.not_lt_zero j)
      | flag :: value :: rest, hshort => exact hshort flag value rest rfl

/-- The adapter takes the last of the sizes. -/
theorem contextSizeFromArgs_eq (args : List String) : contextSizeFromArgs (some args) =
    (lastSize args).elim DEFAULT_CONTEXT_SIZE fun size => acceptedSize (parseInt size) := by
  rw [contextSizeFromArgs]
  fun_induction lastSize args with
  | case1 flag value rest ih =>
      have hiff : lastSize (value :: rest) = none ↔ _ := lastSize_eq_none
      simp only [List.length_cons, Nat.add_sub_cancel] at ih hiff ⊢
      rw [contextSizeLoop_cons, ih]
      cases hsize : lastSize (value :: rest) with
      | none =>
          rw [if_neg (hiff.mp hsize)]
          split <;> rfl
      | some size =>
          rw [if_pos]
          · rfl
          · by_contra hnone
            rw [hiff.mpr hnone] at hsize
            cases hsize
  | case2 args hshort =>
      match args, hshort with
      | [], _ => rfl
      | [flag], _ => rfl
      | flag :: value :: rest, hshort => exact (hshort flag value rest rfl).elim

/-! ### From left to right -/

theorem Numeral.ne_flag (h : Numeral text) : text ≠ "-c" := by
  rintro rfl
  exact absurd (h.isDigit '-' (by decide)) (by decide)

theorem lastSize_cons_of_ne {flag : String} (h : flag ≠ "-c") (rest : List String) :
    lastSize (flag :: rest) = lastSize rest := by
  cases rest with
  | nil => rfl
  | cons value rest => rw [lastSize, if_neg h, Option.or_none]

theorem Numbered.tail {flag : String} (h : Numbered (flag :: args)) : Numbered args := by
  intro i hi hflag
  exact h (i + 1) (Nat.succ_lt_succ hi) hflag

theorem Numbered.head (h : Numbered ("-c" :: args)) : Numeral (args.getD 0 "") :=
  h 0 (Nat.succ_pos _) rfl

/-- So does C++, whatever comes after them that names no size. -/
theorem scanArgs_append {tail : List String} (hnumbered : Numbered args) (hclear : ValuesClear valued args)
    (htail : ∀ n, scanArgs valued n tail = n) (hdrop : ∀ n, scanArgs valued n (tail.drop 1) = n) (nCtx : Nat) :
    scanArgs valued nCtx (args ++ tail) = (lastSize args).elim nCtx decimal := by
  fun_induction ValuesClear valued args generalizing nCtx with
  | case1 value rest ih =>
      have hvalue : value ≠ "-c" := hnumbered.head.ne_flag
      rw [List.cons_append, List.cons_append, scanArgs, if_pos rfl, ih hnumbered.tail.tail hclear, lastSize,
        if_pos rfl, lastSize_cons_of_ne hvalue]
      cases lastSize rest <;> rfl
  | case2 flag value rest hflag hvalued ih =>
      rw [List.cons_append, List.cons_append, scanArgs, if_neg hflag, if_pos hvalued,
        ih hnumbered.tail.tail hclear.2, lastSize_cons_of_ne hflag, lastSize_cons_of_ne hclear.1]
  | case3 flag value rest hflag hvalued ih =>
      rw [List.cons_append, List.cons_append, scanArgs, if_neg hflag, if_neg hvalued, ← List.cons_append,
        ih hnumbered.tail hclear, lastSize_cons_of_ne hflag]
  | case4 args hshort =>
      match args, hshort with
      | [], _ => exact htail nCtx
      | [flag], _ =>
          have hflag : flag ≠ "-c" := by
            rintro rfl
            exact hnumbered.head.ne_nil rfl
          cases tail with
          | nil => rfl
          | cons value rest =>
              rw [List.singleton_append, scanArgs, if_neg hflag]
              split
              · exact hdrop nCtx
              · exact htail nCtx
      | flag :: value :: rest, hshort => exact (hshort flag value rest rfl).elim

theorem scanArgs_own (hflags : Flags valued) (peerIds : List String) (nCtx : Nat) :
    scanArgs valued nCtx (peerIds.flatMap (fun peerId => ["-rpc", peerId]) ++ ["-m", "/work/model.gguf"]) =
      nCtx := by
  induction peerIds with
  | nil =>
      rw [List.flatMap_nil, List.nil_append, scanArgs, if_neg (by decide), if_pos hflags.model]
      rfl
  | cons peerId peerIds ih =>
      rw [List.flatMap_cons, List.cons_append, List.singleton_append, List.cons_append, List.cons_append,
        scanArgs, if_neg (by decide), if_pos hflags.rpc]
      exact ih

/-- What C++ reads, and what the adapter has read, by the last of the sizes. -/
theorem scanArgs_moduleArguments (hflags : Flags valued) (hnumbered : Numbered args)
    (hclear : ValuesClear valued args) (peerIds : List String) :
    scanArgs valued DEFAULT_CONTEXT_SIZE (moduleArguments (some args) peerIds) =
      (lastSize args).elim DEFAULT_CONTEXT_SIZE decimal := by
  have hown := scanArgs_own hflags peerIds
  rw [moduleArguments, Option.getD_some, List.append_assoc, List.append_assoc]
  apply scanArgs_append hnumbered hclear
  · intro n
    generalize peerIds.flatMap (fun peerId => ["-rpc", peerId]) ++ ["-m", "/work/model.gguf"] = tail at hown
    cases tail with
    | nil => rfl
    | cons value rest =>
        rw [List.singleton_append, scanArgs, if_neg (by decide), if_neg (by simp [hflags.device])]
        exact hown n
  · exact hown

theorem lastSize_numeral (hnumbered : Numbered args) {size : String} (h : lastSize args = some size) :
    Numeral size := by
  fun_induction lastSize args with
  | case1 flag value rest ih =>
      cases hrest : lastSize (value :: rest) with
      | some size' =>
          rw [hrest, Option.some_or, Option.some.injEq] at h
          exact ih hnumbered.tail (h ▸ hrest)
      | none =>
          rw [hrest, Option.none_or] at h
          split at h
          · rename_i hflag
            cases h
            subst hflag
            exact hnumbered.head
          · cases h
  | case2 => cases h

/-! ### The number that is read -/

theorem isStrWhiteSpace_of_isDigit {c : Char} (h : c.isDigit = true) : isStrWhiteSpace c = false := by
  have hle : 48 ≤ c.toNat ∧ c.toNat ≤ 57 := by
    simp only [Char.isDigit, Bool.and_eq_true, decide_eq_true_eq, UInt32.le_iff_toNat_le] at h
    exact h
  simp [isStrWhiteSpace]
  omega

theorem parseInt_numeral (h : Numeral text) : parseInt text = .round false (decimal text : Nat) := by
  have hall := h.isDigit
  have hne := h.ne_nil
  rw [parseInt, decimal]
  generalize text.toList = chars at hall hne
  cases chars with
  | nil => exact absurd rfl hne
  | cons c chars =>
      have hc := hall c List.mem_cons_self
      have htake : (c :: chars).takeWhile Char.isDigit = c :: chars := by
        rw [List.takeWhile_eq_self_iff]
        exact hall
      have hdrop : (c :: chars).dropWhile isStrWhiteSpace = c :: chars := by
        rw [List.dropWhile_cons_of_neg]
        simp [isStrWhiteSpace_of_isDigit hc]
      dsimp only
      rw [hdrop]
      split
      · rename_i heq
        cases heq
        exact absurd hc (by decide)
      · rename_i heq
        cases heq
        exact absurd hc (by decide)
      · rw [htake, if_neg (List.cons_ne_nil c chars)]

theorem acceptedSize_round {n : Nat} (hn : 0 < n) :
    acceptedSize (.round false (n : ℚ)) = if double n < 2 ^ 1024 then double n else DEFAULT_CONTEXT_SIZE := by
  have hcast : ((double n : Nat) : ℚ) < 2 ^ 1024 ↔ double n < 2 ^ 1024 := by
    norm_cast
  have hpos : 0 < double n := by
    by_cases h : n < 2 ^ 53
    · rwa [Gguf.double_of_lt h]
    · have hle := Gguf.le_double (Nat.not_lt.mp h)
      omega
  rw [Binary64.round]
  simp only [Gguf.nearest_natCast_eq_double]
  split
  · rename_i hlt
    rw [acceptedSize, if_pos (Nat.cast_pos.mpr hpos), Nat.floor_natCast, if_pos (hcast.mp hlt)]
  · rename_i hlt
    rw [if_neg (mt hcast.mpr hlt)]
    rfl

/-- A string is shorter than the number read if and only if it is shorter than the number written. -/
theorem double_le_iff {n length : Nat} (hlength : length < 2 ^ 53) : double n ≤ length ↔ n ≤ length := by
  by_cases h : n < 2 ^ 53
  · rw [Gguf.double_of_lt h]
  · have hle := Gguf.le_double (Nat.not_lt.mp h)
    omega

/-! ### The blocks -/

theorem utf8BinaryString_eq (text : String) : utf8BinaryString text = text.toUTF8.data.toList := by
  have hencode := congrArg (fun bytes => bytes.data.toList) (String.utf8Encode_toList (b := text))
  rw [List.utf8Encode, List.toList_data_toByteArray] at hencode
  exact hencode

theorem size_toUTF8 (text : String) : text.toUTF8.size = (utf8BinaryString text).length := by
  rw [utf8BinaryString_eq]
  rfl

theorem fromCharCode_append (bytes bytes' : List UInt8) :
    fromCharCode (bytes ++ bytes') = fromCharCode bytes ++ fromCharCode bytes' := List.map_append

theorem length_fromCharCode (bytes : List UInt8) : (fromCharCode bytes).length = bytes.length := List.length_map _

/-- The blocks in a row are the bytes, as long as there may be so long a string. -/
theorem appendBlocks_eq (hi : (bytes.take i).length ≤ limit) :
    appendBlocks limit bytes i (fromCharCode (bytes.take i)) =
      if limit < bytes.length then .error "Invalid string length" else .ok (fromCharCode bytes) := by
  generalize hout : fromCharCode (bytes.take i) = out
  fun_induction appendBlocks limit bytes i out with
  | case1 i out hlt longer hlong =>
      have hlonger : longer = fromCharCode (bytes.take (i + block)) := by
        rw [List.take_add, fromCharCode_append, hout]
      rw [hlonger, length_fromCharCode] at hlong
      rw [if_pos (Nat.lt_of_lt_of_le hlong (List.length_take_le' _ _))]
  | case2 i out hlt longer hshort ih =>
      have hlonger : longer = fromCharCode (bytes.take (i + block)) := by
        rw [List.take_add, fromCharCode_append, hout]
      apply ih _ hlonger.symm
      rw [hlonger, length_fromCharCode] at hshort
      exact Nat.not_lt.mp hshort
  | case3 i out hend =>
      rw [List.take_of_length_le (Nat.not_lt.mp hend)] at hi hout
      rw [if_neg (Nat.not_lt.mpr hi), hout]

theorem binaryString_eq (limit : Nat) (text : String) : binaryString limit text =
    if limit < (utf8BinaryString text).length then .error "Invalid string length"
    else .ok (fromCharCode (utf8BinaryString text)) :=
  appendBlocks_eq (i := 0) (Nat.zero_le limit)

theorem binaryString_eq_ok {chars : List UInt16} : binaryString limit text = .ok chars ↔
    (utf8BinaryString text).length ≤ limit ∧ fromCharCode (utf8BinaryString text) = chars := by
  rw [binaryString_eq]
  split
  · rename_i hlong
    exact iff_of_false (by simp) fun h => Nat.not_le.mpr hlong h.1
  · rename_i hshort
    rw [Except.ok.injEq]
    exact (and_iff_right (Nat.not_lt.mp hshort)).symm

theorem encodePrompt_eq_ok {chars : List UInt16} : encodePrompt limit text contextSize label = .ok chars ↔
    binaryString limit text = .ok chars ∧ chars.length < contextSize := by
  rw [encodePrompt]
  cases binaryString limit text with
  | error error => exact iff_of_false nofun fun h => nomatch h.1
  | ok encoded =>
      show (if encoded.length ≥ contextSize then _ else _) = _ ↔ _
      rw [Except.ok.injEq]
      split
      · rename_i hlong
        refine iff_of_false nofun ?_
        rintro ⟨rfl, hshort⟩
        exact Nat.not_le.mpr hshort hlong
      · rename_i hshort
        show Except.ok encoded = Except.ok chars ↔ _
        rw [Except.ok.injEq]
        constructor
        · rintro rfl
          exact ⟨rfl, Nat.not_le.mp hshort⟩
        · exact And.left

/-- What the check comes to, for a string that there is. -/
theorem encodePrompt_error {chars : List UInt16} (h : binaryString limit text = .ok chars) :
    (∃ error, encodePrompt limit text contextSize label = .error error) ↔ contextSize ≤ chars.length := by
  cases hencode : encodePrompt limit text contextSize label with
  | error error =>
      refine iff_of_true ⟨error, rfl⟩ (Nat.not_lt.mp fun hshort => ?_)
      rw [encodePrompt_eq_ok.mpr ⟨h, hshort⟩] at hencode
      cases hencode
  | ok chars' =>
      obtain ⟨hchars, hshort⟩ := encodePrompt_eq_ok.mp hencode
      cases h.symm.trans hchars
      refine iff_of_false (fun ⟨error, herror⟩ => nomatch herror) (Nat.not_le.mpr hshort)

/-! ### What C++ is given -/

/-- A string that fits into `nCtx` bytes with its NUL, and is the text in UTF-8. -/
structure Fitting (nCtx : Nat) (text : String) (chars : List UInt16) : Prop where
  length : chars.length ≤ nCtx - 1 ∧ 0 < nCtx
  codes : ∀ code ∈ chars, code.toNat ≤ 255
  bytes : chars.map UInt16.toUInt8 = text.toUTF8.data.toList

/-- The size that the adapter checks against, by the one that C++ takes. -/
def checkedSize (nCtx : Nat) : Nat := if double nCtx < 2 ^ 1024 then nCtx else DEFAULT_CONTEXT_SIZE

/-- How prompts go with a buffer of `nCtx` bytes. -/
structure Fits (limit : Nat) (args : List String) (nCtx : Nat) : Prop where
  prompt : ∀ text label chars,
    encodePrompt limit text (contextSizeFromArgs (some args)) label = .ok chars → Fitting nCtx text chars
  systemPrompt : ∀ systemPrompt contextSize chars,
    startRequester limit (some args) systemPrompt = .ok (contextSize, chars) →
      contextSize = contextSizeFromArgs (some args) ∧ Fitting nCtx (systemPrompt.getD "") chars
  /-- Each prompt that C++ is given in a run went through the check. -/
  answers : ∀ es s, (requester (contextSizeFromArgs (some args))).run initial es = some s →
    ∀ callback encoded, (callback, encoded) ∈ s.answers → encoded.length ≤ limit → encoded = [] ∨
      ∃ text ≠ "", encodePrompt limit text (contextSizeFromArgs (some args)) "prompt" =
        .ok (fromCharCode encoded) ∧ Fitting nCtx text (fromCharCode encoded)
  check : ∀ text label chars, binaryString limit text = .ok chars →
    ((∃ error, encodePrompt limit text (contextSizeFromArgs (some args)) label = .error error) ↔
      checkedSize nCtx ≤ text.toUTF8.size)

theorem Fitting.of_ok {nCtx : Nat} {chars : List UInt16} (h : encodePrompt limit text contextSize label = .ok chars)
    (hsize : (utf8BinaryString text).length < contextSize → (utf8BinaryString text).length < nCtx) :
    Fitting nCtx text chars := by
  obtain ⟨hchars, hshort⟩ := encodePrompt_eq_ok.mp h
  obtain ⟨-, rfl⟩ := binaryString_eq_ok.mp hchars
  rw [length_fromCharCode] at hshort
  have hfits := hsize hshort
  refine ⟨?_, ?_, ?_⟩
  · rw [length_fromCharCode]
    omega
  · intro code hcode
    obtain ⟨byte, -, rfl⟩ := List.mem_map.mp hcode
    rw [UInt8.toNat_toUInt16]
    exact Nat.le_of_lt_succ byte.toNat_lt
  · rw [← utf8BinaryString_eq, fromCharCode, List.map_map]
    conv_rhs => rw [← List.map_id (utf8BinaryString text)]
    apply List.map_congr_left
    intro byte _
    exact UInt8.toUInt8_toUInt16 byte

theorem checkedSize_of_lt {nCtx : Nat} (h : nCtx < 2 ^ 53) : checkedSize nCtx = nCtx := by
  rw [checkedSize, Gguf.double_of_lt h, if_pos]
  exact h.trans_le (pow_le_pow_right₀ one_le_two (by decide))

theorem checkedSize_le (nCtx : Nat) : checkedSize nCtx ≤ nCtx := by
  by_cases h : nCtx < 2 ^ 53
  · rw [checkedSize_of_lt h]
  · rw [checkedSize]
    split
    · exact Nat.le_refl nCtx
    · exact Nat.le_trans (by decide) (Nat.not_lt.mp h)

/-- The adapter and C++ agree on what is too long. -/
theorem contextSizeFromArgs_le_iff (hflags : Flags valued) (hnumbered : Numbered args)
    (hclear : ValuesClear valued args) (peerIds : List String) {length : Nat} (hlength : length < 2 ^ 53) :
    contextSizeFromArgs (some args) ≤ length ↔
      checkedSize (scanArgs valued DEFAULT_CONTEXT_SIZE (moduleArguments (some args) peerIds)) ≤ length := by
  rw [contextSizeFromArgs_eq, scanArgs_moduleArguments hflags hnumbered hclear]
  cases hsize : lastSize args with
  | none =>
      rw [Option.elim_none, Option.elim_none, checkedSize_of_lt (by decide)]
  | some size =>
      have hnumeral := lastSize_numeral hnumbered hsize
      have hpos : 0 < decimal size := hnumeral.pos
      rw [Option.elim_some, Option.elim_some, parseInt_numeral hnumeral, acceptedSize_round hpos, checkedSize]
      split
      · exact double_le_iff hlength
      · exact Iff.rfl

/-- Each answer of a run is empty or a prompt of its own that went through the check. -/
theorem answers_encoded {es : List Event} {s : State} (hrun : (requester contextSize).run initial es = some s)
    {callback : Nat} {encoded : List UInt8} (h : (callback, encoded) ∈ s.answers) :
    encoded = [] ∨ ∃ text ≠ "", encoded = utf8BinaryString text ∧ encoded.length < contextSize := by
  refine run_history_along (P := fun _ s => ∀ callback encoded, (callback, encoded) ∈ s.answers → encoded = [] ∨
    ∃ text ≠ "", encoded = utf8BinaryString text ∧ encoded.length < contextSize) ?_ ?_
    (along_of_forall (fun _ _ => trivial) initial es) hrun callback encoded h
  · intro callback encoded h
    exact absurd h List.not_mem_nil
  · intro es s e t hrun hs _ hstep callback encoded h
    have hstart : (requester contextSize).start.stopRequested = false := rfl
    have hes : s.stopRequested = true ↔ .stop ∈ es := by
      simp [run_stopRequested hrun, hstart]
    cases answers_of_step (inv_of_reachable ⟨es, hrun⟩) hes hstep with
    | nothing hsame => exact hs callback encoded (hsame ▸ h)
    | empty cb hanswers =>
        rw [hanswers, List.mem_append, List.mem_singleton] at h
        apply h.elim (hs callback encoded)
        intro heq
        exact .inl (congrArg Prod.snd heq)
    | prompt g cb call hover hanswers =>
        rw [hanswers, List.mem_append, List.mem_singleton] at h
        apply h.elim (hs callback encoded)
        intro heq
        cases heq
        obtain ⟨text, -, hne, hencoded, hlt⟩ := hover.own
        exact .inr ⟨text, hne, hencoded, hlt⟩

/-- **No prompt overflows the buffer**, and each arrives as its UTF-8. -/
theorem prompts_fit (limit : Fin (2 ^ 53)) (hflags : Flags valued) (hnumbered : Numbered args)
    (hclear : ValuesClear valued args) (peerIds : List String) :
    Fits limit args (scanArgs valued DEFAULT_CONTEXT_SIZE (moduleArguments (some args) peerIds)) := by
  have hle : ∀ {length : Nat}, length < 2 ^ 53 → (contextSizeFromArgs (some args) ≤ length ↔ _) :=
    fun {_} => contextSizeFromArgs_le_iff hflags hnumbered hclear peerIds
  generalize scanArgs valued DEFAULT_CONTEXT_SIZE (moduleArguments (some args) peerIds) = nCtx at hle
  have hprompt : ∀ text label chars,
      encodePrompt limit text (contextSizeFromArgs (some args)) label = .ok chars → Fitting nCtx text chars := by
    intro text label chars h
    apply Fitting.of_ok h
    intro hlt
    have hshort := (binaryString_eq_ok.mp (encodePrompt_eq_ok.mp h).1).1
    have hchecked := Nat.not_le.mp (mt (hle (by omega)).mpr (Nat.not_le.mpr hlt))
    exact Nat.lt_of_lt_of_le hchecked (checkedSize_le nCtx)
  refine ⟨hprompt, ?_, ?_, ?_⟩
  · intro systemPrompt contextSize chars h
    rw [startRequester] at h
    cases hencode : encodePrompt limit (systemPrompt.getD "") (contextSizeFromArgs (some args)) "systemPrompt" with
    | error error =>
        rw [hencode] at h
        cases h
    | ok encoded =>
        rw [hencode] at h
        cases h
        exact ⟨rfl, hprompt _ _ _ hencode⟩
  · intro es s hrun callback encoded h hlength
    apply (answers_encoded hrun h).imp_right
    rintro ⟨text, hne, rfl, hlt⟩
    have hencode : encodePrompt limit text (contextSizeFromArgs (some args)) "prompt" =
        .ok (fromCharCode (utf8BinaryString text)) :=
      encodePrompt_eq_ok.mpr ⟨binaryString_eq_ok.mpr ⟨hlength, rfl⟩, by rwa [length_fromCharCode]⟩
    exact ⟨text, hne, hencode, hprompt _ _ _ hencode⟩
  · intro text label chars h
    obtain ⟨hshort, rfl⟩ := binaryString_eq_ok.mp h
    rw [encodePrompt_error h, length_fromCharCode, hle (by omega), size_toUTF8]

/-- The second `-c` counts, the one among the peers does not. -/
def twoSizes : List String := ["-device", "cpu", "-c", "512", "-c", "8192"]

theorem prompts_fit_twoSizes : Fits (2 ^ 29 - 24) twoSizes 8192 := by
  have hflags : Flags fun flag => flag ∈ ["-rpc", "-m", "-device"] := ⟨by decide, by decide, by decide⟩
  have hnumbered : Numbered twoSizes := by decide
  have hclear : ValuesClear (fun flag => flag ∈ ["-rpc", "-m", "-device"]) twoSizes := by
    simp [ValuesClear, twoSizes]
  exact prompts_fit ⟨2 ^ 29 - 24, by decide⟩ hflags hnumbered hclear ["-c"]

/-- `parseInt` makes an infinity of it. -/
def hugeSize : List String := ["-c", String.ofList ('1' :: List.replicate 309 '0')]

def longPrompt : String := String.ofList (List.replicate 4096 'x')

theorem digits_append_zeros (chars : List Char) (n : Nat) :
    digits 10 (chars ++ List.replicate n '0') = digits 10 chars * 10 ^ n := by
  induction n with
  | zero => simp
  | succ n ih =>
      rw [List.replicate_succ', ← List.append_assoc, digits, List.foldl_append, ← digits, ih]
      show 10 * (digits 10 chars * 10 ^ n) + 0 = _
      rw [pow_succ]
      ring

/-- A one and `n` zeros. -/
def powerOfTen (n : Nat) : String := String.ofList ('1' :: List.replicate n '0')

theorem toList_powerOfTen (n : Nat) : (powerOfTen n).toList = ['1'] ++ List.replicate n '0' :=
  String.toList_ofList

theorem decimal_powerOfTen (n : Nat) : decimal (powerOfTen n) = 10 ^ n := by
  rw [decimal, toList_powerOfTen, digits_append_zeros]
  exact Nat.one_mul _

theorem numeral_powerOfTen (n : Nat) : Numeral (powerOfTen n) where
  ne_nil := by
    rw [toList_powerOfTen]
    exact List.cons_ne_nil _ _
  isDigit := by
    intro c hc
    rw [toList_powerOfTen, List.mem_append, List.mem_singleton, List.mem_replicate] at hc
    obtain rfl | ⟨-, rfl⟩ := hc <;> rfl
  pos := by
    rw [← decimal, decimal_powerOfTen]
    exact Nat.pow_pos (by decide)

theorem numbered_hugeSize : Numbered hugeSize := by
  intro i hi hflag
  cases i with
  | zero => exact numeral_powerOfTen 309
  | succ i =>
      have hzero : i = 0 := by
        change i + 1 < 2 at hi
        omega
      rw [hzero] at hflag
      have hsize : powerOfTen 309 = "-c" := Option.some.inj hflag
      have hchars := congrArg String.toList hsize
      rw [toList_powerOfTen] at hchars
      exact absurd (List.cons.inj hchars).1 (by decide)

theorem lastSize_hugeSize : lastSize hugeSize = some (powerOfTen 309) := rfl

theorem length_longPrompt : (utf8BinaryString longPrompt).length = 4096 := by
  have hlength : ∀ n, (utf8BinaryString (String.ofList (List.replicate n 'x'))).length = n := by
    intro n
    simp [utf8BinaryString, List.length_flatMap, show Char.utf8Size 'x' = 1 from rfl]
  exact hlength 4096

/-- A prompt that has place many times over is refused. -/
theorem encodePrompt_hugeSize :
    Numbered hugeSize ∧ ValuesClear (fun flag => flag ∈ ["-rpc", "-m"]) hugeSize ∧
      longPrompt.toUTF8.size < scanArgs (fun flag => flag ∈ ["-rpc", "-m"]) DEFAULT_CONTEXT_SIZE
        (moduleArguments (some hugeSize) []) ∧
      ∃ chars error, binaryString (2 ^ 29 - 24) longPrompt = .ok chars ∧
        encodePrompt (2 ^ 29 - 24) longPrompt (contextSizeFromArgs (some hugeSize)) "prompt" = .error error := by
  have hflags : Flags fun flag => flag ∈ ["-rpc", "-m"] := ⟨by decide, by decide, by decide⟩
  have hnumbered := numbered_hugeSize
  have hclear : ValuesClear (fun flag => flag ∈ ["-rpc", "-m"]) hugeSize := by
    rw [hugeSize, ValuesClear, if_pos rfl]
    trivial
  have hsize : scanArgs (fun flag => flag ∈ ["-rpc", "-m"]) DEFAULT_CONTEXT_SIZE
      (moduleArguments (some hugeSize) []) = 10 ^ 309 := by
    rw [scanArgs_moduleArguments hflags hnumbered hclear, lastSize_hugeSize, Option.elim_some, decimal_powerOfTen]
  have hchars : binaryString (2 ^ 29 - 24) longPrompt = .ok (fromCharCode (utf8BinaryString longPrompt)) :=
    binaryString_eq_ok.mpr ⟨by rw [length_longPrompt]; decide, rfl⟩
  have hchecked : checkedSize (10 ^ 309) = 4096 := by decide +kernel
  have hle : contextSizeFromArgs (some hugeSize) ≤ 4096 ↔ _ ≤ 4096 :=
    contextSizeFromArgs_le_iff hflags hnumbered hclear [] (by decide)
  rw [hsize, hchecked] at hle
  have hcontext : contextSizeFromArgs (some hugeSize) ≤ (fromCharCode (utf8BinaryString longPrompt)).length := by
    rw [length_fromCharCode, length_longPrompt]
    exact hle.mpr (Nat.le_refl _)
  obtain ⟨error, herror⟩ := (encodePrompt_error hchars).mpr hcontext
  refine ⟨hnumbered, hclear, ?_, _, error, hchars, herror⟩
  rw [hsize, size_toUTF8, length_longPrompt]
  exact lt_of_lt_of_le (by norm_num : 4096 < 10 ^ 4) (pow_le_pow_right₀ (by decide) (by decide))

end LlmRuntime.Requester

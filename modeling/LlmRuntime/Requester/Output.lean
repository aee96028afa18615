import LlmRuntime.Base.Transition
import LlmRuntime.Base.Utf8
import LlmRuntime.Requester.Model

/-!
# What the Runtime says

`createUtf8Output` of `runtime/llmlet-runtime.js` with its `TextDecoder`. The Runtime puts its answer out
byte by byte, and prints lines in between. Text that it puts out is shown character by character, as soon
as each is whole, whatever was put out before: a character that was cut costs one replacement character.
-/

namespace LlmRuntime.Requester

open Transition Utf8

/-! ### The decoder -/

/-- `new TextDecoder("utf-8")`. After a call without `stream` the next one starts a new stream. -/
structure TextDecoder where
  decoder : Decoder
  bomSeen : Bool
  doNotFlush : Bool

/-- A byte order mark at the start of a stream is left out. -/
def serialize (bomSeen : Bool) : List Char → List Char × Bool
  | [] => ([], bomSeen)
  | c :: rest => if bomSeen = false ∧ c = '\uFEFF' then (rest, true) else (c :: rest, true)

namespace TextDecoder

def initial : TextDecoder := ⟨.start, false, false⟩

/-- The stream that the next call goes on with. -/
def current (d : TextDecoder) : Decoder × Bool :=
  if d.doNotFlush then (d.decoder, d.bomSeen) else (.start, false)

/-- `decoder.decode(bytes, { stream })` -/
def decode (d : TextDecoder) (bytes : List UInt8) (stream : Bool) : List Char × TextDecoder :=
  let fed := d.current.1.feed bytes
  let shown := serialize d.current.2 (if stream then fed.1 else fed.1 ++ fed.2.pending)
  (shown.1, ⟨fed.2, shown.2, stream⟩)

end TextDecoder

/-! ### The output -/

/-- `texts` are the calls of `onText`. -/
structure Output where
  decoder : TextDecoder
  texts : List (List Char)

inductive OutputEvent where
  | line (value : List Char)
  | byte (value : Option Int)
  | flush

namespace Output

def initial : Output := ⟨.initial, []⟩

/-- `if (text) emit(onText, text)` -/
def emitText (s : Output) (given : List Char × TextDecoder) : Output :=
  ⟨given.2, if given.1 = [] then s.texts else s.texts ++ [given.1]⟩

def flush (s : Output) : Output := s.emitText (s.decoder.decode [] false)

def step (s : Output) : OutputEvent → Output
  | .line value => { s with texts := s.texts ++ [value ++ ['\n']] }
  | .byte none => s.flush
  -- `value & 0xff`
  | .byte (some value) => s.emitText (s.decoder.decode [UInt8.ofNat (value % 256).toNat] true)
  | .flush => s.flush

end Output

def output : Transition Output OutputEvent where
  start := .initial
  step s e := some (s.step e)

namespace Output

/-- All that has been shown. -/
def text (s : Output) : List Char := s.texts.flatten

/-- The Runtime puts out these bytes. -/
def write (s : Output) (bytes : List UInt8) : Output :=
  bytes.foldl (fun s byte => s.step (.byte (some byte.toNat))) s

/-- What a character that has not ended will be shown as. -/
def pending (s : Output) : List Char := s.decoder.current.1.pending

/-- What the stream makes of more characters. -/
def unmarked (s : Output) (chars : List Char) : List Char := (serialize s.decoder.current.2 chars).1

variable {s : Output} {chars : List Char} {bytes : List UInt8}

theorem text_emitText (s : Output) (given : List Char × TextDecoder) :
    (s.emitText given).text = s.text ++ given.1 := by
  rw [text, text, emitText]
  by_cases hempty : given.1 = []
  · rw [if_pos hempty, hempty, List.append_nil]
  · rw [if_neg hempty, List.flatten_append, List.flatten_singleton]

theorem serialize_append (bomSeen : Bool) (chars more : List Char) : serialize bomSeen (chars ++ more) =
    ((serialize bomSeen chars).1 ++ (serialize (serialize bomSeen chars).2 more).1,
      (serialize (serialize bomSeen chars).2 more).2) := by
  have htrue : ∀ more, serialize true more = (more, true) := by
    intro more
    cases more with
    | nil => rfl
    | cons c rest => rw [serialize, if_neg (by simp)]
  cases chars with
  | nil => rfl
  | cons c rest =>
      rw [List.cons_append, serialize, serialize]
      split
      · rw [htrue]
      · rw [htrue, List.cons_append]

/-- One byte. -/
theorem step_byte (s : Output) (byte : UInt8) :
    (s.step (.byte (some byte.toNat))).text = s.text ++ s.unmarked (s.decoder.current.1.feed [byte]).1 ∧
      (s.step (.byte (some byte.toNat))).decoder.current = ((s.decoder.current.1.feed [byte]).2,
        (serialize s.decoder.current.2 (s.decoder.current.1.feed [byte]).1).2) := by
  have hbyte : UInt8.ofNat ((byte.toNat : Int) % 256).toNat = byte := by
    have hlt := byte.toNat_lt
    have hmod : ((byte.toNat : Int) % 256).toNat = byte.toNat := by omega
    rw [hmod, UInt8.ofNat_toNat]
  rw [step, hbyte, text_emitText]
  exact ⟨rfl, rfl⟩

/-- Bytes one by one are as good as bytes at once. -/
theorem write_eq (s : Output) (bytes : List UInt8) :
    (s.write bytes).text = s.text ++ s.unmarked (s.decoder.current.1.feed bytes).1 ∧
      (s.write bytes).decoder.current = ((s.decoder.current.1.feed bytes).2,
        (serialize s.decoder.current.2 (s.decoder.current.1.feed bytes).1).2) := by
  induction bytes generalizing s with
  | nil => exact ⟨(List.append_nil _).symm, rfl⟩
  | cons byte bytes ih =>
      obtain ⟨hfirst, hcurrent⟩ := step_byte s byte
      obtain ⟨htext, hrest⟩ := ih (s.step (.byte (some byte.toNat)))
      have hsplit := s.decoder.current.1.feed_append [byte] bytes
      rw [List.singleton_append] at hsplit
      have hwrite : s.write (byte :: bytes) = (s.step (.byte (some byte.toNat))).write bytes := rfl
      rw [hwrite, htext, hrest, hfirst, hsplit, unmarked, unmarked, unmarked, hcurrent, serialize_append,
        List.append_assoc]
      exact ⟨rfl, rfl⟩

theorem flush_eq (s : Output) : s.flush.text = s.text ++ s.unmarked s.pending ∧
    s.flush.decoder.current = (.start, false) := by
  rw [flush, text_emitText]
  exact ⟨rfl, rfl⟩

/-! ### What is shown -/

/-- Every call of `onText` shows something, and the decoder has not gone astray. -/
structure Sane (s : Output) : Prop where
  valid : s.decoder.current.1.Valid
  texts : [] ∉ s.texts

theorem Sane.initial : Sane .initial := ⟨.start, List.not_mem_nil⟩

theorem not_mem_emitText (htexts : [] ∉ s.texts) (given : List Char × TextDecoder) :
    [] ∉ (s.emitText given).texts := by
  rw [emitText]
  by_cases hempty : given.1 = []
  · rw [if_pos hempty]
    exact htexts
  · rw [if_neg hempty, List.mem_append, List.mem_singleton, not_or]
    exact ⟨htexts, fun h => hempty h.symm⟩

theorem Sane.step (h : Sane s) (e : OutputEvent) : Sane (s.step e) := by
  have hflush : Sane s.flush := by
    refine ⟨?_, not_mem_emitText h.texts _⟩
    rw [(flush_eq s).2]
    exact .start
  cases e with
  | line value => exact ⟨h.valid, by simp [Output.step, h.texts]⟩
  | flush => exact hflush
  | byte value =>
      cases value with
      | none => exact hflush
      | some value => exact ⟨Decoder.feed_valid h.valid _, not_mem_emitText h.texts _⟩

/-- What can be relied on in a state. -/
structure Shows (s : Output) : Prop where
  /-- Text that is put out is shown at once, after what was pending. -/
  text : ∀ prompt : String, prompt ≠ "" →
    (s.write (utf8BinaryString prompt)).text = s.text ++ s.unmarked (s.pending ++ prompt.toList) ∧
      (s.write (utf8BinaryString prompt)).pending = []
  /-- Only a mark at the start of a stream is not. -/
  unmarked : ∀ chars, s.unmarked chars = chars ∨
    s.decoder.current.2 = false ∧ chars = '\uFEFF' :: s.unmarked chars
  pending : s.pending = [] ∨ s.pending = [replacement]
  /-- Text that is cut shows its whole characters, and the rest at the end. -/
  cut : s.pending = [] → ∀ prompt : String, ∀ n, ∃ k, Decoder.Ends prompt.toList n k ∧
    (s.write ((utf8BinaryString prompt).take n)).flush.text = s.text ++ s.unmarked (prompt.toList.take k ++
      if (Decoder.encode (prompt.toList.take k)).length = min n (utf8BinaryString prompt).length then []
      else [replacement])
  flush : s.flush.text = s.text ++ s.pending ∧ s.flush.pending = []
  /-- A line is shown at once and leaves the decoder alone, with all it has of a character. -/
  line : ∀ value, (s.step (.line value)).text = s.text ++ value ++ ['\n'] ∧
    (s.step (.line value)).decoder = s.decoder
  nonempty : [] ∉ s.texts
  /-- A character that ends has a number of Unicode. -/
  scalar : ∀ byte, s.decoder.current.1.lower ≤ byte ∧ byte ≤ s.decoder.current.1.upper →
    s.decoder.current.1.seen + 1 = s.decoder.current.1.needed →
      (s.decoder.current.1.codePoint * 64 + byte % 64).isValidChar

theorem unmarked_cases (s : Output) (chars : List Char) : s.unmarked chars = chars ∨
    s.decoder.current.2 = false ∧ chars = '\uFEFF' :: s.unmarked chars := by
  cases chars with
  | nil => exact .inl rfl
  | cons c rest =>
      rw [unmarked, serialize]
      split
      · rename_i hmark
        exact .inr ⟨hmark.1, by rw [hmark.2]⟩
      · exact .inl rfl

theorem pending_cases (s : Output) : s.pending = [] ∨ s.pending = [replacement] := by
  rw [pending, Decoder.pending]
  split
  · exact .inl rfl
  · exact .inr rfl

theorem unmarked_pending (s : Output) : s.unmarked s.pending = s.pending := by
  rcases pending_cases s with hpending | hpending
  · rw [hpending]
    rfl
  · rw [hpending, unmarked, serialize, if_neg (by simp [replacement])]

theorem decoder_eq_start (h : s.decoder.current.1.Valid) (hpending : s.pending = []) :
    s.decoder.current.1 = .start := by
  rcases h with hstart | ⟨left, hmidway⟩
  · exact hstart
  · rw [pending, Decoder.pending, if_neg hmidway.needed_ne] at hpending
    cases hpending

theorem Sane.shows (h : Sane s) : Shows s where
  text prompt hprompt := by
    have hchars : prompt.toList ≠ [] := fun hnil => hprompt (String.toList_eq_nil_iff.mp hnil)
    have hfeed := Decoder.feed_encode h.valid hchars
    obtain ⟨htext, hcurrent⟩ := write_eq s (utf8BinaryString prompt)
    rw [utf8BinaryString] at htext hcurrent ⊢
    rw [Decoder.encode] at hfeed
    rw [hfeed] at htext hcurrent
    refine ⟨htext, ?_⟩
    rw [Output.pending, hcurrent]
    rfl
  unmarked := unmarked_cases s
  pending := pending_cases s
  cut hpending prompt n := by
    obtain ⟨k, hends, hgives, hrest⟩ := Decoder.feed_take_encode prompt.toList n
    refine ⟨k, hends, ?_⟩
    obtain ⟨htext, hcurrent⟩ := write_eq s ((utf8BinaryString prompt).take n)
    rw [decoder_eq_start h.valid hpending] at htext hcurrent
    have hbytes : utf8BinaryString prompt = Decoder.encode prompt.toList := rfl
    rw [hbytes] at htext hcurrent ⊢
    rw [(flush_eq _).1, htext, Output.pending, Output.unmarked, Output.unmarked, Output.unmarked, hcurrent, hgives,
      hrest, serialize_append, List.append_assoc]
  flush := by
    obtain ⟨htext, hcurrent⟩ := flush_eq s
    rw [htext, unmarked_pending]
    refine ⟨rfl, ?_⟩
    rw [Output.pending, hcurrent]
    rfl
  line value := by
    refine ⟨?_, rfl⟩
    rw [Output.step, Output.text, Output.text, List.flatten_append, List.flatten_singleton, List.append_assoc]
  nonempty := h.texts
  scalar byte hbounds hlast :=
    Decoder.push_isValidChar h.valid (by rw [← hlast]; exact Nat.succ_ne_zero _) hbounds hlast

end Output

/-- **What is put out is shown**, in every state that bytes, lines and flushes in any order lead to. -/
theorem output_shows (es : List OutputEvent) (s : Output) (hrun : output.run output.start es = some s) :
    s.Shows := by
  have hsane : s.Sane := by
    refine run_keeps (fun s e t hs hstep => ?_) Output.Sane.initial hrun
    cases hstep
    exact hs.step e
  exact hsane.shows

/-- Half a character, a line, and then text. -/
def halfACharacter : List OutputEvent := [.byte (some 0xE3), .byte (some 0x81), .line ['o', 'k']]

theorem output_shows_halfACharacter : ∃ s, output.run output.start halfACharacter = some s ∧
    (s.write (utf8BinaryString "あ")).text = ['o', 'k', '\n', '\uFFFD', 'あ'] := by
  obtain ⟨s, hrun, htext, hpending, hcurrent⟩ : ∃ s, output.run output.start halfACharacter = some s ∧
      s.text = ['o', 'k', '\n'] ∧ s.pending = [replacement] ∧ s.decoder.current.2 = false :=
    ⟨_, rfl, rfl, rfl, rfl⟩
  refine ⟨s, hrun, ?_⟩
  rw [((output_shows halfACharacter s hrun).text "あ" (by decide)).1, htext, hpending, Output.unmarked, hcurrent]
  rfl

end LlmRuntime.Requester

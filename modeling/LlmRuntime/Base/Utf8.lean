import Mathlib.Data.List.Basic
import Mathlib.Data.List.Infix

/-!
# Decoding UTF-8 byte by byte

The decoder of the Encoding Standard: it takes one byte at a time, gives a character as soon as its last
byte is there, and a replacement character for what cannot be continued. It starts anew with every byte
that begins a character, so that text comes out whole after whatever came before it.
-/

namespace Utf8

def replacement : Char := '\uFFFD'

/-- The variables of the decoder; `needed` is zero between characters. -/
structure Decoder where
  codePoint : Nat
  seen : Nat
  needed : Nat
  lower : Nat
  upper : Nat
  deriving DecidableEq, Repr

namespace Decoder

def start : Decoder := ⟨0, 0, 0, 0x80, 0xBF⟩

/-- A byte between two characters. -/
def lead (byte : Nat) : List Char × Decoder :=
  if byte ≤ 0x7F then ([Char.ofNat byte], start)
  else if 0xC2 ≤ byte ∧ byte ≤ 0xDF then ([], ⟨byte % 32, 0, 1, 0x80, 0xBF⟩)
  else if 0xE0 ≤ byte ∧ byte ≤ 0xEF then
    ([], ⟨byte % 16, 0, 2, if byte = 0xE0 then 0xA0 else 0x80, if byte = 0xED then 0x9F else 0xBF⟩)
  else if 0xF0 ≤ byte ∧ byte ≤ 0xF4 then
    ([], ⟨byte % 8, 0, 3, if byte = 0xF0 then 0x90 else 0x80, if byte = 0xF4 then 0x8F else 0xBF⟩)
  else ([replacement], start)

/-- What a byte gives, and the decoder after it. -/
def push (d : Decoder) (byte : Nat) : List Char × Decoder :=
  if d.needed = 0 then lead byte
  else if d.lower ≤ byte ∧ byte ≤ d.upper then
    if d.seen + 1 = d.needed then ([Char.ofNat (d.codePoint * 64 + byte % 64)], start)
    else ([], ⟨d.codePoint * 64 + byte % 64, d.seen + 1, d.needed, 0x80, 0xBF⟩)
  else
    -- the byte is looked at again as the first one of a character
    (replacement :: (lead byte).1, (lead byte).2)

def feed (d : Decoder) : List UInt8 → List Char × Decoder
  | [] => ([], d)
  | byte :: bytes =>
      ((d.push byte.toNat).1 ++ (feed (d.push byte.toNat).2 bytes).1, (feed (d.push byte.toNat).2 bytes).2)

/-- What the end of the input gives. -/
def pending (d : Decoder) : List Char := if d.needed = 0 then [] else [replacement]

variable {d : Decoder} {byte : Nat} {bytes more : List UInt8} {c : Char}

theorem feed_append (d : Decoder) (bytes more : List UInt8) : d.feed (bytes ++ more) =
    ((d.feed bytes).1 ++ ((d.feed bytes).2.feed more).1, ((d.feed bytes).2.feed more).2) := by
  induction bytes generalizing d with
  | nil => rfl
  | cons byte bytes ih =>
      rw [List.cons_append, feed, ih]
      simp only [feed, List.append_assoc]

/-! ### The decoder's variables -/

/-- What the variables are in the middle of a character: whatever may still come makes the number of a
character. `left` is how many bytes are missing. -/
inductive Midway : Decoder → (left : Nat) → Prop where
  | last (codePoint seen needed lower upper : Nat) (hseen : seen + 1 = needed) (hlower : 0x80 ≤ lower)
      (hupper : upper ≤ 0xBF) (hvalid : codePoint < 0x360 ∨ 0x380 ≤ codePoint ∧ codePoint < 0x4400) :
      Midway ⟨codePoint, seen, needed, lower, upper⟩ 1
  | second (codePoint seen needed lower upper : Nat) (hseen : seen + 2 = needed) (hlower : 0x80 ≤ lower)
      (hupper : upper ≤ 0xBF) (hlt : codePoint < 0x110)
      (hsurrogate : codePoint = 13 → upper ≤ 0x9F) : Midway ⟨codePoint, seen, needed, lower, upper⟩ 2
  | third (codePoint lower upper : Nat) (hlower : 0x80 ≤ lower) (hupper : upper ≤ 0xBF)
      (hle : codePoint ≤ 4) (hleast : codePoint = 0 → 0x90 ≤ lower) (hlast : codePoint = 4 → upper ≤ 0x8F) :
      Midway ⟨codePoint, 0, 3, lower, upper⟩ 3

/-- What is kept: between characters the decoder is as at the start. -/
def Valid (d : Decoder) : Prop := d = start ∨ ∃ left, Midway d left

theorem Valid.start : Valid start := .inl rfl

theorem Midway.needed_ne {left : Nat} (h : Midway d left) : d.needed ≠ 0 := by
  cases h with
  | last _ _ _ _ _ hseen => exact fun hzero => by simp only at hzero; omega
  | second _ _ _ _ _ hseen => exact fun hzero => by simp only at hzero; omega
  | third => exact Nat.succ_ne_zero 2

/-- Only bytes that cannot begin a character continue one. -/
theorem Midway.bounds {left : Nat} (h : Midway d left) : 0x80 ≤ d.lower ∧ d.upper ≤ 0xBF := by
  cases h with
  | last _ _ _ _ _ _ hlower hupper => exact ⟨hlower, hupper⟩
  | second _ _ _ _ _ _ hlower hupper => exact ⟨hlower, hupper⟩
  | third _ _ _ hlower hupper => exact ⟨hlower, hupper⟩

theorem lead_valid (byte : Nat) : Valid (lead byte).2 := by
  unfold lead
  split
  · exact .start
  · split
    · exact .inr ⟨1, .last _ _ _ _ _ rfl (Nat.le_refl _) (Nat.le_refl _) (.inl (by omega))⟩
    · split
      · refine .inr ⟨2, .second _ _ _ _ _ rfl ?_ ?_ (by omega) ?_⟩
        · split <;> omega
        · split <;> omega
        · intro hsurrogate
          rw [if_pos (by omega)]
      · split
        · refine .inr ⟨3, .third _ _ _ ?_ ?_ (by omega) ?_ ?_⟩
          · split <;> omega
          · split <;> omega
          · intro hzero
            rw [if_pos (by omega)]
          · intro hfour
            rw [if_pos (by omega)]
        · exact .start

theorem push_valid (h : Valid d) (byte : Nat) : Valid (d.push byte).2 := by
  unfold push
  split
  · exact lead_valid byte
  · rename_i hneeded
    split
    · rename_i hbounds
      split
      · exact .start
      · rename_i hseen
        rcases h with rfl | ⟨left, hmidway⟩
        · exact absurd rfl hneeded
        · cases hmidway with
          | last _ _ _ _ _ hlast => exact absurd hlast hseen
          | second codePoint seen needed lower upper hsecond _ _ hlt hsurrogate =>
              dsimp only at hbounds ⊢
              refine .inr ⟨1, .last _ _ _ _ _ (by omega) (Nat.le_refl _) (Nat.le_refl _) ?_⟩
              by_cases hcode : codePoint = 13
              · have hupper := hsurrogate hcode
                omega
              · omega
          | third codePoint lower upper _ _ hle hleast hlast =>
              dsimp only at hbounds ⊢
              refine .inr ⟨2, .second _ _ _ _ _ rfl (Nat.le_refl _) (Nat.le_refl _) ?_ ?_⟩
              · by_cases hcode : codePoint = 4
                · have hupper := hlast hcode
                  omega
                · omega
              · intro hthirteen
                have hlower := hleast (by omega)
                omega
    · exact lead_valid byte

theorem feed_valid (h : Valid d) (bytes : List UInt8) : Valid (d.feed bytes).2 := by
  induction bytes generalizing d with
  | nil => exact h
  | cons byte bytes ih => exact ih (push_valid h byte.toNat)

/-- The number of a finished character is one of Unicode. -/
theorem push_isValidChar (h : Valid d) (hneeded : d.needed ≠ 0) (hbounds : d.lower ≤ byte ∧ byte ≤ d.upper)
    (hlast : d.seen + 1 = d.needed) : (d.codePoint * 64 + byte % 64).isValidChar := by
  rcases h with rfl | ⟨left, hmidway⟩
  · exact absurd rfl hneeded
  · cases hmidway with
    | last codePoint _ _ _ _ _ _ _ hvalid =>
        dsimp only at hbounds ⊢
        unfold Nat.isValidChar
        omega
    | second _ _ _ _ _ hsecond =>
        dsimp only at hlast
        omega
    | third => cases hlast

/-! ### Text comes back -/

theorem push_last (codePoint seen lower upper : Nat) (h : lower ≤ byte ∧ byte ≤ upper) :
    push ⟨codePoint, seen, seen + 1, lower, upper⟩ byte = ([Char.ofNat (codePoint * 64 + byte % 64)], start) := by
  rw [push, if_neg (Nat.succ_ne_zero seen), if_pos h, if_pos rfl]

theorem push_more (codePoint seen left lower upper : Nat) (h : lower ≤ byte ∧ byte ≤ upper) :
    push ⟨codePoint, seen, seen + left + 2, lower, upper⟩ byte =
      ([], ⟨codePoint * 64 + byte % 64, seen + 1, seen + left + 2, 0x80, 0xBF⟩) := by
  rw [push, if_neg (Nat.succ_ne_zero _), if_pos h, if_neg (by dsimp only; omega)]

theorem lead_two (h : 0xC2 ≤ byte ∧ byte ≤ 0xDF) : lead byte = ([], ⟨byte % 32, 0, 1, 0x80, 0xBF⟩) := by
  rw [lead, if_neg (by omega), if_pos h]

theorem lead_three (h : 0xE0 ≤ byte ∧ byte ≤ 0xEF) : lead byte =
    ([], ⟨byte % 16, 0, 2, if byte = 0xE0 then 0xA0 else 0x80, if byte = 0xED then 0x9F else 0xBF⟩) := by
  rw [lead, if_neg (by omega), if_neg (by omega), if_pos h]

theorem lead_four (h : 0xF0 ≤ byte ∧ byte ≤ 0xF4) : lead byte =
    ([], ⟨byte % 8, 0, 3, if byte = 0xF0 then 0x90 else 0x80, if byte = 0xF4 then 0x8F else 0xBF⟩) := by
  rw [lead, if_neg (by omega), if_neg (by omega), if_neg (by omega), if_pos h]

/-- A byte that continues nothing ends what is pending. -/
theorem push_lead (h : Valid d) (hbyte : byte < 0x80 ∨ 0xC0 ≤ byte) :
    d.push byte = (d.pending ++ (lead byte).1, (lead byte).2) := by
  rcases h with rfl | ⟨left, hmidway⟩
  · rfl
  · have hbounds := hmidway.bounds
    rw [push, if_neg hmidway.needed_ne, if_neg (by omega), pending, if_neg hmidway.needed_ne]
    rfl

/-- The bytes of a character as numbers. -/
def codes (v : Nat) : List Nat :=
  if v ≤ 0x7F then [v]
  else if v ≤ 0x7FF then [v / 64 % 32 + 0xC0, v % 64 + 0x80]
  else if v ≤ 0xFFFF then [v / 4096 % 16 + 0xE0, v / 64 % 64 + 0x80, v % 64 + 0x80]
  else [v / 262144 % 8 + 0xF0, v / 4096 % 64 + 0x80, v / 64 % 64 + 0x80, v % 64 + 0x80]

theorem toNat_utf8EncodeChar (c : Char) : (String.utf8EncodeChar c).map UInt8.toNat = codes c.toNat := by
  have hmod : ∀ n, n < 256 → (UInt8.ofNat n).toNat = n := fun n hn => by simp [Nat.mod_eq_of_lt hn]
  show (String.utf8EncodeChar c).map UInt8.toNat = codes c.val.toNat
  unfold String.utf8EncodeChar codes
  dsimp only
  split
  · rw [List.map_singleton, hmod _ (by omega)]
  · split
    · rw [List.map_cons, List.map_singleton, hmod _ (by omega), hmod _ (by omega)]
    · split
      · rw [List.map_cons, List.map_cons, List.map_singleton, hmod _ (by omega), hmod _ (by omega),
          hmod _ (by omega)]
      · rw [List.map_cons, List.map_cons, List.map_cons, List.map_singleton, hmod _ (by omega),
          hmod _ (by omega), hmod _ (by omega), hmod _ (by omega)]

/-- `feed` over bytes that are given as numbers. -/
def feedCodes (d : Decoder) : List Nat → List Char × Decoder
  | [] => ([], d)
  | byte :: bytes =>
      ((d.push byte).1 ++ (feedCodes (d.push byte).2 bytes).1, (feedCodes (d.push byte).2 bytes).2)

theorem feed_eq (d : Decoder) (bytes : List UInt8) : d.feed bytes = d.feedCodes (bytes.map UInt8.toNat) := by
  induction bytes generalizing d with
  | nil => rfl
  | cons byte bytes ih => rw [List.map_cons, feed, feedCodes, ih]

/-- The bytes take the decoder from one state to the next, and none of them but the last gives anything. -/
inductive Spells : Decoder → List Nat → Char → Prop where
  | last (d : Decoder) (byte : Nat) (c : Char) (h : d.push byte = ([c], start)) : Spells d [byte] c
  | more (d : Decoder) (byte : Nat) (e : Decoder) (bytes : List Nat) (c : Char) (h : d.push byte = ([], e))
      (hneeded : e.needed ≠ 0) (hrest : Spells e bytes c) : Spells d (byte :: bytes) c

theorem push_start (byte : Nat) : start.push byte = lead byte := rfl

theorem spells_codes {v : Nat} (hvalid : v.isValidChar) : Spells start (codes v) (Char.ofNat v) := by
  unfold Nat.isValidChar at hvalid
  unfold codes
  split
  · rename_i hone
    apply Spells.last
    rw [push_start, lead, if_pos hone]
  · split
    · refine .more _ _ _ _ _ ((push_start _).trans (lead_two (by omega))) (Nat.succ_ne_zero 0) ?_
      refine .last _ _ _ ?_
      rw [push_last _ _ _ _ (by omega)]
      congr 3
      omega
    · split
      · have hbounds : (if v / 4096 % 16 + 0xE0 = 0xE0 then 0xA0 else 0x80) ≤ v / 64 % 64 + 0x80 ∧
            v / 64 % 64 + 0x80 ≤ if v / 4096 % 16 + 0xE0 = 0xED then 0x9F else 0xBF := by
          constructor
          · split <;> omega
          · split <;> omega
        refine .more _ _ _ _ _ ((push_start _).trans (lead_three (by omega))) (Nat.succ_ne_zero 1) ?_
        refine .more _ _ _ _ _ (push_more _ 0 0 _ _ hbounds) (Nat.succ_ne_zero 1) ?_
        refine .last _ _ _ ?_
        rw [push_last _ _ _ _ (by omega)]
        congr 3
        omega
      · have hbounds : (if v / 262144 % 8 + 0xF0 = 0xF0 then 0x90 else 0x80) ≤ v / 4096 % 64 + 0x80 ∧
            v / 4096 % 64 + 0x80 ≤ if v / 262144 % 8 + 0xF0 = 0xF4 then 0x8F else 0xBF := by
          constructor
          · split <;> omega
          · split <;> omega
        refine .more _ _ _ _ _ ((push_start _).trans (lead_four (by omega))) (Nat.succ_ne_zero 2) ?_
        refine .more _ _ _ _ _ (push_more _ 0 1 _ _ hbounds) (Nat.succ_ne_zero 2) ?_
        refine .more _ _ _ _ _ (push_more _ 1 0 _ _ (by omega)) (Nat.succ_ne_zero 2) ?_
        refine .last _ _ _ ?_
        rw [push_last _ _ _ _ (by omega)]
        congr 3
        omega

theorem Spells.feedCodes {bytes : List Nat} (h : Spells d bytes c) : d.feedCodes bytes = ([c], start) := by
  induction h with
  | last d byte c h => rw [Decoder.feedCodes, h, Decoder.feedCodes, List.append_nil]
  | more d byte e bytes c h _ _ ih => rw [Decoder.feedCodes, h, ih, List.nil_append]

/-- A character that has not ended is pending. -/
theorem Spells.feedCodes_take {bytes : List Nat} (h : Spells d bytes c) {k : Nat} (hlt : k < bytes.length)
    (hk : 0 < k) :
    (d.feedCodes (bytes.take k)).1 = [] ∧ (d.feedCodes (bytes.take k)).2.pending = [replacement] := by
  induction h generalizing k with
  | last d byte c h =>
      rw [List.length_singleton] at hlt
      omega
  | more d byte e bytes c h hneeded _ ih =>
      obtain ⟨k, rfl⟩ := Nat.exists_eq_add_of_lt hk
      rw [Nat.zero_add, List.length_cons, Nat.succ_lt_succ_iff] at hlt
      rw [Nat.zero_add, List.take_succ_cons, Decoder.feedCodes, h, List.nil_append]
      cases k with
      | zero =>
          rw [List.take_zero]
          exact ⟨rfl, if_neg hneeded⟩
      | succ k => exact ih hlt (Nat.succ_pos k)

theorem codes_ne_nil (v : Nat) : codes v ≠ [] := by
  unfold codes
  split
  · exact List.cons_ne_nil _ _
  · split
    · exact List.cons_ne_nil _ _
    · split <;> exact List.cons_ne_nil _ _

theorem head_codes {v : Nat} {rest : List Nat} (h : codes v = byte :: rest) : byte < 0x80 ∨ 0xC0 ≤ byte := by
  unfold codes at h
  split at h
  · rw [List.cons.injEq] at h
    omega
  · split at h
    · rw [List.cons.injEq] at h
      omega
    · split at h <;> (rw [List.cons.injEq] at h; omega)

/-- A character ends what is pending and comes out whole. -/
theorem feed_utf8EncodeChar (h : Valid d) (c : Char) :
    d.feed (String.utf8EncodeChar c) = (d.pending ++ [c], start) := by
  have hspells := spells_codes (v := c.toNat) c.valid
  rw [Char.ofNat_toNat] at hspells
  have hstart := hspells.feedCodes
  rw [feed_eq, toNat_utf8EncodeChar]
  obtain ⟨byte, rest, hcodes⟩ := List.exists_cons_of_ne_nil (codes_ne_nil c.toNat)
  rw [hcodes, feedCodes, push_start] at hstart
  rw [hcodes, feedCodes, push_lead h (head_codes hcodes)]
  rw [Prod.mk.injEq] at hstart
  rw [List.append_assoc, hstart.1, hstart.2]

def encode (text : List Char) : List UInt8 := text.flatMap String.utf8EncodeChar

/-- **Text comes back**, whatever was fed before it. -/
theorem feed_encode (h : Valid d) {text : List Char} (htext : text ≠ []) :
    d.feed (encode text) = (d.pending ++ text, start) := by
  induction text generalizing d with
  | nil => exact absurd rfl htext
  | cons c text ih =>
      rw [encode, List.flatMap_cons, feed_append, feed_utf8EncodeChar h]
      by_cases hrest : text = []
      · rw [hrest]
        simp [feed]
      · have hnext := ih Valid.start hrest
        rw [encode] at hnext
        rw [hnext]
        simp [pending, start]

/-- Of a text's characters, `k` end within its first `n` bytes. -/
structure Ends (text : List Char) (n k : Nat) : Prop where
  le_length : k ≤ text.length
  fits : (encode (text.take k)).length ≤ n
  most : ∀ m ≤ text.length, (encode (text.take m)).length ≤ n → m ≤ k

theorem length_encode_take_succ (c : Char) (text : List Char) (k : Nat) :
    (encode ((c :: text).take (k + 1))).length =
      (String.utf8EncodeChar c).length + (encode (text.take k)).length := by
  rw [List.take_succ_cons, encode, List.flatMap_cons, List.length_append, encode]

theorem Ends.cons {c : Char} {text : List Char} {n k : Nat} (hle : (String.utf8EncodeChar c).length ≤ n)
    (h : Ends text (n - (String.utf8EncodeChar c).length) k) : Ends (c :: text) n (k + 1) where
  le_length := Nat.succ_le_succ h.le_length
  fits := by
    have hfits := h.fits
    rw [length_encode_take_succ]
    omega
  most m hm hfits := by
    cases m with
    | zero => exact Nat.zero_le _
    | succ m =>
        rw [length_encode_take_succ] at hfits
        exact Nat.succ_le_succ (h.most m (Nat.le_of_succ_le_succ hm) (by omega))

theorem Ends.zero {c : Char} {text : List Char} {n : Nat} (hlt : n < (String.utf8EncodeChar c).length) :
    Ends (c :: text) n 0 where
  le_length := Nat.zero_le _
  fits := Nat.zero_le n
  most m hm hfits := by
    cases m with
    | zero => exact Nat.le_refl 0
    | succ m =>
        rw [length_encode_take_succ] at hfits
        omega

/-- Text that is cut anywhere gives its whole characters, and one that is cut is pending. -/
theorem feed_take_encode (text : List Char) (n : Nat) : ∃ k, Ends text n k ∧
    (start.feed ((encode text).take n)).1 = text.take k ∧
    (start.feed ((encode text).take n)).2.pending =
      if (encode (text.take k)).length = min n (encode text).length then [] else [replacement] := by
  induction text generalizing n with
  | nil => exact ⟨0, ⟨Nat.le_refl 0, Nat.zero_le n, fun m hm _ => hm⟩, by simp [encode, feed, pending, start]⟩
  | cons c text ih =>
      have hchar := feed_utf8EncodeChar Valid.start c
      have hsplit : encode (c :: text) = String.utf8EncodeChar c ++ encode text := List.flatMap_cons
      rw [hsplit]
      by_cases hle : (String.utf8EncodeChar c).length ≤ n
      · obtain ⟨k, hends, hgives, hpending⟩ := ih (n - (String.utf8EncodeChar c).length)
        refine ⟨k + 1, hends.cons hle, ?_, ?_⟩
        · rw [List.take_append, List.take_of_length_le hle, feed_append, hchar, hgives]
          rfl
        · have hsplit' : encode (c :: text.take k) = String.utf8EncodeChar c ++ encode (text.take k) :=
            List.flatMap_cons
          rw [List.take_append, List.take_of_length_le hle, feed_append, hchar, hpending, List.take_succ_cons,
            hsplit', List.length_append, List.length_append]
          apply if_congr _ rfl rfl
          omega
      · have hlt : n < (String.utf8EncodeChar c).length := Nat.lt_of_not_le hle
        refine ⟨0, .zero hlt, ?_⟩
        rw [List.take_append_of_le_length (Nat.le_of_lt hlt), List.take_zero]
        by_cases hzero : n = 0
        · rw [hzero]
          simp [feed, pending, start, encode]
        · have hspells := spells_codes (v := c.toNat) c.valid
          rw [← toNat_utf8EncodeChar] at hspells
          obtain ⟨hnone, hsome⟩ := hspells.feedCodes_take (by rwa [List.length_map]) (Nat.pos_of_ne_zero hzero)
          rw [← List.map_take, ← feed_eq] at hnone hsome
          refine ⟨hnone, ?_⟩
          rw [hsome, if_neg]
          simp only [encode, List.flatMap_nil, List.length_nil, List.length_append]
          omega

end Decoder

end Utf8

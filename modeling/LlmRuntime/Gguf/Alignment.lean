import LlmRuntime.Base.Binary64
import LlmRuntime.Gguf.Rounds

/-!
# Where the tensor data starts

The alignment is `Number` of whatever value the file has under `general.alignment`, and the start of the
data is computed from it with a quotient and a product of doubles. Nothing looks at the alignment in
between. The start is right for every value that stands for a whole number from one on, as long as the
right start is a double at all, and for no other.
-/

namespace LlmRuntime.Gguf

open Binary64 (nearest)

/-! ### `Number` -/

/-- What a string may begin and end with around a number. -/
def isStrWhiteSpace (c : Char) : Bool :=
  c.toNat ∈ [9, 10, 11, 12, 13, 32, 0xa0, 0x1680, 0x2028, 0x2029, 0x202f, 0x205f, 0x3000, 0xfeff] ||
    (0x2000 ≤ c.toNat && c.toNat ≤ 0x200a)

def trim (chars : List Char) : List Char :=
  ((chars.dropWhile isStrWhiteSpace).reverse.dropWhile isStrWhiteSpace).reverse

def digitValue (c : Char) : Nat :=
  if c.isDigit then c.toNat - 48
  else if 'a' ≤ c ∧ c ≤ 'f' then c.toNat - 87
  else if 'A' ≤ c ∧ c ≤ 'F' then c.toNat - 55
  else 16

def digits (radix : Nat) (chars : List Char) : Nat :=
  chars.foldl (fun n c => radix * n + digitValue c) 0

/-- One digit at least, and nothing else. -/
def wholeDigits (radix : Nat) (chars : List Char) : Option Nat :=
  if chars ≠ [] ∧ chars.all (digitValue · < radix) then some (digits radix chars) else none

def radix (c : Char) : Option Nat :=
  if c = 'x' ∨ c = 'X' then some 16
  else if c = 'o' ∨ c = 'O' then some 8
  else if c = 'b' ∨ c = 'B' then some 2
  else none

inductive Literal where
  | infinity (negative : Bool)
  | number (negative : Bool) (magnitude : ℚ)

def exponentPart : List Char → Option ℤ
  | [] => some 0
  | c :: rest =>
      if c = 'e' ∨ c = 'E' then
        match rest with
        | '+' :: rest => (wholeDigits 10 rest).map Int.ofNat
        | '-' :: rest => (wholeDigits 10 rest).map fun n => -(n : ℤ)
        | rest => (wholeDigits 10 rest).map Int.ofNat
      else none

def unsignedDecimal (negative : Bool) (chars : List Char) : Option Literal :=
  if chars = "Infinity".toList then some (.infinity negative)
  else
    let whole := chars.takeWhile Char.isDigit
    let (fraction, rest) :=
      match chars.dropWhile Char.isDigit with
      | '.' :: rest => (rest.takeWhile Char.isDigit, rest.dropWhile Char.isDigit)
      | rest => ([], rest)
    if whole ++ fraction = [] then none
    else
      (exponentPart rest).map fun e : ℤ =>
        .number negative (digits 10 (whole ++ fraction) * 10 ^ (e - fraction.length))

/-- The number that a string says, before it is rounded. -/
def literal (text : String) : Option Literal :=
  match trim text.toList with
  | [] => some (.number false 0)
  | '+' :: rest => unsignedDecimal false rest
  | '-' :: rest => unsignedDecimal true rest
  | '0' :: c :: rest =>
      match radix c with
      | some r => (wholeDigits r rest).map fun n => .number false n
      | none => unsignedDecimal false ('0' :: c :: rest)
  | rest => unsignedDecimal false rest

/-- `Number(entry.value)`; the entry of an array has no `value`. -/
def number : Value → Binary64
  | .string text =>
      match literal text with
      | none => .nan
      | some (.infinity negative) => .infinite negative
      | some (.number negative magnitude) => .round negative magnitude
  | .scalar (.number n) => .ofInt n
  | .scalar (.bigint n) => .ofInt n
  | .scalar (.boolean b) => .ofInt (if b then 1 else 0)
  | .scalar (.float32 bits) => .ofBits32 bits
  | .scalar (.float64 bits) => .ofBits64 bits
  | .array _ _ _ => .nan

def binary64Doubles : Doubles Binary64 where
  thirtyTwo := .ofInt 32
  number := number
  ceilTo stop alignment := .mul (.ceil (.div (.ofInt stop) alignment)) alignment

example : number (.string " 0x20\n") = .ofInt 32 := by decide +kernel

example : number (.string "3.2e1") = .ofInt 32 := by decide +kernel

example : number (.string "32 bytes") = .nan := by decide +kernel

/-! ### Values that stand for a whole number -/

/-- Whole numbers are rounded as `double` rounds them. -/
theorem nearest_natCast_eq_double (n : Nat) : nearest (n : ℚ) = double n := by
  by_cases h : n < 2 ^ 53
  · rw [Binary64.nearest_natCast h.le, double_of_lt h]
  · have hlog : 53 ≤ n.log2 := (Nat.le_log2 (by omega)).mpr (Nat.not_lt.mp h)
    have hplace : Binary64.lastPlace (n : ℚ) = (n.log2 - 52 : ℕ) := by
      rw [Binary64.lastPlace, Int.log_natCast, ← Nat.log2_eq_log_two]
      omega
    rw [nearest, hplace, zpow_natCast, double, if_neg h]
    have hround := Rat.nearestEven_div n (Nat.two_pow_pos (n.log2 - 52))
    rw [Nat.cast_pow, Nat.cast_ofNat] at hround
    rw [hround]
    push_cast
    rfl

/-- What `Number` makes of the value is the whole number `a`, said by the bits, digits or letters of the
value. -/
def Value.Names : Value → Nat → Prop
  | .string text, a => ∃ magnitude, literal text = some (.number false magnitude) ∧ nearest magnitude = a
  | .scalar (.number n), a => 0 ≤ n ∧ double n.toNat = a
  | .scalar (.bigint n), a => 0 ≤ n ∧ double n.toNat = a
  | .scalar (.boolean b), a => (if b then 1 else 0) = a
  | .scalar (.float32 bits), a =>
      bits.msb = false ∧ (bits.extractLsb' 23 8).toNat ≠ 255 ∧
        Binary64.magnitude 23 (-149) (bits.extractLsb' 23 8).toNat (bits.extractLsb' 0 23).toNat = a
  | .scalar (.float64 bits), a =>
      bits.msb = false ∧ (bits.extractLsb' 52 11).toNat ≠ 2047 ∧
        Binary64.magnitude 52 (-1074) (bits.extractLsb' 52 11).toNat (bits.extractLsb' 0 52).toNat = a
  | .array _ _ _, _ => False

theorem ofInt_is {n : ℤ} {a : Nat} :
    (Binary64.ofInt n).Is a ↔ (0 ≤ n ∧ double n.toNat = a) ∧ a < 2 ^ 1024 := by
  rw [Binary64.ofInt, Binary64.round_is, nearest_natCast_eq_double, Nat.cast_inj, decide_eq_false_iff_not,
    Int.not_lt, and_assoc]
  apply and_congr_right
  intro h
  rw [show n.natAbs = n.toNat by omega]

theorem lt_of_is {x : Binary64} {a : Nat} (h : x.Is a) : a < 2 ^ 1024 := by
  obtain ⟨onGrid, -⟩ := h
  exact_mod_cast onGrid.lt

theorem number_is {v : Value} {a : Nat} : (number v).Is a ↔ v.Names a ∧ a < 2 ^ 1024 := by
  have hfloat : ∀ {x : Binary64} {p : Prop}, (x.Is a ↔ p) → (x.Is a ↔ p ∧ a < 2 ^ 1024) :=
    fun hiff => ⟨fun h => ⟨hiff.mp h, lt_of_is h⟩, fun h => hiff.mpr h.1⟩
  match v with
  | .string text =>
      rw [number, Value.Names]
      match literal text with
      | none =>
          constructor
          · rintro ⟨_, h⟩
            cases h
          · rintro ⟨⟨_, h, _⟩, _⟩
            cases h
      | some (.infinity negative) =>
          constructor
          · rintro ⟨_, h⟩
            cases h
          · rintro ⟨⟨_, h, _⟩, _⟩
            cases h
      | some (.number negative magnitude) =>
          dsimp only
          rw [Binary64.round_is, ← and_assoc]
          apply and_congr_left
          intro _
          simp
  | .scalar (.number n) => exact ofInt_is
  | .scalar (.bigint n) => exact ofInt_is
  | .scalar (.boolean b) =>
      rw [number, ofInt_is, Value.Names]
      apply and_congr_left
      intro _
      cases b <;> simp [double]
  | .scalar (.float32 bits) =>
      apply hfloat
      exact Binary64.ofFields_is (by decide) (by decide) (by decide) (by omega) (by omega)
  | .scalar (.float64 bits) =>
      apply hfloat
      exact Binary64.ofFields_is (by decide) (by decide) (by decide) (by omega) (by omega)
  | .array _ _ _ =>
      constructor
      · rintro ⟨_, h⟩
        cases h
      · rintro ⟨h, _⟩
        cases h

/-! ### The start of the data -/

variable {σ : Type} {source : Source σ} {ok : σ → Prop} {file : List UInt8} {s s' : σ}
  {decode : List UInt8 → String} {ν : Type} {doubles : Doubles ν}

/-- What the source returns is a typed array, so that no position is beyond a safe integer. -/
theorem descriptorsEnd_lt {h : Header ν} (hdelivers : source.Delivers ok file file.length) (hs : ok s)
    (hrun : readGgufHeader decode source doubles s = .ok h s') : h.descriptorsEnd < 2 ^ 53 := by
  obtain ⟨c, hheader, -⟩ := readGgufHeader_eq_ok.mp hrun
  have hkeeps : ok c.source ∧ c.offset < 2 ^ 53 := by
    apply (Built.header decode doubles).keeps (I := fun d => ok d.source ∧ d.offset < 2 ^ 53) hdelivers
      (fun d hd => hd.1) _ _ (c := ⟨s, 0, 0⟩) ⟨hs, Nat.two_pow_pos 53⟩ hheader
    · intro d n bytes s' hd _ hensure hs'
      obtain ⟨-, -, hlength, -⟩ := hdelivers.of_ok hd.1 hensure
      exact ⟨hs', Nat.lt_of_le_of_lt hlength bytes.length_lt⟩
    · intro d hd
      exact hd
  rw [header_descriptorsEnd hheader]
  exact hkeeps.2

theorem isLeast_ceil (d : Nat) {a : Nat} (ha : 0 < a) :
    IsLeast {m | a ∣ m ∧ d ≤ m} (⌈(d : ℚ) / a⌉₊ * a) := by
  have hpos : (0 : ℚ) < a := Nat.cast_pos.mpr ha
  have hceil : ∀ c : Nat, ⌈(d : ℚ) / a⌉₊ ≤ c ↔ d ≤ c * a := by
    intro c
    rw [Nat.ceil_le, div_le_iff₀ hpos]
    exact_mod_cast Iff.rfl
  refine ⟨⟨Nat.dvd_mul_left a _, (hceil _).mp (Nat.le_refl _)⟩, ?_⟩
  intro m hm
  obtain ⟨⟨c, rfl⟩, hle⟩ := hm
  rw [Nat.mul_comm] at hle ⊢
  exact Nat.mul_le_mul_left a ((hceil c).mpr hle)

theorem isLeast_le {d a start : Nat} (ha : 0 < a) (h : IsLeast {m | a ∣ m ∧ d ≤ m} start) :
    start ≤ a ∨ start ≤ d + a ∧ a ≤ d := by
  by_cases hle : d ≤ a
  · exact .inl (h.2 ⟨Nat.dvd_refl a, hle⟩)
  · right
    have hdiv := Nat.div_add_mod' d a
    have hmod := Nat.mod_lt d ha
    have hnext : start ≤ (d / a + 1) * a := by
      apply h.2
      refine ⟨Nat.dvd_mul_left a _, ?_⟩
      rw [Nat.succ_mul]
      omega
    rw [Nat.succ_mul] at hnext
    omega

theorem isLeast_lt {d a start : Nat} (hd : d < 2 ^ 53) (ha0 : 0 < a) (ha : a < 2 ^ 1024)
    (h : IsLeast {m | a ∣ m ∧ d ≤ m} start) : start < 2 ^ 1024 := by
  rcases isLeast_le ha0 h with hle | ⟨hle, had⟩
  · exact Nat.lt_of_le_of_lt hle ha
  · have hsmall : d + a ≤ 2 ^ 54 := by
      clear ha
      omega
    have hpow : (2 : Nat) ^ 54 < 2 ^ 1024 := pow_lt_pow_right₀ one_lt_two (by decide)
    exact (hle.trans hsmall).trans_lt hpow

/-- `a` is the alignment that the file asks for, or the one it has if it asks for none. -/
def Aligns (entry : Option Value) (a : Nat) : Prop :=
  match entry with
  | none => a = 32
  | some v => v.Names a

theorem alignment_is {entry : Option Value} {a : Nat} :
    (match entry with
      | none => binary64Doubles.thirtyTwo
      | some v => binary64Doubles.number v).Is a ↔ Aligns entry a ∧ a < 2 ^ 1024 := by
  match entry with
  | none =>
      show (Binary64.ofInt 32).Is a ↔ a = 32 ∧ a < 2 ^ 1024
      rw [ofInt_is, show double (32 : ℤ).toNat = 32 from rfl, eq_comm]
      apply and_congr_left
      intro _
      simp
  | some v => exact number_is

/-- The alignment is a whole number from one on, and the data starts at its next multiple, exactly if the
file asks for such a number and that multiple is a double. -/
theorem dataStart_iff {h : Header Binary64} (hdelivers : source.Delivers ok file file.length) (hs : ok s)
    (hrun : readGgufHeader decode source binary64Doubles s = .ok h s') :
    (∃ a start, 1 ≤ a ∧ h.alignment.Is a ∧ h.dataStart.Is start ∧
      IsLeast {m | a ∣ m ∧ h.descriptorsEnd ≤ m} start) ↔
    ∃ a start, 1 ≤ a ∧ a < 2 ^ 1024 ∧ Aligns (h.metadata.get "general.alignment") a ∧
      IsLeast {m | a ∣ m ∧ h.descriptorsEnd ≤ m} start ∧ double start = start := by
  have hend := descriptorsEnd_lt hdelivers hs hrun
  have hpos := le_descriptorsEnd hdelivers hs hrun
  obtain ⟨c, hheader, -⟩ := readGgufHeader_eq_ok.mp hrun
  obtain ⟨halignment, hdataStart⟩ := (header_fields hheader).2
  have his : ∀ a, h.alignment.Is a ↔ Aligns (h.metadata.get "general.alignment") a ∧ a < 2 ^ 1024 := by
    intro a
    rw [halignment]
    exact alignment_is
  -- the start is the right one, rounded
  have hstart : ∀ a start, 1 ≤ a → h.alignment.Is a → IsLeast {m | a ∣ m ∧ h.descriptorsEnd ≤ m} start →
      (h.dataStart.Is start ↔ double start = start) := by
    intro a start ha halign hleast
    have hround : h.dataStart = .round false ((⌈(h.descriptorsEnd : ℚ) / a⌉₊ * a : Nat) : ℚ) := by
      rw [hdataStart]
      exact Binary64.mul_ceil_div halign ha (by omega) hend
    rw [hround, (isLeast_ceil h.descriptorsEnd ha).unique hleast, Binary64.round_is,
      nearest_natCast_eq_double, Nat.cast_inj]
    exact ⟨fun hround => hround.2.1,
      fun hdouble => ⟨rfl, hdouble, isLeast_lt hend ha (lt_of_is halign) hleast⟩⟩
  constructor
  · intro ⟨a, start, ha, halign, hdata, hleast⟩
    obtain ⟨haligns, hlt⟩ := (his a).mp halign
    exact ⟨a, start, ha, hlt, haligns, hleast, (hstart a start ha halign hleast).mp hdata⟩
  · intro ⟨a, start, ha, hlt, haligns, hleast, hdouble⟩
    have halign := (his a).mpr ⟨haligns, hlt⟩
    exact ⟨a, start, ha, halign, (hstart a start ha halign hleast).mpr hdouble, hleast⟩

theorem dataStart_smallFile : ∃ h s',
    readGgufHeader textDecoder (wholeFile smallFile) binary64Doubles () = .ok h s' ∧ ∃ a start, 1 ≤ a ∧ h.alignment.Is a ∧ h.dataStart.Is start ∧
      IsLeast {m | a ∣ m ∧ h.descriptorsEnd ≤ m} start := by
  obtain ⟨s', hrun⟩ := wholeFile_reads binary64Doubles smallHeader smallFile_prefix
  refine ⟨_, s', hrun, (dataStart_iff (delivers_wholeFile smallFile) trivial hrun).mpr ?_⟩
  refine ⟨64, 256, by decide, by decide +kernel, ⟨by decide, rfl⟩, ⟨⟨by decide, by decide +kernel⟩, ?_⟩, rfl⟩
  intro m ⟨⟨k, hk⟩, hle⟩
  have hend : (smallHeader.meaning binary64Doubles).descriptorsEnd = 217 := by decide +kernel
  omega

theorem noBom_alignment : Format.NoBom "general.alignment" := by decide

theorem short_alignment : (Format.utf8 "general.alignment").length < 2 ^ 53 := by decide

/-- A header whose alignment is zero. -/
def zeroHeader : Format.Header where
  version := 3
  metadata := [(⟨"general.alignment", noBom_alignment, short_alignment⟩, .scalar .uint32 0)]
  tensors := []
  version_eq := Format.version_three
  nodup := by decide
  metadata_short := by decide
  tensors_short := Format.short_nil

def zeroFile : Uint8Array where
  buffer := zeroHeader.encode
  byteOffset := 0
  length := zeroHeader.encode.length
  within := Nat.le_of_eq (Nat.zero_add _)
  indexable := by decide +kernel

/-- It is read without an error, and has a start that is no number. -/
theorem dataStart_zeroFile : ∃ h s',
    readGgufHeader textDecoder (wholeFile zeroFile) binary64Doubles () = .ok h s' ∧
      h.metadata.get "general.alignment" = some (.scalar (.number 0)) ∧ h.dataStart = .nan ∧
      ¬ ∃ a start, 1 ≤ a ∧ h.alignment.Is a ∧ h.dataStart.Is start ∧
        IsLeast {m | a ∣ m ∧ h.descriptorsEnd ≤ m} start := by
  have hfile : zeroHeader.encode <+: zeroFile.toList := by
    rw [Uint8Array.toList]
    exact ⟨[], by decide +kernel⟩
  obtain ⟨s', hrun⟩ := wholeFile_reads binary64Doubles zeroHeader hfile
  refine ⟨_, s', hrun, rfl, ?_, ?_⟩
  · decide +kernel
  · rintro ⟨a, start, ha, halign, -⟩
    have hzero : (0 ≤ (0 : ℤ) ∧ double (0 : ℤ).toNat = a) ∧ a < 2 ^ 1024 := ofInt_is.mp halign
    have heq : 0 = a := hzero.1.2
    omega

end LlmRuntime.Gguf

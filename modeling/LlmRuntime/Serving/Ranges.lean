import LlmRuntime.Serving.Model

/-!
# What is served for a range

An answer with status 206 has the bytes that its headers name. Which ones is what the digits of the request
say, as far as `int` takes them: more than `MAX_STR_DIGITS` of them are no number, and such a header is
ignored like any other that cannot be parsed.
-/

namespace LlmRuntime.Serving

/-! ### The copy loop -/

/-- The loop copies what is left of the range, in whatever number of reads. -/
theorem copyLoop_eq (content : List UInt8) (position remaining : Nat) :
    copyLoop content position remaining = content.segment position (position + remaining) := by
  induction remaining using Nat.strong_induction_on generalizing position with
  | h remaining ih =>
      rw [copyLoop]
      by_cases hpos : 0 < remaining
      · rw [if_pos hpos]
        dsimp only
        have hle : position + min COPY_CHUNK remaining ≤ position + remaining := by omega
        have hsplit := List.segment_append_rest (l := content)
          (Nat.le_add_right position (min COPY_CHUNK remaining)) hle
        have hlength := content.length_segment position (position + min COPY_CHUNK remaining)
        by_cases hempty : content.segment position (position + min COPY_CHUNK remaining) = []
        · have hchunk : 0 < COPY_CHUNK := by decide
          rw [if_pos hempty]
          apply Eq.symm
          apply List.eq_nil_of_length_eq_zero
          rw [hempty, List.length_nil] at hlength
          rw [List.length_segment]
          omega
        · rw [if_neg hempty]
          have hless := List.length_pos_iff.mpr hempty
          have hend : position + (content.segment position (position + min COPY_CHUNK remaining)).length +
              (remaining - (content.segment position (position + min COPY_CHUNK remaining)).length) =
                position + remaining := by omega
          rw [ih _ (by omega), hend]
          exact hsplit
      · rw [if_neg hpos, List.segment_of_le (by omega)]

/-! ### Numbers -/

/-- Digits and nothing else, no more than `int` takes. -/
structure Numeral (text : List Char) : Prop where
  ne_nil : text ≠ []
  isDigit : ∀ c ∈ text, c.isDigit
  length_le : text.length ≤ MAX_STR_DIGITS

def decimal (text : List Char) : Nat := Nat.ofDigitChars 10 text 0

theorem isSpace_of_isDigit {c : Char} (h : c.isDigit) : isSpace c = false := by
  have hrange := Char.isDigit_iff_toNat.mp h
  have hzero : '0'.toNat = 48 := rfl
  have hnine : '9'.toNat = 57 := rfl
  rw [hzero, hnine] at hrange
  simp only [isSpace, Bool.or_eq_false_iff, Bool.and_eq_false_iff, decide_eq_false_iff_not, beq_eq_false_iff_ne]
  omega

theorem isSpace_of_isNumberSpace {c : Char} (h : isNumberSpace c = true) : isSpace c = true := by
  simp only [isNumberSpace, isSpace, Bool.or_eq_true, Bool.and_eq_true, decide_eq_true_eq, beq_iff_eq] at h ⊢
  omega

theorem isNumberSpace_of_isDigit {c : Char} (h : c.isDigit) : isNumberSpace c = false := by
  rw [← Bool.not_eq_true]
  intro hspace
  exact Bool.false_ne_true ((isSpace_of_isDigit h).symm.trans (isSpace_of_isNumberSpace hspace))

theorem trim_eq_self {p : Char → Bool} {text : List Char} (h : ∀ c ∈ text, p c = false) : trim p text = text := by
  have hdrop : ∀ l : List Char, (∀ c ∈ l, p c = false) → l.dropWhile p = l := by
    intro l hl
    cases l with
    | nil => rfl
    | cons c rest =>
        apply List.dropWhile_cons_of_neg
        rw [hl c List.mem_cons_self]
        exact Bool.false_ne_true
  rw [trim, hdrop text h, hdrop _ fun c hc => h c (List.mem_reverse.mp hc), List.reverse_reverse]

theorem unsignedDigits_eq (afterDigit : Bool) {text : List Char} (h : ∀ c ∈ text, c.isDigit)
    (hne : text ≠ [] ∨ afterDigit = true) : unsignedDigits afterDigit text = some text := by
  induction text generalizing afterDigit with
  | nil =>
      rw [unsignedDigits, if_pos (hne.resolve_left fun hne => hne rfl)]
  | cons c rest ih =>
      rw [unsignedDigits, if_pos (h c List.mem_cons_self),
        ih true (fun c hc => h c (List.mem_cons_of_mem _ hc)) (.inr rfl)]
      rfl

variable {x y : List Char} {size : Nat}

theorem unsigned_eq (hne : x ≠ []) (h : ∀ c ∈ x, c.isDigit) :
    unsigned x = if x.length ≤ MAX_STR_DIGITS then some (decimal x) else none := by
  rw [unsigned, unsignedDigits_eq false h (.inl hne)]
  rfl

/-- `int` of digits. -/
theorem int_eq (hne : x ≠ []) (h : ∀ c ∈ x, c.isDigit) :
    int x = if x.length ≤ MAX_STR_DIGITS then some (decimal x : Int) else none := by
  have htrim : trim isNumberSpace x = x := trim_eq_self fun c hc => isNumberSpace_of_isDigit (h c hc)
  have hint : int x = (unsigned x).map fun n => (n : Int) := by
    rw [int, htrim]
    split
    · exact absurd (h '-' List.mem_cons_self) (by decide)
    · exact absurd (h '+' List.mem_cons_self) (by decide)
    · rfl
  rw [hint, unsigned_eq hne h]
  split <;> rfl

/-- A separator that `str.strip` would take is part of no number. -/
example : int ['1', Char.ofNat 28] = none ∧ int ['1', ' '] = some 1 := by decide

theorem Numeral.int_eq (h : Numeral x) : int x = some (decimal x : Int) := by
  rw [Serving.int_eq h.ne_nil h.isDigit, if_pos h.length_le]

/-! ### The three forms -/

theorem partition_eq (h : ∀ c ∈ x, c.isDigit) : partition (x ++ '-' :: y) = (x, true, y) := by
  have hdash : ∀ c ∈ x, (decide (c ≠ '-')) = true := by
    intro c hc
    apply decide_eq_true
    intro hdash
    exact absurd (hdash ▸ h c hc) (by decide)
  have htake : (x ++ '-' :: y).takeWhile (· ≠ '-') = x := by
    rw [List.takeWhile_append_of_pos hdash, List.takeWhile_cons_of_neg (by decide), List.append_nil]
  have hdrop : (x ++ '-' :: y).dropWhile (· ≠ '-') = '-' :: y := by
    rw [List.dropWhile_append_of_pos hdash, List.dropWhile_cons_of_neg (by decide)]
  have hmem : (x ++ '-' :: y).contains '-' = true :=
    List.contains_iff_mem.mpr (List.mem_append_right _ List.mem_cons_self)
  rw [partition, htake, hdrop, hmem, List.tail_cons]

/-- A header of digits and a dash comes apart at the dash. -/
theorem parseByteRange_form (hx : ∀ c ∈ x, c.isDigit) (hy : ∀ c ∈ y, c.isDigit) (size : Nat) :
    parseByteRange (BYTES ++ (x ++ '-' :: y)) size =
      if x = [] then
        match int y with
        | none => .ignore
        | some length => if length ≤ 0 then .unsatisfiable else clamp (max 0 (size - length)) (size - 1) size
      else
        match int x, if y = [] then some (size - 1 : Int) else int y with
        | some start, some stop => clamp start stop size
        | _, _ => .ignore := by
  have hprefix : BYTES.isPrefixOf (BYTES ++ (x ++ '-' :: y)) = true :=
    List.isPrefixOf_iff_prefix.mpr (List.prefix_append _ _)
  have hstrip : strip (x ++ '-' :: y) = x ++ '-' :: y := by
    apply trim_eq_self
    rw [List.forall_mem_append, List.forall_mem_cons]
    exact ⟨fun c hc => isSpace_of_isDigit (hx c hc), by decide, fun c hc => isSpace_of_isDigit (hy c hc)⟩
  have hcomma : (x ++ '-' :: y).contains ',' = false := by
    rw [← Bool.not_eq_true, List.contains_iff_mem, List.mem_append, List.mem_cons]
    intro hmem
    rcases hmem with hmem | heq | hmem
    · exact absurd (hx ',' hmem) (by decide)
    · exact absurd heq (by decide)
    · exact absurd (hy ',' hmem) (by decide)
  rw [parseByteRange, if_neg (not_not.mpr hprefix)]
  dsimp only
  rw [List.drop_left, hstrip, hcomma, if_neg Bool.false_ne_true]
  generalize hpair : partition (x ++ '-' :: y) = pair
  obtain rfl := (partition_eq hx).symm.trans hpair
  rfl

/-- `clamp` of whole numbers. What is after the end of the file may be anything. -/
theorem clamp_eq {start : Nat} {stop : Int} (hle : start ≤ stop ∨ stop = (size : Int) - 1) :
    clamp start stop size =
      if size ≤ start then .unsatisfiable else .range start ((min stop.toNat (size - 1) : Nat) : Int) := by
  rw [clamp]
  by_cases hstart : size ≤ start
  · rw [if_pos (.inl (by omega)), if_pos hstart]
  · have hmin : min stop ((size : Int) - 1) = ((min stop.toNat (size - 1) : Nat) : Int) := by omega
    rw [if_neg (by omega), if_neg hstart, hmin]

/-- `bytes=a-b` -/
theorem parseByteRange_closed (hx : Numeral x) (hy : Numeral y) (hle : decimal x ≤ decimal y) (size : Nat) :
    parseByteRange (BYTES ++ (x ++ '-' :: y)) size =
      if size ≤ decimal x then .unsatisfiable
      else .range (decimal x) ((min (decimal y) (size - 1) : Nat) : Int) := by
  rw [parseByteRange_form hx.isDigit hy.isDigit, if_neg hx.ne_nil, if_neg hy.ne_nil, hx.int_eq, hy.int_eq]
  exact clamp_eq (.inl (Int.ofNat_le.mpr hle))

/-- `bytes=a-` -/
theorem parseByteRange_open (hx : Numeral x) (size : Nat) :
    parseByteRange (BYTES ++ (x ++ ['-'])) size =
      if size ≤ decimal x then .unsatisfiable else .range (decimal x) ((size - 1 : Nat) : Int) := by
  have hlast : ((size : Int) - 1).toNat = size - 1 := by omega
  rw [parseByteRange_form hx.isDigit (fun c hc => absurd hc List.not_mem_nil), if_neg hx.ne_nil, if_pos rfl,
    hx.int_eq]
  dsimp only
  rw [clamp_eq (.inr rfl), hlast, Nat.min_self]

/-- `bytes=-k` -/
theorem parseByteRange_suffix (hy : Numeral y) (size : Nat) :
    parseByteRange (BYTES ++ '-' :: y) size =
      if decimal y = 0 ∨ size = 0 then .unsatisfiable
      else .range ((size - min (decimal y) size : Nat) : Int) ((size - 1 : Nat) : Int) := by
  have hform := parseByteRange_form (x := []) (fun c hc => absurd hc List.not_mem_nil) hy.isDigit size
  rw [List.nil_append, if_pos rfl, hy.int_eq] at hform
  rw [hform]
  dsimp only
  by_cases hzero : decimal y = 0
  · rw [if_pos (by omega), if_pos (.inl hzero)]
  have hstart : max 0 ((size : Int) - decimal y) = ((size - min (decimal y) size : Nat) : Int) := by omega
  have hlast : ((size : Int) - 1).toNat = size - 1 := by omega
  rw [if_neg (by omega), hstart, clamp_eq (.inr rfl), hlast, Nat.min_self]
  by_cases hsize : size = 0
  · rw [if_pos (by omega), if_pos (.inr hsize)]
  · rw [if_neg (by omega), if_neg (by omega)]

/-! ### The answers -/

/-- What `http.server` does on its own: it has no ranges, and `send_error(404)` is a 404. -/
structure Environment.Standard (env : Environment) : Prop where
  base_status : env.base.status ≠ 206
  notFound_status : env.notFound.status = 404

/-- The answer has the bytes from `start` to `stop`, and its headers are about these. -/
structure Response.Serves (response : Response) (content : List UInt8) (start stop : Nat) : Prop where
  status_eq : response.status = 206
  body_eq : response.body = content.segment start (stop + 1)
  length_eq : response.headers.filter (·.1 = "Content-Length") =
    [("Content-Length", toString response.body.length)]
  range_eq : response.headers.filter (·.1 = "Content-Range") =
    [("Content-Range", s!"bytes {start}-{stop}/{content.length}")]

/-- A range is inside the file. -/
theorem clamp_range {start stop first last : Int} (h : clamp start stop size = .range first last) :
    0 ≤ first ∧ first ≤ last ∧ last < size := by
  rw [clamp] at h
  by_cases hout : start ≥ size ∨ start < 0 ∨ stop < start
  · rw [if_pos hout] at h
    exact nomatch h
  · rw [if_neg hout] at h
    obtain ⟨rfl, rfl⟩ := Parsed.range.inj h
    omega

theorem parseByteRange_range {value : List Char} {first last : Int}
    (h : parseByteRange value size = .range first last) : 0 ≤ first ∧ first ≤ last ∧ last < size := by
  rw [parseByteRange] at h
  split at h
  · exact nomatch h
  dsimp only at h
  split at h
  · exact nomatch h
  split at h
  · exact nomatch h
  split at h
  · split at h
    · exact nomatch h
    · split at h
      · exact nomatch h
      · exact clamp_range h
  · split at h
    · exact clamp_range h
    · exact nomatch h

variable {file : ServedFile} {env : Environment} {value : List Char}

theorem ne_nil_of_parse (h : parseByteRange value size ≠ .ignore) : value ≠ [] := by
  intro hempty
  apply h
  rw [hempty]
  rfl

theorem status_respond (content : List UInt8) (head : Head) : (head.respond content).status = head.status := by
  cases head with
  | answered response => rfl
  | stream status headers position remaining => rfl

theorem status_unsatisfiable (env : Environment)
    (h : parseByteRange value file.content.length = .unsatisfiable) :
    (get file env (some value)).status = 416 := by
  have hne : value ≠ [] := ne_nil_of_parse (by rw [h]; exact fun h => nomatch h)
  rw [get, status_respond, sendHead]
  dsimp only
  rw [if_neg hne, h]
  rfl

theorem get_range {start stop : Nat} (hopens : env.opens = true)
    (h : parseByteRange value file.content.length = .range start stop) :
    (get file env (some value)).Serves file.content start stop := by
  obtain ⟨-, hle, hlt⟩ := parseByteRange_range h
  have hbody : copyfile file.content (start : Int).toNat (some ((stop : Int) - start + 1)) =
      file.content.segment start (stop + 1) := by
    have hend : start + ((stop : Int) - start + 1).toNat = stop + 1 := by omega
    rw [copyfile, copyLoop_eq, Int.toNat_natCast, hend]
  have hlength : toString ((stop : Int) - start + 1) =
      toString (file.content.segment start (stop + 1)).length := by
    have hcast : (stop : Int) - start + 1 = ((stop + 1 - start : Nat) : Int) := by omega
    rw [List.length_segment_of_le (by omega), hcast]
    rfl
  have hne : value ≠ [] := ne_nil_of_parse (by rw [h]; exact fun h => nomatch h)
  rw [get, sendHead]
  dsimp only
  rw [if_neg hne, h]
  dsimp only
  rw [if_pos hopens, Head.respond]
  refine ⟨rfl, hbody, ?_, ?_⟩
  · dsimp only
    rw [hbody, hlength]
    rfl
  · rfl

/-- Only a range is answered with a 206. -/
theorem exists_range_of_partial (henv : env.Standard) (h : (get file env (some value)).status = 206) :
    env.opens = true ∧ ∃ start stop : Nat,
      parseByteRange value file.content.length = .range start stop ∧ start ≤ stop ∧
        stop < file.content.length := by
  cases hparse : parseByteRange value file.content.length with
  | ignore =>
      rw [get, status_respond, sendHead] at h
      dsimp only at h
      rw [hparse, ite_self] at h
      exact absurd h henv.base_status
  | unsatisfiable =>
      rw [status_unsatisfiable env hparse] at h
      exact absurd h (by decide)
  | range first last =>
      have hne : value ≠ [] := ne_nil_of_parse (by rw [hparse]; exact fun h => nomatch h)
      obtain ⟨hfirst, hle, hlast⟩ := parseByteRange_range hparse
      rw [get, status_respond, sendHead] at h
      dsimp only at h
      rw [if_neg hne, hparse] at h
      dsimp only at h
      by_cases hopens : env.opens = true
      · refine ⟨hopens, first.toNat, last.toNat, ?_, by omega, by omega⟩
        rw [Int.toNat_of_nonneg hfirst, Int.toNat_of_nonneg (Int.le_trans hfirst hle)]
      · rw [if_neg hopens] at h
        exact absurd (henv.notFound_status.symm.trans h) (by decide)

/-- The header chooses the range from `start` to `stop`, or it is refused. -/
structure Chooses (file : ServedFile) (env : Environment) (value : List Char) (refused : Prop)
    (start stop : Nat) : Prop where
  status_iff : (get file env (some value)).status = 416 ↔ refused
  serves : ¬ refused → env.opens = true → (get file env (some value)).Serves file.content start stop

theorem chooses_of_parse {refused : Prop} [Decidable refused] {start stop : Nat} (henv : env.Standard)
    (h : parseByteRange value file.content.length = if refused then .unsatisfiable else .range start stop) :
    Chooses file env value refused start stop := by
  by_cases hrefused : refused
  · rw [if_pos hrefused] at h
    exact ⟨iff_of_true (status_unsatisfiable env h) hrefused, fun hnot => absurd hrefused hnot⟩
  · rw [if_neg hrefused] at h
    refine ⟨iff_of_false ?_ hrefused, fun _ hopens => get_range hopens h⟩
    intro hstatus
    have hne : value ≠ [] := ne_nil_of_parse (by rw [h]; exact fun h => nomatch h)
    rw [get, status_respond, sendHead] at hstatus
    dsimp only at hstatus
    rw [if_neg hne, h] at hstatus
    dsimp only at hstatus
    by_cases hopens : env.opens = true
    · rw [if_pos hopens] at hstatus
      exact absurd (show 206 = 416 from hstatus) (by decide)
    · rw [if_neg hopens] at hstatus
      exact absurd (henv.notFound_status.symm.trans hstatus) (by decide)

/-- Too many digits are no number. -/
theorem parseByteRange_long (hx : ∀ c ∈ x, c.isDigit) (hy : ∀ c ∈ y, c.isDigit)
    (hlong : MAX_STR_DIGITS < x.length ∨ MAX_STR_DIGITS < y.length) (size : Nat) :
    parseByteRange (BYTES ++ (x ++ '-' :: y)) size = .ignore := by
  have hlimit : 0 < MAX_STR_DIGITS := by decide
  have hint : ∀ text : List Char, (∀ c ∈ text, c.isDigit) → MAX_STR_DIGITS < text.length →
      text ≠ [] ∧ int text = none := by
    intro text htext hlength
    have hne : text ≠ [] := List.length_pos_iff.mp (Nat.lt_trans hlimit hlength)
    exact ⟨hne, by rw [int_eq hne htext, if_neg (Nat.not_le.mpr hlength)]⟩
  rw [parseByteRange_form hx hy]
  by_cases hempty : x = []
  · have hlong : MAX_STR_DIGITS < y.length := by
      rcases hlong with hlong | hlong
      · rw [hempty, List.length_nil] at hlong
        omega
      · exact hlong
    rw [if_pos hempty, (hint y hy hlong).2]
  · rw [if_neg hempty]
    rcases hlong with hlong | hlong
    · rw [(hint x hx hlong).2]
    · rw [if_neg (hint y hy hlong).1, (hint y hy hlong).2]
      cases int x with
      | none => rfl
      | some start => rfl

theorem numeral_toDigits {n : Nat} (h : n < 2 ^ 63) : Numeral (Nat.toDigits 10 n) where
  ne_nil := Nat.toDigits_ne_nil
  isDigit c hc := Nat.isDigit_of_mem_toDigits (by decide) (by decide) hc
  length_le := by
    rw [Nat.length_toDigits_le_iff (by decide) (by decide)]
    calc n < 2 ^ 63 := h
      _ ≤ 10 ^ 19 := by decide
      _ ≤ 10 ^ MAX_STR_DIGITS := Nat.pow_le_pow_right (by decide) (by decide)

theorem decimal_toDigits (n : Nat) : decimal (Nat.toDigits 10 n) = n := Nat.ofDigitChars_ten_toDigits

/-- The adapter's request. -/
theorem get_rangeHeader {start stop : Nat} (hopens : env.opens = true) (hlt : start < stop)
    (hle : stop ≤ file.content.length) :
    (get file env (some (rangeHeader start stop))).status = 206 ∧
      (get file env (some (rangeHeader start stop))).body = file.content.segment start stop ∧
      (get file env (some (rangeHeader start stop))).body.length = stop - start := by
  have hsize := file.size_lt
  have hfirst : Numeral (Nat.toDigits 10 start) := numeral_toDigits (by omega)
  have hlast : Numeral (Nat.toDigits 10 (stop - 1)) := numeral_toDigits (by omega)
  have hparse := parseByteRange_closed hfirst hlast (by rw [decimal_toDigits, decimal_toDigits]; omega)
    file.content.length
  have hmin : min (stop - 1) (file.content.length - 1) = stop - 1 := by omega
  rw [decimal_toDigits, decimal_toDigits, if_neg (by omega), hmin, ← List.append_assoc] at hparse
  have hserves := get_range hopens hparse
  have hend : stop - 1 + 1 = stop := by omega
  have hbody := hserves.body_eq
  rw [hend] at hbody
  refine ⟨hserves.status_eq, hbody, ?_⟩
  show (get file env (some (BYTES ++ Nat.toDigits 10 start ++ '-' :: Nat.toDigits 10 (stop - 1)))).body.length = _
  rw [hbody, List.length_segment_of_le hle]

/-- A partial answer is the part of the file that its headers name. Digits choose the range that they say,
unless there are too many of them. -/
theorem get_partialContent (file : ServedFile) (env : Environment) (henv : env.Standard) :
    (∀ value, (get file env (some value)).status = 206 → ∃ start stop, start ≤ stop ∧
      stop < file.content.length ∧ (get file env (some value)).Serves file.content start stop) ∧
    (∀ x y, Numeral x → Numeral y → decimal x ≤ decimal y →
      Chooses file env (BYTES ++ (x ++ '-' :: y)) (file.content.length ≤ decimal x)
        (decimal x) (min (decimal y) (file.content.length - 1))) ∧
    (∀ x, Numeral x → Chooses file env (BYTES ++ (x ++ ['-'])) (file.content.length ≤ decimal x)
      (decimal x) (file.content.length - 1)) ∧
    (∀ y, Numeral y → Chooses file env (BYTES ++ '-' :: y) (decimal y = 0 ∨ file.content.length = 0)
      (file.content.length - min (decimal y) file.content.length) (file.content.length - 1)) ∧
    (∀ x y, (∀ c ∈ x, c.isDigit) → (∀ c ∈ y, c.isDigit) →
      MAX_STR_DIGITS < x.length ∨ MAX_STR_DIGITS < y.length →
        get file env (some (BYTES ++ (x ++ '-' :: y))) = get file env none) ∧
    ∀ start stop, env.opens = true → start < stop → stop ≤ file.content.length →
      (get file env (some (rangeHeader start stop))).status = 206 ∧
        (get file env (some (rangeHeader start stop))).body = file.content.segment start stop ∧
        (get file env (some (rangeHeader start stop))).body.length = stop - start := by
  refine ⟨?_, ?_, ?_, ?_, ?_, ?_⟩
  · intro value hstatus
    obtain ⟨hopens, start, stop, hparse, hle, hlt⟩ := exists_range_of_partial henv hstatus
    exact ⟨start, stop, hle, hlt, get_range hopens hparse⟩
  · intro x y hx hy hle
    apply chooses_of_parse henv
    exact parseByteRange_closed hx hy hle _
  · intro x hx
    apply chooses_of_parse henv
    exact parseByteRange_open hx _
  · intro y hy
    apply chooses_of_parse henv
    exact parseByteRange_suffix hy _
  · intro x y hx hy hlong
    rw [get, get, sendHead, sendHead]
    dsimp only
    rw [parseByteRange_long hx hy hlong, ite_self]
  · intro start stop hopens hlt hle
    exact get_rangeHeader hopens hlt hle

def fourBytes : ServedFile := ⟨[71, 71, 85, 70], by decide⟩

/-- The file as `http.server` sends it. -/
def plain : Environment where
  base := .stream 200 [("Content-type", "application/octet-stream"), ("Content-Length", "4")] 0 none
  notFound := ⟨404, [], []⟩
  opens := true
  guessType := "application/octet-stream"
  lastModified := "Thu, 01 Jan 1970 00:00:00 GMT"

theorem plain_standard : plain.Standard := ⟨by decide, rfl⟩

theorem get_partialContent_fourBytes :
    (get fourBytes plain (some (rangeHeader 1 3))).status = 206 ∧
      (get fourBytes plain (some (rangeHeader 1 3))).body = [71, 85] := by
  have hadapter := (get_partialContent fourBytes plain plain_standard).2.2.2.2.2 1 3 rfl (by decide) (by decide)
  exact ⟨hadapter.1, hadapter.2.1⟩

/-- `bytes=0-99…9` is answered with the whole file. -/
theorem plain_long {y : List Char} (hy : ∀ c ∈ y, c.isDigit) (hlong : MAX_STR_DIGITS < y.length) (stop : Nat) :
    (get fourBytes plain (some (BYTES ++ (['0'] ++ '-' :: y)))).status = 200 ∧
      ¬ Chooses fourBytes plain (BYTES ++ (['0'] ++ '-' :: y)) (fourBytes.content.length ≤ decimal ['0'])
        (decimal ['0']) stop := by
  have hzero : ∀ c ∈ ['0'], c.isDigit := List.forall_mem_singleton.mpr rfl
  have hparse := parseByteRange_long hzero hy (.inr hlong) fourBytes.content.length
  have hstatus : (get fourBytes plain (some (BYTES ++ (['0'] ++ '-' :: y)))).status = 200 := by
    rw [get, status_respond, sendHead]
    dsimp only
    rw [hparse, ite_self]
    rfl
  refine ⟨hstatus, fun hchooses => ?_⟩
  have hserves := hchooses.serves (by decide) rfl
  exact absurd (hstatus.symm.trans hserves.status_eq) (by decide)

/-- One digit more than `int` takes. -/
theorem not_chooses_long : ∃ y : List Char, y ≠ [] ∧ (∀ c ∈ y, c.isDigit) ∧ decimal ['0'] ≤ decimal y ∧
    (get fourBytes plain (some (BYTES ++ (['0'] ++ '-' :: y)))).status = 200 ∧
    ¬ Chooses fourBytes plain (BYTES ++ (['0'] ++ '-' :: y)) (fourBytes.content.length ≤ decimal ['0'])
      (decimal ['0']) (min (decimal y) (fourBytes.content.length - 1)) := by
  have hnine : ∀ c ∈ List.replicate 4301 '9', c.isDigit := by
    intro c hc
    rw [List.eq_of_mem_replicate hc]
    rfl
  have hlong : MAX_STR_DIGITS < (List.replicate 4301 '9').length := by
    rw [List.length_replicate]
    decide
  have hne : List.replicate 4301 '9' ≠ [] := List.length_pos_iff.mp (Nat.lt_trans (by decide) hlong)
  obtain ⟨hstatus, hchooses⟩ := plain_long hnine hlong
    (min (decimal (List.replicate 4301 '9')) (fourBytes.content.length - 1))
  exact ⟨List.replicate 4301 '9', hne, hnine, Nat.zero_le _, hstatus, hchooses⟩

end LlmRuntime.Serving

import Mathlib.Algebra.Order.Floor.Semifield
import Mathlib.Data.Int.Log
import Mathlib.Data.Rat.Floor
import Mathlib.Tactic.FieldSimp
import Mathlib.Tactic.Linarith
import Mathlib.Tactic.Positivity

/-!
# Binary64 numbers

A number of the format is an infinity, no number, or a sign and a magnitude on the grid: a multiple of a
power of two with at most 53 digits. An operation is the exact one on rationals, rounded to the nearest
number, ties to even.
-/

/-! ### Rounding to a whole number -/

/-- The whole number nearest to `q`, the even one of two. -/
def Rat.nearestEven (q : ℚ) : ℕ :=
  let down := ⌊q⌋₊
  let rest := q - down
  if 1 / 2 < rest ∨ (rest = 1 / 2 ∧ down % 2 = 1) then down + 1 else down

namespace Rat

variable {q : ℚ} {k : ℕ}

theorem nearestEven_natCast (n : ℕ) : (n : ℚ).nearestEven = n := by
  rw [nearestEven, Nat.floor_natCast, sub_self, if_neg (by norm_num)]

theorem nearestEven_le (h : q ≤ k) : q.nearestEven ≤ k := by
  have hfloor : ⌊q⌋₊ ≤ k := Nat.floor_le_of_le h
  rw [nearestEven]
  split
  · rename_i hup
    apply Nat.succ_le_of_lt
    apply Nat.lt_of_le_of_ne hfloor
    intro heq
    have hrest : q - ⌊q⌋₊ ≤ 0 := by
      rw [heq]
      exact sub_nonpos.mpr h
    rcases hup with hup | hup
    · linarith
    · linarith [hup.1]
  · exact hfloor

theorem sub_half_le_nearestEven (q : ℚ) : q - 1 / 2 ≤ q.nearestEven := by
  have hlt := Nat.lt_floor_add_one q
  rw [nearestEven]
  split
  · push_cast
    linarith
  · rename_i hdown
    rw [not_or, not_lt] at hdown
    linarith [hdown.1]

/-- The fraction against a half, in whole numbers. -/
theorem nearestEven_div (n : ℕ) {u : ℕ} (hu : 0 < u) : ((n : ℚ) / u).nearestEven =
    if u < 2 * (n % u) ∨ (u = 2 * (n % u) ∧ n / u % 2 = 1) then n / u + 1 else n / u := by
  have hpos : (0 : ℚ) < u := Nat.cast_pos.mpr hu
  have hrest : (n : ℚ) / u - (n / u : ℕ) = (n % u : ℕ) / u := by
    have hdiv : (n : ℚ) = u * (n / u : ℕ) + (n % u : ℕ) := by exact_mod_cast (Nat.div_add_mod n u).symm
    rw [sub_eq_iff_eq_add, ← mul_div_cancel_left₀ ((n / u : ℕ) : ℚ) hpos.ne', ← add_div, add_comm,
      ← hdiv]
  have hlt : (1 / 2 : ℚ) < (n % u : ℕ) / u ↔ u < 2 * (n % u) := by
    rw [lt_div_iff₀ hpos, ← Nat.cast_lt (α := ℚ)]
    push_cast
    constructor <;> intro h <;> linarith
  have heq : ((n % u : ℕ) / u : ℚ) = 1 / 2 ↔ u = 2 * (n % u) := by
    rw [div_eq_iff hpos.ne', ← Nat.cast_inj (R := ℚ)]
    push_cast
    constructor <;> intro h <;> linarith
  rw [nearestEven, Nat.floor_div_eq_div, hrest]
  simp only [hlt, heq]

end Rat

/-! ### The grid -/

namespace Binary64

/-- The exponent of the last digit that is kept of `q`. -/
def lastPlace (q : ℚ) : ℤ := max (Int.log 2 q - 52) (-1074)

def nearest (q : ℚ) : ℚ := (q / 2 ^ lastPlace q).nearestEven * 2 ^ lastPlace q

variable {q : ℚ} {m : ℕ} {e : ℤ}

theorem two_zpow_pos (e : ℤ) : (0 : ℚ) < 2 ^ e := zpow_pos two_pos e

theorem nearest_nonneg (q : ℚ) : 0 ≤ nearest q :=
  mul_nonneg (Nat.cast_nonneg _) (two_zpow_pos _).le

theorem nearest_of_nonpos (h : q ≤ 0) : nearest q = 0 := by
  have hnonpos : q / 2 ^ lastPlace q ≤ (0 : ℕ) := by
    rw [Nat.cast_zero]
    exact div_nonpos_of_nonpos_of_nonneg h (two_zpow_pos _).le
  have hzero := Nat.le_zero.mp (Rat.nearestEven_le hnonpos)
  rw [nearest, hzero, Nat.cast_zero, zero_mul]

theorem lt_of_lastPlace (q : ℚ) : q / 2 ^ lastPlace q < 2 ^ 53 := by
  rw [div_lt_iff₀ (two_zpow_pos _), ← zpow_natCast (2 : ℚ) 53, ← zpow_add₀ two_ne_zero]
  apply lt_of_lt_of_le (Int.lt_zpow_succ_log_self one_lt_two q)
  rw [Nat.cast_ofNat]
  apply zpow_le_zpow_right₀ one_le_two
  have hle := le_max_left (Int.log 2 q - 52) (-1074)
  rw [← lastPlace] at hle
  push_cast
  omega

/-- What is rounded is on the grid. -/
theorem nearest_eq (q : ℚ) : ∃ m : ℕ, m ≤ 2 ^ 53 ∧ nearest q = m * 2 ^ lastPlace q := by
  refine ⟨_, Rat.nearestEven_le ?_, rfl⟩
  push_cast
  exact (lt_of_lastPlace q).le

/-- What is on the grid stays as it is. -/
theorem nearest_of_lastPlace_le (h : lastPlace (m * 2 ^ e) ≤ e) : nearest (m * 2 ^ e) = m * 2 ^ e := by
  have hdiv : (m * 2 ^ e : ℚ) / 2 ^ lastPlace (m * 2 ^ e) =
      (m * 2 ^ (e - lastPlace (m * 2 ^ e)).toNat : ℕ) := by
    rw [mul_div_assoc, ← zpow_sub₀ two_ne_zero, Nat.cast_mul, Nat.cast_pow, Nat.cast_ofNat,
      ← zpow_natCast, Int.toNat_of_nonneg (by omega)]
  rw [nearest, hdiv, Rat.nearestEven_natCast, ← hdiv, div_mul_cancel₀ _ (two_zpow_pos _).ne']

theorem nearest_grid (hm : m ≤ 2 ^ 53) (he : -1074 ≤ e) : nearest (m * 2 ^ e) = m * 2 ^ e := by
  rcases Nat.eq_zero_or_pos m with rfl | hpos
  · rw [Nat.cast_zero, zero_mul, nearest_of_nonpos le_rfl]
  rcases Nat.lt_or_eq_of_le hm with hlt | rfl
  · apply nearest_of_lastPlace_le
    apply max_le _ he
    rw [sub_le_iff_le_add]
    apply Int.lt_add_one_iff.mp
    apply (Int.lt_zpow_iff_log_lt one_lt_two (mul_pos (Nat.cast_pos.mpr hpos) (two_zpow_pos e))).mp
    rw [Nat.cast_ofNat, add_assoc, zpow_add₀ two_ne_zero, mul_comm]
    apply mul_lt_mul_of_pos_left _ (two_zpow_pos e)
    exact_mod_cast hlt
  · have hpow : ((2 ^ 53 : ℕ) : ℚ) * 2 ^ e = (1 : ℕ) * 2 ^ (53 + e) := by
      rw [zpow_add₀ two_ne_zero]
      norm_num
    rw [hpow]
    apply nearest_of_lastPlace_le
    rw [lastPlace, Nat.cast_one, one_mul]
    have hlog := Int.log_zpow (R := ℚ) one_lt_two (53 + e)
    rw [Nat.cast_ofNat] at hlog
    rw [hlog]
    omega

theorem nearest_nearest (q : ℚ) : nearest (nearest q) = nearest q := by
  obtain ⟨m, hm, heq⟩ := nearest_eq q
  rw [heq]
  exact nearest_grid hm (le_max_right _ _)

theorem nearest_natCast {n : ℕ} (h : n ≤ 2 ^ 53) : nearest n = n := by
  have hgrid := nearest_grid h (by norm_num : (-1074 : ℤ) ≤ 0)
  rwa [zpow_zero, mul_one] at hgrid

/-- From `2 ^ 53` on only whole numbers are on the grid. -/
theorem le_or_eq_natCast (h : nearest q = q) : q ≤ 2 ^ 53 ∨ ∃ n : ℕ, q = n := by
  obtain ⟨m, hm, heq⟩ := nearest_eq q
  rw [h] at heq
  by_cases hplace : 0 ≤ lastPlace q
  · right
    refine ⟨m * 2 ^ (lastPlace q).toNat, ?_⟩
    rw [Nat.cast_mul, Nat.cast_pow, Nat.cast_ofNat, ← zpow_natCast, Int.toNat_of_nonneg hplace]
    exact heq
  · left
    rw [heq]
    calc (m : ℚ) * 2 ^ lastPlace q ≤ 2 ^ 53 * 1 := by
          apply mul_le_mul (by exact_mod_cast hm) _ (two_zpow_pos _).le (by positivity)
          exact zpow_le_one_of_nonpos₀ one_le_two (by omega)
      _ = 2 ^ 53 := mul_one _

/-! ### A quotient of whole numbers -/

theorem lastPlace_nonpos (hq : 0 < q) (h : q < 2 ^ 53) : lastPlace q ≤ 0 := by
  apply max_le _ (by norm_num)
  have hlog : Int.log 2 q < 53 := by
    apply (Int.lt_zpow_iff_log_lt one_lt_two hq).mp
    rw [Nat.cast_ofNat]
    exact_mod_cast h
  omega

/-- The last digit of a quotient is worth less than two parts of the divisor. -/
theorem lastPlace_div {d a : ℕ} (hd : d < 2 ^ 53) (hd0 : 0 < d) (ha0 : 0 < a) (ha : a < 2 ^ 1024) :
    (2 : ℚ) ^ lastPlace (d / a) * a < 2 := by
  have hapos : (0 : ℚ) < a := Nat.cast_pos.mpr ha0
  have hdpos : (0 : ℚ) < d := Nat.cast_pos.mpr hd0
  rcases max_choice (Int.log 2 ((d : ℚ) / a) - 52) (-1074) with h | h
  · rw [lastPlace, h, zpow_sub₀ two_ne_zero]
    have hlog := Int.zpow_log_le_self one_lt_two (div_pos hdpos hapos)
    rw [Nat.cast_ofNat, le_div_iff₀ hapos] at hlog
    have hd' : (d : ℚ) < 2 ^ 53 := by exact_mod_cast hd
    rw [div_mul_eq_mul_div, div_lt_iff₀ (two_zpow_pos 52)]
    calc (2 : ℚ) ^ Int.log 2 ((d : ℚ) / a) * a ≤ d := hlog
      _ < 2 * 2 ^ (52 : ℤ) := by norm_num at hd' ⊢; exact hd'
  · rw [lastPlace, h]
    have ha' : (a : ℚ) < 2 ^ 1024 := by exact_mod_cast ha
    calc (2 : ℚ) ^ (-1074 : ℤ) * a < 2 ^ (-1074 : ℤ) * 2 ^ 1024 :=
          mul_lt_mul_of_pos_left ha' (two_zpow_pos _)
      _ = 2 ^ (-50 : ℤ) := by
          rw [← zpow_natCast (2 : ℚ) 1024, ← zpow_add₀ two_ne_zero]
          norm_num
      _ < 2 := by norm_num

/-- Rounding carries a quotient to no other whole number than the next one. -/
theorem ceil_nearest_div {d a : ℕ} (hd : d < 2 ^ 53) (hd0 : 0 < d) (ha0 : 0 < a) (ha : a < 2 ^ 1024) :
    ⌈nearest ((d : ℚ) / a)⌉₊ = ⌈(d : ℚ) / a⌉₊ := by
  have hapos : (0 : ℚ) < a := Nat.cast_pos.mpr ha0
  have hq : 0 < (d : ℚ) / a := div_pos (Nat.cast_pos.mpr hd0) hapos
  have hq53 : (d : ℚ) / a < 2 ^ 53 := by
    apply lt_of_le_of_lt (div_le_self (Nat.cast_nonneg d) (by exact_mod_cast ha0))
    exact_mod_cast hd
  have hplace := lastPlace_div hd hd0 ha0 ha
  have hnonpos := lastPlace_nonpos hq hq53
  obtain ⟨E, hE⟩ : ∃ E : ℕ, lastPlace ((d : ℚ) / a) = -E :=
    ⟨(-lastPlace ((d : ℚ) / a)).toNat, by omega⟩
  rw [hE, zpow_neg, zpow_natCast, inv_mul_lt_iff₀ (by positivity)] at hplace
  have hscale : nearest ((d : ℚ) / a) = ((d : ℚ) / a * 2 ^ E).nearestEven / 2 ^ E := by
    rw [nearest, hE, zpow_neg, zpow_natCast, div_inv_eq_mul, ← div_eq_mul_inv]
  have hpow : (0 : ℚ) < 2 ^ E := by positivity
  obtain ⟨k, hk⟩ : ∃ k, ⌈(d : ℚ) / a⌉₊ = k + 1 := Nat.exists_eq_add_one.mpr (Nat.ceil_pos.mpr hq)
  obtain ⟨hlow, hhigh⟩ := (Nat.ceil_eq_iff (Nat.succ_ne_zero k)).mp hk
  rw [hk, Nat.ceil_eq_iff (Nat.succ_ne_zero k), hscale, lt_div_iff₀ hpow, div_le_iff₀ hpow]
  rw [Nat.succ_sub_one] at hlow ⊢
  constructor
  · have hrest : k * a + 1 ≤ d := by
      rw [lt_div_iff₀ hapos] at hlow
      exact_mod_cast hlow
    have hrest' : (k : ℚ) * a + 1 ≤ d := by exact_mod_cast hrest
    have hround := Rat.sub_half_le_nearestEven ((d : ℚ) / a * 2 ^ E)
    have hfraction : 1 / 2 < (2 : ℚ) ^ E / a := by
      rw [lt_div_iff₀ hapos]
      linarith
    have hsum : (k : ℚ) * 2 ^ E + 2 ^ E / a ≤ (d : ℚ) / a * 2 ^ E := by
      calc (k : ℚ) * 2 ^ E + 2 ^ E / a = (k * a + 1) / a * 2 ^ E := by
            field_simp
        _ ≤ (d : ℚ) / a * 2 ^ E := by gcongr
    linarith
  · have hle := Rat.nearestEven_le (q := (d : ℚ) / a * 2 ^ E) (k := (k + 1) * 2 ^ E) (by
      push_cast
      exact mul_le_mul_of_nonneg_right (by exact_mod_cast hhigh) hpow.le)
    exact_mod_cast hle

/-! ### Numbers -/

/-- A magnitude of the format. -/
structure OnGrid (q : ℚ) : Prop where
  nonneg : 0 ≤ q
  lt : q < 2 ^ 1024
  nearest : nearest q = q

namespace OnGrid

theorem natCast {n : ℕ} (h : n ≤ 2 ^ 53) : OnGrid n where
  nonneg := Nat.cast_nonneg n
  lt := by
    calc (n : ℚ) ≤ 2 ^ 53 := by exact_mod_cast h
      _ < 2 ^ 1024 := pow_lt_pow_right₀ one_lt_two (by decide)
  nearest := nearest_natCast h

theorem round (h : Binary64.nearest q < 2 ^ 1024) : OnGrid (Binary64.nearest q) :=
  ⟨nearest_nonneg q, h, nearest_nearest q⟩

theorem ceil (h : OnGrid q) : OnGrid ⌈q⌉₊ := by
  rcases le_or_eq_natCast h.nearest with hle | ⟨n, rfl⟩
  · apply natCast
    apply Nat.ceil_le.mpr
    exact_mod_cast hle
  · rwa [Nat.ceil_natCast]

theorem floor (h : OnGrid q) : OnGrid ⌊q⌋₊ := by
  rcases le_or_eq_natCast h.nearest with hle | ⟨n, rfl⟩
  · apply natCast
    apply Nat.floor_le_of_le
    exact_mod_cast hle
  · rwa [Nat.floor_natCast]

end OnGrid

end Binary64

inductive Binary64 where
  | nan
  | infinite (negative : Bool)
  | finite (negative : Bool) (magnitude : ℚ) (onGrid : Binary64.OnGrid magnitude)
  deriving DecidableEq

namespace Binary64

def zero (negative : Bool) : Binary64 := .finite negative (0 : ℕ) (.natCast (Nat.zero_le _))

/-- The number nearest to `q`, which is no less than zero, under a sign. -/
def round (negative : Bool) (q : ℚ) : Binary64 :=
  if h : nearest q < 2 ^ 1024 then .finite negative (nearest q) (.round h) else .infinite negative

def ofInt (n : ℤ) : Binary64 := round (n < 0) n.natAbs

def mul : Binary64 → Binary64 → Binary64
  | .finite s a _, .finite t b _ => round (s != t) (a * b)
  | .finite s a _, .infinite t => if a = 0 then .nan else .infinite (s != t)
  | .infinite s, .finite t b _ => if b = 0 then .nan else .infinite (s != t)
  | .infinite s, .infinite t => .infinite (s != t)
  | .nan, _ => .nan
  | _, .nan => .nan

def div : Binary64 → Binary64 → Binary64
  | .finite s a _, .finite t b _ =>
      if b ≠ 0 then round (s != t) (a / b) else if a = 0 then .nan else .infinite (s != t)
  | .finite s _ _, .infinite t => zero (s != t)
  | .infinite s, .finite t _ _ => .infinite (s != t)
  | .infinite _, .infinite _ => .nan
  | .nan, _ => .nan
  | _, .nan => .nan

/-- The next whole number, which keeps the sign also at zero. -/
def ceil : Binary64 → Binary64
  | .finite false q h => .finite false ⌈q⌉₊ h.ceil
  | .finite true q h => .finite true ⌊q⌋₊ h.floor
  | x => x

/-- The magnitude of `fraction` bits under an exponent field; `width` is that of the fraction. -/
def magnitude (width : ℕ) (least : ℤ) (exponent fraction : ℕ) : ℚ :=
  if exponent = 0 then fraction * 2 ^ least else (2 ^ width + fraction : ℕ) * 2 ^ (least + exponent - 1)

/-- A float by its fields. `top` is the exponent of what is not finite. -/
def ofFields (width : ℕ) (least : ℤ) (top : ℕ) (negative : Bool) (exponent fraction : ℕ) : Binary64 :=
  if exponent = top then if fraction = 0 then .infinite negative else .nan
  else round negative (magnitude width least exponent fraction)

def ofBits64 (bits : BitVec 64) : Binary64 :=
  ofFields 52 (-1074) 2047 bits.msb (bits.extractLsb' 52 11).toNat (bits.extractLsb' 0 52).toNat

/-- The number that a float of 32 bits is. -/
def ofBits32 (bits : BitVec 32) : Binary64 :=
  ofFields 23 (-149) 255 bits.msb (bits.extractLsb' 23 8).toNat (bits.extractLsb' 0 23).toNat

/-- `x` is the whole number `n`. -/
def Is (x : Binary64) (n : ℕ) : Prop := ∃ onGrid, x = .finite false n onGrid

theorem round_is {negative : Bool} {n : ℕ} :
    (round negative q).Is n ↔ negative = false ∧ nearest q = n ∧ n < 2 ^ 1024 := by
  rw [round, Is]
  split
  · rename_i h
    constructor
    · intro ⟨onGrid, heq⟩
      rw [finite.injEq] at heq
      rw [heq.2] at h
      exact ⟨heq.1, heq.2, by exact_mod_cast h⟩
    · intro ⟨hsign, heq, _⟩
      refine ⟨heq ▸ .round h, ?_⟩
      rw [finite.injEq]
      exact ⟨hsign, heq⟩
  · rename_i h
    constructor
    · intro ⟨onGrid, heq⟩
      cases heq
    · intro ⟨_, heq, hlt⟩
      rw [heq] at h
      exact absurd (by exact_mod_cast hlt) h

/-- The bits of a float need no rounding. -/
theorem onGrid_magnitude {width exponent fraction : ℕ} {least : ℤ} (hwidth : width ≤ 52)
    (hleast : -1074 ≤ least ∧ least ≤ 0) (htop : least + exponent + width ≤ 1024)
    (hfraction : fraction < 2 ^ width) : OnGrid (magnitude width least exponent fraction) := by
  have hwidth' : 2 ^ width ≤ 2 ^ 52 := Nat.pow_le_pow_right Nat.two_pos hwidth
  have hgrid : ∀ (m : ℕ) (e : ℤ), m < 2 ^ (width + 1) → -1074 ≤ e → e + width + 1 ≤ 1024 →
      OnGrid (m * 2 ^ e) := by
    intro m e hm he htop
    rw [Nat.pow_succ] at hm
    refine ⟨mul_nonneg (Nat.cast_nonneg m) (two_zpow_pos e).le, ?_, nearest_grid (by omega) he⟩
    calc (m : ℚ) * 2 ^ e < 2 ^ (width + 1) * 2 ^ e := by
          apply mul_lt_mul_of_pos_right _ (two_zpow_pos e)
          exact_mod_cast hm
      _ = 2 ^ (e + width + 1) := by
          rw [← zpow_natCast (2 : ℚ) (width + 1), ← zpow_add₀ two_ne_zero]
          congr 1
          push_cast
          omega
      _ ≤ 2 ^ (1024 : ℤ) := zpow_le_zpow_right₀ one_le_two htop
      _ = 2 ^ 1024 := zpow_natCast 2 1024
  rw [magnitude]
  split
  · exact hgrid fraction least (by rw [Nat.pow_succ]; omega) hleast.1 (by omega)
  · exact hgrid (2 ^ width + fraction) _ (by rw [Nat.pow_succ]; omega) (by omega) (by omega)

theorem round_of_onGrid {negative : Bool} (h : OnGrid q) : round negative q = .finite negative q h := by
  have hlt : nearest q < 2 ^ 1024 := by
    rw [h.nearest]
    exact h.lt
  rw [round, dif_pos hlt]
  congr 1
  exact h.nearest

theorem ofFields_is {width top exponent fraction n : ℕ} {least : ℤ} {negative : Bool} (hwidth : width ≤ 52)
    (hleast : -1074 ≤ least ∧ least ≤ 0) (htop : least + top + width ≤ 1025) (hexponent : exponent ≤ top)
    (hfraction : fraction < 2 ^ width) :
    (ofFields width least top negative exponent fraction).Is n ↔
      negative = false ∧ exponent ≠ top ∧ magnitude width least exponent fraction = n := by
  rw [ofFields]
  split
  · rename_i heq
    constructor
    · intro ⟨onGrid, h⟩
      split at h <;> cases h
    · intro h
      exact absurd heq h.2.1
  · rename_i hne
    have hgrid : OnGrid (magnitude width least exponent fraction) :=
      onGrid_magnitude hwidth hleast (by omega) hfraction
    rw [round_of_onGrid hgrid, Is]
    simp only [finite.injEq, exists_prop]
    constructor
    · intro ⟨_, hsign, heq⟩
      exact ⟨hsign, hne, heq⟩
    · intro ⟨hsign, _, heq⟩
      exact ⟨heq ▸ hgrid, hsign, heq⟩

theorem ofInt_natCast {n : ℕ} (h : n ≤ 2 ^ 53) : ofInt n = .finite false n (.natCast h) := by
  rw [ofInt, Int.natAbs_natCast, decide_eq_false (Int.not_lt.mpr (Int.natCast_nonneg n)),
    round_of_onGrid (.natCast h)]

/-- The next multiple of a whole number, as it is computed: only the product is rounded. -/
theorem mul_ceil_div {x : Binary64} {d a : ℕ} (hx : x.Is a) (ha : 0 < a) (hd0 : 0 < d) (hd : d < 2 ^ 53) :
    mul (ceil (div (ofInt d) x)) x = round false ((⌈(d : ℚ) / a⌉₊ * a : ℕ) : ℚ) := by
  obtain ⟨onGrid, rfl⟩ := hx
  have ha0 : (a : ℚ) ≠ 0 := Nat.cast_ne_zero.mpr (Nat.ne_of_gt ha)
  have hceil := ceil_nearest_div hd hd0 ha (by exact_mod_cast onGrid.lt)
  have hlt : nearest ((d : ℚ) / a) < 2 ^ 1024 := by
    have hle : ⌈(d : ℚ) / a⌉₊ ≤ d :=
      Nat.ceil_le.mpr (div_le_self (Nat.cast_nonneg d) (by exact_mod_cast ha))
    calc nearest ((d : ℚ) / a) ≤ ⌈nearest ((d : ℚ) / a)⌉₊ := Nat.le_ceil _
      _ ≤ d := by rw [hceil]; exact_mod_cast hle
      _ < 2 ^ 1024 := (OnGrid.natCast hd.le).lt
  rw [ofInt_natCast hd.le, div, if_pos ha0, bne_self_eq_false, round, dif_pos hlt, ceil, mul, hceil,
    bne_self_eq_false, Nat.cast_mul]

end Binary64

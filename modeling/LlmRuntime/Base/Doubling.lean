import Mathlib.Analysis.SpecialFunctions.Log.Base

/-!
# A window that doubles

A reader keeps the first bytes of a file and fetches more when it is asked for what it does not have: at
least `first` bytes, at least what is asked for, at least twice what it had, and no more than there are.
Whatever it is asked for, it then holds at most twice as much, and the number of fetches is logarithmic.
-/

structure Window where
  held : Nat
  fetches : Nat

namespace Window

def empty : Window := ⟨0, 0⟩

def grow (first size : Nat) (w : Window) (stop : Nat) : Window :=
  if stop ≤ w.held then w else ⟨min (max (max stop first) (w.held * 2)) size, w.fetches + 1⟩

def growAll (first size : Nat) (stops : List Nat) (w : Window) : Window := stops.foldl (grow first size) w

variable {first size stop E : Nat} {w : Window}

theorem grow_of_le (h : stop ≤ w.held) : w.grow first size stop = w := if_pos h

theorem grow_of_lt (h : w.held < stop) : w.grow first size stop =
    ⟨min (max (max stop first) (w.held * 2)) size, w.fetches + 1⟩ := if_neg (Nat.not_le.mpr h)

/-- What holds after calls with arguments up to `E`. The last two bounds are `first * 2 ^ (fetches - 1)`
for what is held and `first * 2 ^ (fetches - 2)` for what was asked for. -/
structure Doubled (first size E : Nat) (w : Window) : Prop where
  held_le : w.held ≤ max first (2 * E)
  held_le_size : w.held ≤ size
  le_held : w.fetches = 0 ∨ w.held = size ∨ first * 2 ^ (w.fetches - 1) ≤ w.held
  lt_asked : w.fetches ≤ 1 ∨ first * 2 ^ (w.fetches - 2) < E

theorem doubled_empty (first size E : Nat) : Doubled first size E empty :=
  ⟨Nat.zero_le _, Nat.zero_le _, .inl rfl, .inl (Nat.zero_le _)⟩

/-- Before a fetch the window is not at the end of the file, so it has doubled each time. -/
theorem Doubled.grow (h : Doubled first size E w) (hE : stop ≤ E) (hsize : stop ≤ size) :
    Doubled first size E (w.grow first size stop) := by
  by_cases hstop : stop ≤ w.held
  · rw [grow_of_le hstop]
    exact h
  have hlt : w.held < stop := Nat.not_le.mp hstop
  have hheld : w.fetches = 0 ∨ first * 2 ^ (w.fetches - 1) ≤ w.held := by
    rcases h.le_held with hzero | hend | hheld
    · exact .inl hzero
    · omega
    · exact .inr hheld
  rw [grow_of_lt hlt]
  refine ⟨?_, Nat.min_le_right _ _, .inr ?_, ?_⟩
  · show min (max (max stop first) (w.held * 2)) size ≤ max first (2 * E)
    omega
  · show min (max (max stop first) (w.held * 2)) size = size ∨
      first * 2 ^ w.fetches ≤ min (max (max stop first) (w.held * 2)) size
    have hpow : first * 2 ^ w.fetches ≤ max first (w.held * 2) := by
      rcases hheld with hzero | hheld
      · rw [hzero, pow_zero, Nat.mul_one]
        exact Nat.le_max_left _ _
      · apply Nat.le_trans _ (Nat.le_max_right _ _)
        cases hfetches : w.fetches with
        | zero =>
            rw [hfetches] at hheld
            omega
        | succ n =>
            rw [hfetches, Nat.add_sub_cancel] at hheld
            rw [pow_succ, ← Nat.mul_assoc]
            exact Nat.mul_le_mul_right 2 hheld
    omega
  · rcases hheld with hzero | hheld
    · left
      show w.fetches + 1 ≤ 1
      omega
    · right
      show first * 2 ^ (w.fetches + 1 - 2) < E
      have hsub : w.fetches + 1 - 2 = w.fetches - 1 := by omega
      rw [hsub]
      omega

theorem doubled_growAll (stops : List Nat) (hE : ∀ stop ∈ stops, stop ≤ E) (hsize : ∀ stop ∈ stops, stop ≤ size)
    (h : Doubled first size E w) : Doubled first size E (growAll first size stops w) := by
  induction stops generalizing w with
  | nil => exact h
  | cons stop rest ih =>
      apply ih
      · exact fun stop hstop => hE stop (List.mem_cons_of_mem _ hstop)
      · exact fun stop hstop => hsize stop (List.mem_cons_of_mem _ hstop)
      · exact h.grow (hE stop List.mem_cons_self) (hsize stop List.mem_cons_self)

/-- The number of fetches, as a logarithm of what was asked for. -/
theorem Doubled.fetches_le (h : Doubled first size E w) (hfirst : 0 < first) :
    (w.fetches : ℝ) ≤ 2 + Real.logb 2 (max 1 ((E : ℝ) / first)) := by
  have hone : (1 : ℝ) ≤ max 1 ((E : ℝ) / first) := le_max_left _ _
  have hlog : 0 ≤ Real.logb 2 (max 1 ((E : ℝ) / first)) := Real.logb_nonneg (by norm_num) hone
  rcases h.lt_asked with hfew | hasked
  · have hcast : (w.fetches : ℝ) ≤ 1 := by exact_mod_cast hfew
    linarith
  · have hpow : (2 : ℝ) ^ (w.fetches - 2) ≤ max 1 ((E : ℝ) / first) := by
      apply le_trans _ (le_max_right _ _)
      rw [le_div_iff₀ (by exact_mod_cast hfirst), mul_comm]
      exact_mod_cast Nat.le_of_lt hasked
    have hle : ((w.fetches - 2 : Nat) : ℝ) ≤ Real.logb 2 (max 1 ((E : ℝ) / first)) := by
      rw [Real.le_logb_iff_rpow_le (by norm_num) (by linarith), Real.rpow_natCast]
      exact hpow
    have hsub : w.fetches ≤ (w.fetches - 2) + 2 := by omega
    have hcast : (w.fetches : ℝ) ≤ ((w.fetches - 2 : Nat) : ℝ) + 2 := by exact_mod_cast hsub
    linarith

end Window

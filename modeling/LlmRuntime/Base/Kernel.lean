import Mathlib.Data.List.Basic
import Mathlib.Data.List.Nodup
import Mathlib.Data.List.Flatten
import Mathlib.Logic.Function.Basic
import Mathlib.Algebra.Order.BigOperators.Group.List
import Mathlib.Algebra.GroupWithZero.Nat

/-!
# Invocations of a compute kernel

A workgroup runs one program in many invocations at once. Between two barriers an invocation writes a
list of places, and the lists of all of them reach the memory interleaved in any order; a place on which
all writers agree ends up with that value whatever the order was. Counters are 32 bits wide.
-/

namespace Kernel

/-- What is kept of a number in 32 bits. -/
def u32 (n : Nat) : Nat := n % 2 ^ 32

theorem u32_of_lt {n : Nat} (h : n < 2 ^ 32) : u32 n = n := Nat.mod_eq_of_lt h

/-- A difference, taken in 32 bits. -/
def sub32 (a b : Nat) : Nat := u32 (a + 2 ^ 32 - b)

theorem sub32_of_le {a b : Nat} (h : b ≤ a) (ha : a < 2 ^ 32) : sub32 a b = a - b := by
  rw [sub32, u32, Nat.sub_add_comm h, Nat.add_mod_right, Nat.mod_eq_of_lt (by omega)]

/-- Quotient rounded up. -/
def ceilDiv (a b : Nat) : Nat := (a + b - 1) / b

theorem lt_ceilDiv {a b i : Nat} (hb : 0 < b) : i < ceilDiv a b ↔ i * b < a := by
  rw [ceilDiv, ← Nat.succ_le_iff, Nat.le_div_iff_mul_le hb, Nat.succ_mul]
  omega

theorem le_ceilDiv_mul {a b : Nat} (hb : 0 < b) : a ≤ ceilDiv a b * b := by
  by_contra h
  exact Nat.lt_irrefl _ ((lt_ceilDiv hb).mpr (Nat.lt_of_not_le h))

/-- Rounding up costs one more than rounding down, and nothing where there is nothing to round. -/
theorem ceilDiv_le {a b : Nat} (hb : 0 < b) : ceilDiv a b ≤ a / b + if 0 < a then 1 else 0 := by
  rw [ceilDiv]
  split
  · rw [show a + b - 1 = a - 1 + b by omega, Nat.add_div_right _ hb]
    exact Nat.succ_le_succ (Nat.div_le_div_right (Nat.sub_le a 1))
  · have ha : a = 0 := by omega
    rw [ha, Nat.zero_add, Nat.div_eq_of_lt (by omega)]
    exact Nat.zero_le _

/-- A number below `c` after a multiple of `c`. -/
theorem eq_of_mul_add_eq {a b c x y : Nat} (hx : x < c) (hy : y < c) (h : a * c + x = b * c + y) :
    a = b ∧ x = y := by
  have hc : 0 < c := Nat.zero_lt_of_lt hx
  have hdiv := congrArg (· / c) h
  simp only [Nat.mul_comm _ c, Nat.mul_add_div hc, Nat.div_eq_of_lt hx, Nat.div_eq_of_lt hy,
    Nat.add_zero] at hdiv
  rw [hdiv] at h
  exact ⟨hdiv, Nat.add_left_cancel h⟩

/-! ### Strided loops -/

/-- The values of `i` in `for (i = start; cond(i); i += step)`, at most `fuel` of them. -/
def indices (step : Nat) (cond : Nat → Bool) : (fuel start : Nat) → List Nat
  | 0, _ => []
  | fuel + 1, i => if cond i then i :: indices step cond fuel (u32 (i + step)) else []

/-- Where the condition is one of being small enough, the loop visits what meets it in its stride. -/
theorem mem_indices {step fuel start j : Nat} {cond : Nat → Bool} (hstep : 0 < step)
    (hdown : ∀ i j, i ≤ j → cond j → cond i) (hwrap : ∀ i, cond i → i + step < 2 ^ 32)
    (hfuel : ∀ i, cond i → i < start + fuel) :
    j ∈ indices step cond fuel start ↔ cond j ∧ start ≤ j ∧ j % step = start % step := by
  induction fuel generalizing start with
  | zero =>
      refine ⟨fun h => absurd h (List.not_mem_nil), fun ⟨hj, hle, _⟩ => ?_⟩
      have hlt := hfuel j hj
      omega
  | succ fuel ih =>
      have hrest : ∀ i, cond i → i < start + step + fuel := fun i hi => by
        have hlt := hfuel i hi
        omega
      rw [indices]
      split
      case isTrue hstart =>
        rw [u32_of_lt (hwrap start hstart), List.mem_cons, ih hrest, Nat.add_mod_right]
        constructor
        · rintro (rfl | ⟨hj, hle, hmod⟩)
          · exact ⟨hstart, Nat.le_refl _, rfl⟩
          · exact ⟨hj, by omega, hmod⟩
        · rintro ⟨hj, hle, hmod⟩
          by_cases heq : j = start
          · exact Or.inl heq
          · refine Or.inr ⟨hj, ?_, hmod⟩
            by_contra hlt
            have hsmall : j - start < step := by omega
            have hzero : (j - start) % step = 0 := Nat.sub_mod_eq_zero_of_mod_eq hmod
            rw [Nat.mod_eq_of_lt hsmall] at hzero
            omega
      case isFalse hstart =>
        refine ⟨fun h => absurd h (List.not_mem_nil), fun ⟨hj, hle, _⟩ => ?_⟩
        exact absurd (hdown start j hle hj) hstart

/-! ### Interleaved writes -/

variable {ι α β γ : Type*}

theorem nodup_map_flatMap {is : List ι} {f : ι → List α} {g : α → γ} (his : is.Nodup)
    (hone : ∀ i ∈ is, ((f i).map g).Nodup)
    (hapart : ∀ i ∈ is, ∀ j ∈ is, i ≠ j → ∀ a ∈ f i, ∀ b ∈ f j, g a ≠ g b) :
    ((is.flatMap f).map g).Nodup := by
  rw [List.map_flatMap, List.nodup_flatMap]
  refine ⟨hone, (List.pairwise_iff_forall_sublist.mpr fun {i j} hij => ?_)⟩
  have hi : i ∈ is := hij.subset List.mem_cons_self
  have hj : j ∈ is := hij.subset (List.mem_cons_of_mem i List.mem_cons_self)
  have hne : i ≠ j := by
    have hnodup := his.sublist hij
    simpa using hnodup
  intro c hc hc'
  obtain ⟨a, ha, rfl⟩ := List.mem_map.mp hc
  obtain ⟨b, hb, heq⟩ := List.mem_map.mp hc'
  exact hapart i hi j hj hne a ha b hb heq.symm

/-- The lists of several invocations, taken one entry at a time in any order between them. -/
inductive Interleaving [DecidableEq ι] : (ι → List α) → List α → Prop
  | nil {ws : ι → List α} (h : ∀ i, ws i = []) : Interleaving ws []
  | cons {ws : ι → List α} {i : ι} {a : α} {rest l : List α} (h : ws i = a :: rest)
      (hl : Interleaving (Function.update ws i rest) l) : Interleaving ws (a :: l)

theorem Interleaving.mem_iff [DecidableEq ι] {ws : ι → List α} {l : List α} (h : Interleaving ws l)
    (a : α) : a ∈ l ↔ ∃ i, a ∈ ws i := by
  induction h with
  | nil h => simp [h]
  | @cons ws i b rest l h _ ih =>
      rw [List.mem_cons, ih]
      constructor
      · rintro (rfl | ⟨j, hj⟩)
        · exact ⟨i, h ▸ List.mem_cons_self⟩
        · by_cases hij : j = i
          · subst hij
            rw [Function.update_self] at hj
            exact ⟨j, h ▸ List.mem_cons_of_mem b hj⟩
          · rw [Function.update_of_ne hij] at hj
            exact ⟨j, hj⟩
      · rintro ⟨j, hj⟩
        by_cases hij : j = i
        · subst hij
          rw [h, List.mem_cons] at hj
          exact hj.imp_right fun hrest => ⟨j, by rwa [Function.update_self]⟩
        · exact Or.inr ⟨j, by rwa [Function.update_of_ne hij]⟩

theorem Interleaving.prepend [DecidableEq ι] {ws : ι → List α} {i : ι} {rest l : List α} (as : List α)
    (h : Interleaving (Function.update ws i rest) l) :
    Interleaving (Function.update ws i (as ++ rest)) (as ++ l) := by
  induction as with
  | nil => exact h
  | cons a as ih =>
      refine .cons (i := i) (Function.update_self ..) ?_
      rwa [Function.update_idem]

/-- The invocations of a finite group one after another are one such order. -/
theorem Interleaving.inOrder [DecidableEq ι] (is : List ι) (ws : ι → List α) (hnodup : is.Nodup)
    (hws : ∀ i, i ∉ is → ws i = []) : Interleaving ws (is.flatMap ws) := by
  induction is generalizing ws with
  | nil => exact .nil fun i => hws i (List.not_mem_nil)
  | cons i is ih =>
      obtain ⟨hi, hnodup⟩ := List.nodup_cons.mp hnodup
      have hrest : is.flatMap (Function.update ws i []) = is.flatMap ws :=
        List.flatMap_congr fun j hj => Function.update_of_ne (ne_of_mem_of_not_mem hj hi) ..
      have hlast : Interleaving (Function.update ws i []) (is.flatMap ws) := by
        rw [← hrest]
        refine ih _ hnodup fun j hj => ?_
        by_cases hji : j = i
        · rw [hji, Function.update_self]
        · rw [Function.update_of_ne hji]
          exact hws j fun h => (List.mem_cons.mp h).elim hji hj
      have hall := hlast.prepend (ws i)
      rwa [List.append_nil, Function.update_eq_self] at hall

/-- A memory after a list of writes. -/
def store [DecidableEq α] (mem : α → β) (ws : List (α × β)) : α → β :=
  ws.foldl (fun m w => Function.update m w.1 w.2) mem

variable [DecidableEq α] {mem : α → β} {ws : List (α × β)} {x : α} {v : β}

theorem store_of_forall_ne (h : ∀ w ∈ ws, w.1 ≠ x) : store mem ws x = mem x := by
  induction ws generalizing mem with
  | nil => rfl
  | cons w ws ih =>
      rw [store, List.foldl_cons, ← store, ih fun u hu => h u (List.mem_cons_of_mem w hu),
        Function.update_of_ne (h w List.mem_cons_self).symm]

/-- A place whose writers agree. -/
theorem store_of_agree (hsome : ∃ w ∈ ws, w.1 = x) (hagree : ∀ w ∈ ws, w.1 = x → w.2 = v) :
    store mem ws x = v := by
  induction ws generalizing mem with
  | nil => simp at hsome
  | cons w ws ih =>
      rw [store, List.foldl_cons, ← store]
      by_cases hrest : ∃ u ∈ ws, u.1 = x
      · exact ih hrest fun u hu => hagree u (List.mem_cons_of_mem w hu)
      · obtain ⟨u, hu, hux⟩ := hsome
        obtain rfl | hu := List.mem_cons.mp hu
        · have hnone : ∀ u ∈ ws, u.1 ≠ x := fun u hu hux => hrest ⟨u, hu, hux⟩
          rw [store_of_forall_ne hnone, ← hux, Function.update_self]
          exact hagree u List.mem_cons_self hux
        · exact absurd ⟨u, hu, hux⟩ hrest

end Kernel

import LlmRuntime.Soak.Model
import Mathlib.Algebra.Order.BigOperators.Group.Finset

/-!
# What the soak log promises

A cycle counts as good only if the peer's Runtime has given back one more number than the peer told
before it. What the peer told before is about a moment after the page was loaded, and what it tells later
is about a later moment or a later manager, so each good cycle has a closing of its own: however often
either page is loaded again and the peer is started again, and whatever is lost on the way.
-/

namespace LlmRuntime.Soak

open PeerManager (Manager closings)
open Finset (range)

def SoakLog.okCount (s : SoakLog) : Nat := s.log.countP Record.ok

structure SoakLog.WellFormed (s : SoakLog) : Prop where
  cycle : s.cycle = s.log.length
  numbered : s.log.map Record.cycle = List.range s.log.length
  stopped : s.stopped = s.log.any fun r => !r.ok
  /-- Nothing is run after a cycle that failed. -/
  stops : ∀ r ∈ s.log.dropLast, r.ok = true

/-- A good cycle put out text after `ready`, and says so if its stop had to be forced. -/
def Record.Sound (o : Setting) (r : Record) : Prop :=
  r.ok = true → 0 < r.chars ∧
    (o.STOP_TIMEOUT_MS ≤ number r.stopMs → r.note = s!"stop used the force-exit fallback ({r.stopMs}ms)")

/-- A soak log that can be trusted where these are the peer's managers. -/
structure Valid (o : Setting) (managers : List Manager) (s : SoakLog) : Prop where
  wellFormed : s.WellFormed
  /-- No more cycles than `autoCycles`, which need not be whole. -/
  bounded : ∀ n, o.autoCycles ≤ number n → s.log.length ≤ n
  sound : ∀ r ∈ s.log, r.Sound o
  closed : s.okCount ≤ (managers.map closings).sum

variable {o : Setting} {ms ms' : List Manager} {s : SoakLog} {w : World} {c c' : Count} {n : Nat}

/-! ### What the peer's managers have closed -/

def closingsAt (ms : List Manager) (i : Nat) : Nat := (ms[i]?.map closings).getD 0

theorem sum_closings (ms : List Manager) : (ms.map closings).sum = ∑ i ∈ range ms.length, closingsAt ms i := by
  induction ms with
  | nil => rfl
  | cons m ms ih =>
      rw [List.map_cons, List.sum_cons, ih, List.length_cons, Finset.sum_range_succ', Nat.add_comm]
      rfl

/-- The managers later on. -/
structure Grows (ms ms' : List Manager) : Prop where
  length : ms.length ≤ ms'.length
  closings : ∀ i, closingsAt ms i ≤ closingsAt ms' i

theorem Grows.sum_range (h : Grows ms ms') {i k : Nat} (hle : i ≤ k) :
    ∑ j ∈ range i, closingsAt ms j ≤ ∑ j ∈ range k, closingsAt ms' j := by
  calc ∑ j ∈ range i, closingsAt ms j ≤ ∑ j ∈ range i, closingsAt ms' j :=
        Finset.sum_le_sum fun j _ => h.closings j
    _ ≤ ∑ j ∈ range k, closingsAt ms' j :=
        Finset.sum_le_sum_of_subset (Finset.range_subset_range.mpr hle)

theorem Grows.refl (ms : List Manager) : Grows ms ms := ⟨Nat.le_refl _, fun _ => Nat.le_refl _⟩

theorem Grows.sum_closings (h : Grows ms ms') :
    (ms.map PeerManager.closings).sum ≤ (ms'.map PeerManager.closings).sum := by
  rw [Soak.sum_closings, Soak.sum_closings]
  exact h.sum_range h.length

theorem grows_set {i : Nat} {m m' : Manager} (hget : ms[i]? = some m) (hle : closings m ≤ closings m') :
    Grows ms (ms.set i m') where
  length := Nat.le_of_eq List.length_set.symm
  closings j := by
    rw [closingsAt, closingsAt, List.getElem?_set]
    by_cases hij : i = j
    · subst hij
      have hlt : i < ms.length := (List.getElem?_eq_some_iff.mp hget).1
      rw [if_pos rfl, if_pos hlt, hget]
      exact hle
    · rw [if_neg hij]

theorem grows_concat (ms : List Manager) (m : Manager) : Grows ms (ms ++ [m]) where
  length := by simp
  closings i := by
    rw [closingsAt, closingsAt]
    by_cases hi : i < ms.length
    · rw [List.getElem?_append_left hi]
    · rw [List.getElem?_eq_none (Nat.not_lt.mp hi)]
      exact Nat.zero_le _

/-! ### What the peer has told -/

/-- A count that was told when `n` numbers at least had been given back. -/
structure Told (n : Nat) (ms : List Manager) (c : Count) : Prop where
  there : c.manager < ms.length
  closed : c.runtimeCloses ≤ closingsAt ms c.manager
  since : n ≤ ∑ i ∈ range c.manager, closingsAt ms i + c.runtimeCloses

theorem Told.grows (h : Told n ms c) (hgrows : Grows ms ms') : Told n ms' c where
  there := Nat.lt_of_lt_of_le h.there hgrows.length
  closed := Nat.le_trans h.closed (hgrows.closings _)
  since := Nat.le_trans h.since (Nat.add_le_add_right (hgrows.sum_range (Nat.le_refl _)) _)

/-- **A larger count told later is about one more closing.** -/
theorem Told.another (h : Told n ms c) (h' : Told n ms c') (hle : c.manager ≤ c'.manager)
    (hlt : c.runtimeCloses + 1 ≤ c'.runtimeCloses) : n + 1 ≤ (ms.map closings).sum := by
  have hall : ∑ i ∈ range (c'.manager + 1), closingsAt ms i ≤ (ms.map closings).sum := by
    rw [sum_closings]
    exact (Grows.refl ms).sum_range h'.there
  rw [Finset.sum_range_succ] at hall
  have hclosed := h'.closed
  have hsince := h.since
  by_cases heq : c.manager = c'.manager
  · rw [heq] at hsince
    omega
  · -- the later manager has closed what it tells on top of all that the earlier ones have
    have hbefore : ∑ i ∈ range (c.manager + 1), closingsAt ms i ≤ ∑ i ∈ range c'.manager, closingsAt ms i :=
      (Grows.refl ms).sum_range (by omega)
    rw [Finset.sum_range_succ] at hbefore
    have hthen := h.closed
    omega

theorem told_of_last (hn : n ≤ (ms.map closings).sum) (hgrows : Grows ms ms') (hne : ms'.length ≠ 0)
    (hle : closingsAt ms (ms'.length - 1) ≤ n') (hge : n' ≤ closingsAt ms' (ms'.length - 1)) :
    Told n ms' ⟨ms'.length - 1, n'⟩ where
  there := by
    dsimp only
    omega
  closed := hge
  since := by
    have hsum : (ms.map closings).sum ≤ ∑ i ∈ range (ms'.length - 1 + 1), closingsAt ms i := by
      rw [sum_closings]
      exact (Grows.refl ms).sum_range (by have := hgrows.length; omega)
    rw [Finset.sum_range_succ] at hsum
    have hbefore := hgrows.sum_range (Nat.le_refl (ms'.length - 1))
    dsimp only
    omega

theorem mem_announce {counted : Bool} {effects : List PeerManager.Effect} {k : Nat}
    (h : k ∈ announce counted n effects) :
    n ≤ k ∧ k ≤ n + if counted then effects.countP PeerManager.Effect.isRuntimeClose else 0 := by
  induction effects generalizing n with
  | nil => cases h
  | cons effect rest ih =>
      rw [List.countP_cons]
      cases effect with
      | event notice =>
          rw [announce, List.mem_cons] at h
          rcases h with rfl | h
          · cases counted <;> cases PeerManager.Effect.isRuntimeClose (.event notice) <;> simp
          · obtain ⟨hge, hle⟩ := ih h
            cases counted with
            | false => exact ⟨hge, hle⟩
            | true =>
                simp only [Bool.true_and, if_true] at hge hle ⊢
                by_cases hclose : (PeerManager.Effect.event notice).isRuntimeClose = true
                · rw [if_pos hclose] at hge hle
                  rw [if_pos hclose]
                  omega
                · rw [if_neg hclose] at hge hle
                  rw [if_neg hclose]
                  exact ⟨hge, hle⟩
      | _ =>
          have hrest := ih h
          cases counted <;> simp_all [PeerManager.Effect.isRuntimeClose]

end LlmRuntime.Soak

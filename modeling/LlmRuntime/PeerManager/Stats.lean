import LlmRuntime.PeerManager.Accounting
import LlmRuntime.PeerManager.Delivery
import Mathlib.Algebra.BigOperators.Group.Finset.Basic
import Mathlib.Algebra.GroupWithZero.Nat
import Mathlib.Data.List.Dedup
import Mathlib.Data.List.Sort

/-!
# What the manager tells about its numbers

`fdStats` of the harness peer manager: a row for every fd number that a counter knows. The rows together
say how often the Runtime has called `close_connection()` with success, whichever numbers it was for.
-/

namespace LlmRuntime.PeerManager

inductive FdState where
  | released
  | closed
  | live
  deriving DecidableEq, Repr

structure FdStat where
  fd : Nat
  connections : Nat
  accepted : Nat
  registrations : Nat
  runtimeCloses : Nat
  state : FdState
  deriving DecidableEq, Repr

namespace Manager

/-- `[...fds].sort((a, b) => a - b)` -/
def fds (s : Manager) : List Nat :=
  (s.connectionCounts.keys ++ s.registrationCounts.keys ++ s.acceptedCounts.keys ++
    s.runtimeCloseCounts.keys).dedup.insertionSort (· ≤ ·)

def fdStat (s : Manager) (fd : Nat) : FdStat where
  fd := fd
  connections := count s.connectionCounts fd
  accepted := count s.acceptedCounts fd
  registrations := count s.registrationCounts fd
  runtimeCloses := count s.runtimeCloseCounts fd
  state :=
    match s.conns.get fd with
    | none => .released
    | some c => if (s.conn c).closed then .closed else .live

def fdStats (s : Manager) : List FdStat := s.fds.map s.fdStat

end Manager

def Effect.isRuntimeClose : Effect → Bool
  | .event (.runtimeClose _ _ _) => true
  | _ => false

/-- How often `close_connection()` has given a number back. -/
def closings (s : Manager) : Nat := s.log.countP Effect.isRuntimeClose

/-- A connection comes in, is accepted and closed by the Runtime. -/
example : (((manager ⟨"a", 2⟩).run .initial [.accept 0, .message ⟨"b", "a", .connect⟩,
    .closeConnection 0]).map fun s => s.fdStats.map FdStat.runtimeCloses) = some [1] := by
  decide

/-! ### Sums over counters -/

def sumOf (counter : JsMap Nat Nat) : Nat := counter.values.sum

theorem nodup_fds (s : Manager) : s.fds.Nodup :=
  (List.perm_insertionSort _ _).nodup_iff.mpr (List.nodup_dedup _)

theorem mem_fds {s : Manager} {fd : Nat} (h : fd ∈ s.runtimeCloseCounts.keys) : fd ∈ s.fds := by
  rw [Manager.fds, List.mem_insertionSort, List.mem_dedup]
  exact List.mem_append_right _ h

theorem count_of_notMem {counter : JsMap Nat Nat} {fd : Nat} (h : fd ∉ counter.keys) : count counter fd = 0 := by
  rw [JsMap.mem_keys_iff, Option.not_isSome_iff_eq_none] at h
  rw [count, h, Option.getD_none]

theorem sum_keys (counter : JsMap Nat Nat) : (counter.keys.map (count counter)).sum = sumOf counter := by
  have hvalues : counter.keys.map (count counter) = counter.values := by
    rw [JsMap.keys, JsMap.values, List.map_map]
    apply List.map_congr_left
    intro entry hmem
    rw [Function.comp_apply, count, JsMap.get_eq_some_iff.mpr (show (entry.1, entry.2) ∈ counter.entries from hmem),
      Option.getD_some]
  rw [hvalues, sumOf]

/-- A number that the counter does not know adds nothing. -/
theorem sum_count {counter : JsMap Nat Nat} {l : List Nat} (hnodup : l.Nodup)
    (hkeys : ∀ fd ∈ counter.keys, fd ∈ l) : (l.map (count counter)).sum = sumOf counter := by
  rw [← sum_keys, ← List.sum_toFinset _ hnodup, ← List.sum_toFinset _ counter.nodup_keys]
  symm
  apply Finset.sum_subset
  · intro fd hmem
    rw [List.mem_toFinset] at hmem ⊢
    exact hkeys fd hmem
  · intro fd _ hnot
    rw [List.mem_toFinset] at hnot
    exact count_of_notMem hnot

theorem sumOf_bump (counter : JsMap Nat Nat) (fd : Nat) : sumOf (bump counter fd) = sumOf counter + 1 := by
  have hnodup : (counter.keys.insert fd).Nodup := counter.nodup_keys.insert
  have hkeys : ∀ fd' ∈ (bump counter fd).keys, fd' ∈ counter.keys.insert fd := by
    intro fd' hmem
    rw [List.mem_insert_iff]
    by_cases hfd : fd' = fd
    · exact .inl hfd
    · rw [JsMap.mem_keys_iff, bump, JsMap.get_set_of_ne _ hfd, ← JsMap.mem_keys_iff] at hmem
      exact .inr hmem
  rw [← sum_count hnodup hkeys, ← sum_count hnodup fun fd' => List.mem_insert_of_mem,
    ← List.sum_toFinset _ hnodup, ← List.sum_toFinset _ hnodup]
  have hmem : fd ∈ (counter.keys.insert fd).toFinset := List.mem_toFinset.mpr List.mem_insert_self
  have hother : ∀ fd' ∈ (counter.keys.insert fd).toFinset.erase fd,
      count (bump counter fd) fd' = count counter fd' := by
    intro fd' hfd'
    rw [count_bump, if_neg (Finset.ne_of_mem_erase hfd'), Nat.add_zero]
  rw [← Finset.sum_erase_add _ _ hmem, Finset.sum_congr rfl hother, count_bump, if_pos rfl, ← Nat.add_assoc,
    Finset.sum_erase_add _ _ hmem]

/-! ### The counter and the notices -/

variable {o : Options} {s t : Manager} {a : Act}

theorem countP_isRuntimeClose_plain {effects : List Effect} (h : ∀ effect ∈ effects, effect.Plain) :
    effects.countP Effect.isRuntimeClose = 0 := by
  rw [List.countP_eq_zero]
  intro effect hmem
  have hplain := h effect hmem
  cases effect with
  | event notice => cases notice <;> simp_all [Effect.Plain, Effect.isRuntimeClose]
  | _ => simp [Effect.isRuntimeClose]

theorem Does.closings (h : Does o s a t) :
    PeerManager.closings t + sumOf s.runtimeCloseCounts = PeerManager.closings s + sumOf t.runtimeCloseCounts := by
  cases h with
  | quiet _ _ effects hplain =>
      simp [PeerManager.closings, countP_isRuntimeClose_plain hplain]
  | release c hget =>
      simp [PeerManager.closings, sumOf_bump, Effect.isRuntimeClose]
      omega
  | kill c _ =>
      cases hwake : (s.conn c).wake <;> cases hwait : (s.conn c).accepted <;>
        simp [PeerManager.closings, Effect.isRuntimeClose]
  | park | serve | send | hangUp | enqueue | wake => rfl
  | _ => simp [PeerManager.closings, Effect.isRuntimeClose, List.countP_map]

theorem closings_of_reachable (h : (manager o).Reachable s) : closings s = sumOf s.runtimeCloseCounts := by
  refine Transition.Reachable.keeps_reachable (P := fun u => closings u = sumOf u.runtimeCloseCounts) rfl ?_ h
  intro s e t hs hclosings hstep
  obtain ⟨as, -, hacts⟩ := step_moves (inv_of_reachable hs) e
  cases hstep
  refine hacts.keeps (P := fun u => closings u = sumOf u.runtimeCloseCounts) (fun u a v hu hdoes => ?_) hclosings
  have hsame := hdoes.closings
  omega

/-- **The rows of a manager add up to what its Runtime has closed.** -/
theorem sum_fdStats (h : (manager o).Reachable s) : (s.fdStats.map FdStat.runtimeCloses).sum = closings s := by
  rw [closings_of_reachable h, Manager.fdStats, List.map_map]
  exact sum_count (nodup_fds s) fun fd => mem_fds

theorem log_mono_of_acts {as : List Act} (h : Acts o s as t) : s.log <+: t.log := by
  induction h with
  | nil => exact List.prefix_refl _
  | cons hdoes _ ih => exact (log_mono hdoes).trans ih

theorem log_mono_of_reachable (h : (manager o).Reachable s) (e : Event) : s.log <+: (s.step o e).log := by
  obtain ⟨as, -, hacts⟩ := step_moves (inv_of_reachable h) e
  exact log_mono_of_acts hacts

end LlmRuntime.PeerManager

import LlmRuntime.MulMatId.Gathering
import Mathlib.Algebra.BigOperators.Group.Finset.Basic
import Mathlib.Algebra.Order.BigOperators.Group.Finset
import Mathlib.Data.Finset.Prod

/-!
# The gather shader ends

Every step brings an invocation nearer to its end, so a run is no longer than the work there is; and as
long as an invocation has not left, one of its workgroup can step: whoever waits at a barrier waits for
one that can.
-/

namespace MulMatId

open Kernel

/-- The steps an invocation has before it, at most. -/
def Invocation.rank (total : Nat) : Invocation → Nat
  | enter => 4 * total + 6
  | cleared => 4 * total + 5
  | loop i => 4 * (total - i) + 4
  | found i => 4 * (total - i) + 3
  | claimed i _ => 4 * (total - i) + 2
  | half i _ => 4 * (total - i) + 1
  | gathered => 3
  | closing => 2
  | left => 0

namespace Gather

variable {K : Gather} {s s' : GatherState} {wg : Nat × Nat} {t : Nat} {T : Tables}

/-- A step moves one invocation, and brings it nearer to its end. -/
theorem advance_rank (hK : K.Fits)
    (hpending : ∀ i pos, (s.workgroup wg).invocation t = .half i pos → i < K.total)
    (hstep : K.advance s wg t ((s.workgroup wg).invocation t) = some s') :
    ∃ a, (s'.workgroup wg).invocation = Function.update (s.workgroup wg).invocation t a ∧
      a.rank K.total < ((s.workgroup wg).invocation t).rank K.total := by
  have hpos := hK.wgSize_pos
  cases hat : (s.workgroup wg).invocation t with
  | enter =>
      rw [hat, Gather.advance] at hstep
      split at hstep
      · cases hstep
        exact ⟨.cleared, by split <;> simp, by simp [Invocation.rank]⟩
      · cases hstep
        exact ⟨.left, by simp, by simp [Invocation.rank]⟩
  | cleared =>
      rw [hat, Gather.advance] at hstep
      split at hstep
      · cases hstep
        exact ⟨.loop t, by simp, by simp only [Invocation.rank]; omega⟩
      · cases hstep
  | loop i =>
      rw [hat, Gather.advance] at hstep
      split at hstep
      case isTrue hi =>
        split at hstep
        · cases hstep
          exact ⟨.found i, by simp, by simp [Invocation.rank]⟩
        · rw [hK.next_eq hi] at hstep
          cases hstep
          exact ⟨.loop (i + K.wgSize), by simp, by simp only [Invocation.rank]; omega⟩
      case isFalse hi =>
        cases hstep
        exact ⟨.gathered, by simp, by simp [Invocation.rank]⟩
  | found i =>
      rw [hat, Gather.advance, Option.some.injEq] at hstep
      subst hstep
      exact ⟨.claimed i (s.workgroup wg).count, by simp, by simp [Invocation.rank]⟩
  | claimed i pos =>
      rw [hat, Gather.advance, Option.some.injEq] at hstep
      subst hstep
      exact ⟨.half i pos, by simp, by simp [Invocation.rank]⟩
  | half i pos =>
      have hi : i < K.total := hpending i pos hat
      rw [hat, Gather.advance, Option.some.injEq, hK.next_eq hi] at hstep
      subst hstep
      exact ⟨.loop (i + K.wgSize), by simp, by simp only [Invocation.rank]; omega⟩
  | gathered =>
      rw [hat, Gather.advance] at hstep
      split at hstep
      · cases hstep
        refine ⟨if t = 0 then .closing else .left, by simp, ?_⟩
        split <;> simp [Invocation.rank]
      · cases hstep
  | closing =>
      rw [hat, Gather.advance, Option.some.injEq] at hstep
      subst hstep
      exact ⟨.left, by simp, by simp [Invocation.rank]⟩
  | left =>
      rw [hat] at hstep
      cases hstep

/-- The steps the dispatch has before it, at most. -/
def work (K : Gather) (s : GatherState) : Nat :=
  ∑ wg ∈ Finset.range K.numWgX ×ˢ Finset.range K.numWgY, ∑ t ∈ Finset.range K.wgSize,
    ((s.workgroup wg).invocation t).rank K.total

theorem mem_grid (K : Gather) (wg : Nat × Nat) :
    wg ∈ Finset.range K.numWgX ×ˢ Finset.range K.numWgY ↔ K.InGrid wg := by
  rw [Finset.mem_product, Finset.mem_range, Finset.mem_range, InGrid]

theorem work_step (hK : K.Fits) (h : K.Sound s) {e : (Nat × Nat) × Nat} (hstep : K.step s e = some s') :
    K.work s' < K.work s := by
  rw [Gather.step] at hstep
  split at hstep
  case isFalse => cases hstep
  case isTrue hin =>
    obtain ⟨hwg, ht⟩ := hin
    have hboth : Within K e.1 s s' ∧
        ∀ i pos, (s.workgroup e.1).invocation e.2 = .half i pos → i < K.total := by
      by_cases hown : K.ownExpert e.1 < K.params.nExpert
      · obtain ⟨order, hholds⟩ := (h e.1 hwg).1 hown
        refine ⟨(((h e.1 hwg).1 hown).advance hK hown ht hstep).2, fun i pos hat => ?_⟩
        obtain ⟨_, hget⟩ := hholds.half_at _ ht i pos hat
        exact ((hholds.mem_iff i).mp (List.mem_of_getElem? hget)).1
      · obtain ⟨rfl, henter, _⟩ := ((h e.1 hwg).2 hown).advance hown ht hstep
        exact ⟨within_moveTo .., fun i pos hat => by rw [henter] at hat; cases hat⟩
    obtain ⟨a, hmoved, hlt⟩ := advance_rank hK hboth.2 hstep
    have hle : ∀ t, ((s'.workgroup e.1).invocation t).rank K.total ≤
        ((s.workgroup e.1).invocation t).rank K.total := by
      intro t'
      rw [hmoved]
      by_cases heq : t' = e.2
      · rw [heq, Function.update_self]
        exact Nat.le_of_lt hlt
      · rw [Function.update_of_ne heq]
    refine Finset.sum_lt_sum (fun wg _ => ?_) ⟨e.1, (K.mem_grid e.1).mpr hwg, ?_⟩
    · by_cases heq : wg = e.1
      · exact heq ▸ Finset.sum_le_sum fun t _ => hle t
      · rw [hboth.1.workgroup wg heq]
    · refine Finset.sum_lt_sum (fun t _ => hle t) ⟨e.2, Finset.mem_range.mpr ht, ?_⟩
      rwa [hmoved, Function.update_self]

/-- A run is no longer than the work it has done. -/
theorem length_add_work_le (hK : K.Fits) {es : List ((Nat × Nat) × Nat)} {counts : Nat × Nat → Nat}
    (h : K.Sound s) (hrun : (K.machine counts T).run s es = some s') : es.length + K.work s' ≤ K.work s := by
  induction es generalizing s with
  | nil =>
      simp only [Transition.run_nil, Option.some.injEq] at hrun
      rw [hrun, List.length_nil, Nat.zero_add]
  | cons e es ih =>
      obtain ⟨u, hstep, hrest⟩ := Transition.run_cons.mp hrun
      have hless := work_step hK h hstep
      have hmore := ih (Sound.step hK h hstep) hrest
      rw [List.length_cons]
      omega

/-- Not all invocations of a workgroup wait for each other. -/
theorem exists_advance (hleft : ∃ t < K.wgSize, (s.workgroup wg).invocation t ≠ .left) :
    ∃ t < K.wgSize, (K.advance s wg t ((s.workgroup wg).invocation t)).isSome := by
  by_cases henter : ∃ t < K.wgSize, (s.workgroup wg).invocation t = .enter
  · obtain ⟨t, ht, hat⟩ := henter
    refine ⟨t, ht, ?_⟩
    rw [hat, Gather.advance]
    split <;> rfl
  · have hnone : ∀ t < K.wgSize, (s.workgroup wg).invocation t ≠ .enter :=
      fun t ht hat => henter ⟨t, ht, hat⟩
    by_cases hpast : ∀ t < K.wgSize, ((s.workgroup wg).invocation t).IsPast
    · obtain ⟨t, ht, hat⟩ := hleft
      refine ⟨t, ht, ?_⟩
      have hp := hpast t ht
      cases hinv : (s.workgroup wg).invocation t with
      | gathered =>
          rw [Gather.advance, if_pos hpast]
          rfl
      | closing => rfl
      | left => exact absurd hinv hat
      | _ => simp [hinv, Invocation.IsPast] at hp
    · obtain ⟨t, ht, hp⟩ : ∃ t < K.wgSize, ¬ ((s.workgroup wg).invocation t).IsPast := by
        simpa only [not_forall, exists_prop] using hpast
      refine ⟨t, ht, ?_⟩
      cases hinv : (s.workgroup wg).invocation t with
      | enter => exact absurd hinv (hnone t ht)
      | cleared =>
          rw [Gather.advance, if_pos hnone]
          rfl
      | loop i =>
          rw [Gather.advance]
          split
          · split <;> rfl
          · rfl
      | found i => rfl
      | claimed i pos => rfl
      | half i pos => rfl
      | _ => simp [hinv, Invocation.IsPast] at hp

/-- A dispatch in which no invocation can step is finished. -/
theorem finished_of_stuck (hstuck : ∀ e, K.step s e = none) : K.Finished s := by
  intro wg hwg t ht
  by_contra hat
  obtain ⟨t', ht', hsome⟩ := exists_advance ⟨t, ht, hat⟩
  have hnone := hstuck (wg, t')
  rw [Gather.step, if_pos ⟨hwg, ht'⟩] at hnone
  rw [hnone] at hsome
  cases hsome

/-- Every run can be carried on until no invocation can step. -/
theorem exists_stuck (hK : K.Fits) (counts : Nat × Nat → Nat) (T : Tables) (h : K.Sound s) :
    ∃ es s', (K.machine counts T).run s es = some s' ∧ ∀ e, K.step s' e = none := by
  induction hwork : K.work s using Nat.strongRecOn generalizing s with
  | ind n ih =>
      by_cases hstuck : ∀ e, K.step s e = none
      · exact ⟨[], s, rfl, hstuck⟩
      · obtain ⟨e, he⟩ := not_forall.mp hstuck
        obtain ⟨u, hu⟩ := Option.ne_none_iff_exists'.mp he
        obtain ⟨es, s', hrun, hend⟩ := ih (K.work u) (hwork ▸ work_step hK h hu) (Sound.step hK h hu) rfl
        exact ⟨e :: es, s', Transition.run_cons.mpr ⟨u, hu, hrun⟩, hend⟩

/-- **The gather shader ends with every expert's pairs listed.** Whatever order the invocations of all the
workgroups step in and whatever the tables and counters held, a run takes a bounded number of steps, and
where no invocation can step any more the count of each expert is the number of the pairs of a token and a
slot that name it, and its part of the tables lists those pairs, each once. -/
theorem gather_ends_listed (hK : K.Fits) {counts : Nat × Nat → Nat} {es : List ((Nat × Nat) × Nat)}
    (hrun : (K.machine counts T).run (K.machine counts T).start es = some s) :
    es.length ≤ K.numWgX * K.numWgY * (K.wgSize * (4 * K.total + 6)) ∧
      ((∀ e, K.step s e = none) → ∀ e < K.params.nExpert,
        s.tables.gatheredCountIds e = (K.routed e).length ∧
          (K.listed s.tables e).Perm (K.routed e)) := by
  have hreach : (K.machine counts T).Reachable s := ⟨es, hrun⟩
  constructor
  · have hwork := length_add_work_le hK (sound_of_reachable hK .start) hrun
    have hstart : K.work (K.machine counts T).start =
        K.numWgX * K.numWgY * (K.wgSize * (4 * K.total + 6)) := by
      simp [work, machine, Invocation.rank, Finset.card_product]
    omega
  · intro hstuck e he
    exact gather_lists hK hreach (finished_of_stuck hstuck) he

/-- Two tokens for one expert, met in the order of the second invocation first. -/
def twoTokens : Gather where
  params := { offsetIds := 0, nExpert := 1, nExpertUsed := 1, nTokens := 2, strideIds1 := 1 }
  wgSize := 2
  numWgX := 1
  numWgY := 1
  ids _ := 0

theorem twoTokens_fits : twoTokens.Fits := by
  constructor <;> decide

def twoTokensRun : List ((Nat × Nat) × Nat) :=
  [0, 1, 1, 0, 1, 1, 0, 0, 1, 0, 1, 0, 1, 0, 1, 0, 0].map fun t => ((0, 0), t)

theorem gather_ends_listed_twoTokens :
    ∃ s, (twoTokens.machine (fun _ => 7) ⟨fun _ => 9, fun _ => 9, fun _ => 9⟩).run
        (twoTokens.machine (fun _ => 7) ⟨fun _ => 9, fun _ => 9, fun _ => 9⟩).start twoTokensRun = some s ∧
      twoTokensRun.length ≤ 1 * 1 * (2 * (4 * 2 + 6)) ∧
      ((∀ e, twoTokens.step s e = none) → ∀ e < 1,
        s.tables.gatheredCountIds e = (twoTokens.routed e).length ∧
          (twoTokens.listed s.tables e).Perm (twoTokens.routed e)) := by
  have hsome : ((twoTokens.machine (fun _ => 7) ⟨fun _ => 9, fun _ => 9, fun _ => 9⟩).run
      (twoTokens.machine (fun _ => 7) ⟨fun _ => 9, fun _ => 9, fun _ => 9⟩).start twoTokensRun).isSome := by
    decide
  obtain ⟨s, hs⟩ := Option.isSome_iff_exists.mp hsome
  exact ⟨s, hs, gather_ends_listed twoTokens_fits hs⟩

end Gather

end MulMatId

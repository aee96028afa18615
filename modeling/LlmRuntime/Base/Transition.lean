import Mathlib.Data.List.Induction
import Mathlib.Data.Option.Basic

/-!
# Systems that handle one event at a time

A system has a start state and a partial step: an event it cannot take in a state is refused. A run
is a list of events taken one after another. Everything proved about a run is proved here once, from
what one step does: an invariant carries over, and a property that a run has gained was gained at one of
its steps.
-/

structure Transition (σ ε : Type*) where
  start : σ
  step : σ → ε → Option σ

namespace Transition

variable {σ ε : Type*} (M : Transition σ ε)

/-- The state after a list of events, if none of them is refused. -/
def run : σ → List ε → Option σ
  | s, [] => some s
  | s, e :: es => (M.step s e).bind fun t => run t es

/-- A state some run from the start ends in. -/
def Reachable (s : σ) : Prop := ∃ es, M.run M.start es = some s

/-- Every step of the run from `s` along `es` is taken in a state that meets `C`. -/
def Along (C : σ → ε → Prop) : σ → List ε → Prop
  | _, [] => True
  | s, e :: es => C s e ∧ ∀ t, M.step s e = some t → Along C t es

instance Along.decidable {C : σ → ε → Prop} [∀ s e, Decidable (C s e)] :
    (s : σ) → (es : List ε) → Decidable (M.Along C s es)
  | _, [] => isTrue trivial
  | s, e :: es =>
      match h : M.step s e with
      | none => decidable_of_iff (C s e) (by simp [Along, h])
      | some t =>
          have : Decidable (M.Along C t es) := Along.decidable t es
          decidable_of_iff (C s e ∧ M.Along C t es) (by simp [Along, h])

@[simp] theorem run_nil (s : σ) : M.run s [] = some s := rfl

@[simp] theorem along_nil (C : σ → ε → Prop) (s : σ) : M.Along C s [] := trivial

variable {M}

theorem run_cons {s t : σ} {e : ε} {es : List ε} :
    M.run s (e :: es) = some t ↔ ∃ u, M.step s e = some u ∧ M.run u es = some t := by
  simp only [run, Option.bind_eq_some_iff]

theorem run_singleton {s t : σ} {e : ε} : M.run s [e] = some t ↔ M.step s e = some t := by
  rw [run_cons]
  simp

theorem run_append {s t : σ} {es fs : List ε} :
    M.run s (es ++ fs) = some t ↔ ∃ u, M.run s es = some u ∧ M.run u fs = some t := by
  induction es generalizing s with
  | nil => simp
  | cons e es ih =>
      simp only [List.cons_append, run_cons, ih]
      constructor
      · rintro ⟨u, hstep, v, hrun, hrest⟩
        exact ⟨v, ⟨u, hstep, hrun⟩, hrest⟩
      · rintro ⟨v, ⟨u, hstep, hrun⟩, hrest⟩
        exact ⟨u, hstep, v, hrun, hrest⟩

theorem run_concat {s t : σ} {es : List ε} {e : ε} :
    M.run s (es ++ [e]) = some t ↔ ∃ u, M.run s es = some u ∧ M.step u e = some t := by
  simp only [run_append, run_singleton]

theorem run_after {s t u v : σ} {es fs : List ε} {e : ε} (hrun : M.run s (es ++ e :: fs) = some t)
    (hes : M.run s es = some u) (hstep : M.step u e = some v) : M.run v fs = some t := by
  obtain ⟨u', hu', hrest⟩ := run_append.mp hrun
  cases hes.symm.trans hu'
  obtain ⟨v', hv', hrest⟩ := run_cons.mp hrest
  cases hstep.symm.trans hv'
  exact hrest

/-- A machine that refuses nothing. -/
theorem exists_run (htotal : ∀ s e, ∃ t, M.step s e = some t) (s : σ) (es : List ε) :
    ∃ t, M.run s es = some t := by
  induction es generalizing s with
  | nil => exact ⟨s, rfl⟩
  | cons e es ih =>
      obtain ⟨u, hstep⟩ := htotal s e
      obtain ⟨t, hrun⟩ := ih u
      exact ⟨t, run_cons.mpr ⟨u, hstep, hrun⟩⟩

/-- A function that each step of a machine follows is followed along a list by a run. -/
theorem exists_run_foldl {α τ : Type*} {f : τ → α → τ} {label : ε → α} (view : σ → τ)
    (hfollows : ∀ s a, ∃ e t, label e = a ∧ M.step s e = some t ∧ view t = f (view s) a) (s : σ) (as : List α) :
    ∃ es t, es.map label = as ∧ M.run s es = some t ∧ view t = as.foldl f (view s) := by
  induction as generalizing s with
  | nil => exact ⟨[], s, rfl, rfl, rfl⟩
  | cons a as ih =>
      obtain ⟨e, u, rfl, hstep, hview⟩ := hfollows s a
      obtain ⟨es, t, hlabels, hrun, hend⟩ := ih u
      refine ⟨e :: es, t, ?_, run_cons.mpr ⟨u, hstep, hrun⟩, ?_⟩
      · rw [List.map_cons, hlabels]
      · rw [hend, hview, List.foldl_cons]

theorem Reachable.start : M.Reachable M.start := ⟨[], rfl⟩

theorem Reachable.run {s t : σ} {es : List ε} (hs : M.Reachable s) (hrun : M.run s es = some t) :
    M.Reachable t := by
  obtain ⟨before, hbefore⟩ := hs
  exact ⟨before ++ es, run_append.mpr ⟨s, hbefore, hrun⟩⟩

theorem Reachable.step {s t : σ} {e : ε} (hs : M.Reachable s) (hstep : M.step s e = some t) :
    M.Reachable t :=
  hs.run (run_singleton.mpr hstep)

/-! ### Invariants -/

/-- An invariant kept by the steps taken in a state that meets `C` holds after any run along which
every step does. -/
theorem run_keeps_along {C : σ → ε → Prop} {P : σ → Prop}
    (hkeep : ∀ s e t, P s → C s e → M.step s e = some t → P t) {s t : σ} {es : List ε} (hs : P s)
    (halong : M.Along C s es) (hrun : M.run s es = some t) : P t := by
  induction es generalizing s with
  | nil =>
      simp only [run_nil, Option.some.injEq] at hrun
      exact hrun ▸ hs
  | cons e es ih =>
      obtain ⟨u, hstep, hrest⟩ := run_cons.mp hrun
      exact ih (hkeep s e u hs halong.1 hstep) (halong.2 u hstep) hrest

theorem along_of_forall {C : σ → ε → Prop} (h : ∀ s e, C s e) (s : σ) (es : List ε) :
    M.Along C s es := by
  induction es generalizing s with
  | nil => trivial
  | cons e es ih => exact ⟨h s e, fun t _ => ih t⟩

theorem run_keeps {P : σ → Prop} (hkeep : ∀ s e t, P s → M.step s e = some t → P t) {s t : σ}
    {es : List ε} (hs : P s) (hrun : M.run s es = some t) : P t :=
  run_keeps_along (C := fun _ _ => True) (fun s e t hP _ => hkeep s e t hP) hs
    (along_of_forall (fun _ _ => trivial) s es) hrun

theorem Reachable.keeps {P : σ → Prop} (hstart : P M.start)
    (hkeep : ∀ s e t, P s → M.step s e = some t → P t) {s : σ} (hs : M.Reachable s) : P s := by
  obtain ⟨es, hrun⟩ := hs
  exact run_keeps hkeep hstart hrun

/-- The same for an invariant whose step may use that the state before it is reachable. -/
theorem Reachable.keeps_reachable {P : σ → Prop} (hstart : P M.start)
    (hkeep : ∀ s e t, M.Reachable s → P s → M.step s e = some t → P t) {s : σ}
    (hs : M.Reachable s) : P s :=
  (Reachable.keeps (P := fun s => M.Reachable s ∧ P s) ⟨.start, hstart⟩
    (fun s e t h hstep => ⟨h.1.step hstep, hkeep s e t h.1 h.2 hstep⟩) hs).2

/-! ### Runs cut at a step -/

theorem along_append {C : σ → ε → Prop} {s t : σ} {es fs : List ε} (hrun : M.run s es = some t) :
    M.Along C s (es ++ fs) ↔ M.Along C s es ∧ M.Along C t fs := by
  induction es generalizing s with
  | nil =>
      simp only [run_nil, Option.some.injEq] at hrun
      simp [hrun]
  | cons e es ih =>
      obtain ⟨u, hstep, hrest⟩ := run_cons.mp hrun
      simp only [List.cons_append, Along, hstep, Option.some.injEq, forall_eq', ih hrest, and_assoc]

/-- What holds of a run and the state it ends in, by what the last step adds to the run. -/
theorem run_history_along {C : σ → ε → Prop} {P : List ε → σ → Prop} (hstart : P [] M.start)
    (hstep : ∀ es s e t, M.run M.start es = some s → P es s → C s e → M.step s e = some t →
      P (es ++ [e]) t) {es : List ε} {s : σ} (halong : M.Along C M.start es)
    (hrun : M.run M.start es = some s) : P es s := by
  induction es using List.reverseRecOn generalizing s with
  | nil =>
      simp only [run_nil, Option.some.injEq] at hrun
      exact hrun ▸ hstart
  | append_singleton es e ih =>
      obtain ⟨u, hes, hlast⟩ := run_concat.mp hrun
      obtain ⟨hbefore, hC, -⟩ := (along_append hes).mp halong
      exact hstep es u e s hes (ih hbefore hes) hC hlast

theorem Along.mono {C D : σ → ε → Prop} (h : ∀ s e, C s e → D s e) {s : σ} {es : List ε}
    (halong : M.Along C s es) : M.Along D s es := by
  induction es generalizing s with
  | nil => trivial
  | cons e es ih => exact ⟨h s e halong.1, fun t ht => ih (halong.2 t ht)⟩

theorem Along.and {C D : σ → ε → Prop} {s : σ} {es : List ε} (hC : M.Along C s es) (hD : M.Along D s es) :
    M.Along (fun s e => C s e ∧ D s e) s es := by
  induction es generalizing s with
  | nil => trivial
  | cons e es ih => exact ⟨⟨hC.1, hD.1⟩, fun t ht => ih (hC.2 t ht) (hD.2 t ht)⟩

theorem Along.forall_mem {C : σ → ε → Prop} {Q : ε → Prop} (h : ∀ s e, C s e → Q e) {s t : σ}
    {es : List ε} (halong : M.Along C s es) (hrun : M.run s es = some t) : ∀ e ∈ es, Q e := by
  induction es generalizing s with
  | nil => simp
  | cons e es ih =>
      obtain ⟨u, hstep, hrest⟩ := run_cons.mp hrun
      rintro f (_ | ⟨_, hf⟩)
      · exact h s _ halong.1
      · exact ih (halong.2 u hstep) hrest f hf

/-- `P` holds in every state of the run from the start along `es`. -/
def Throughout (M : Transition σ ε) (P : σ → Prop) (es : List ε) : Prop :=
  ∀ es₁ es₂ s, es = es₁ ++ es₂ → M.run M.start es₁ = some s → P s

theorem throughout_concat {P : σ → Prop} {es : List ε} {e : ε} {t : σ}
    (hrun : M.run M.start (es ++ [e]) = some t) :
    M.Throughout P (es ++ [e]) ↔ M.Throughout P es ∧ P t := by
  constructor
  · intro h
    refine ⟨fun es₁ es₂ s hes hs => h es₁ (es₂ ++ [e]) s ?_ hs, h _ [] t (List.append_nil _).symm hrun⟩
    rw [hes, List.append_assoc]
  · intro ⟨h, ht⟩ es₁ es₂ s hes hs
    rcases List.eq_nil_or_concat es₂ with rfl | ⟨es₃, f, rfl⟩
    · rw [List.append_nil] at hes
      cases hs.symm.trans (hes ▸ hrun)
      exact ht
    · rw [List.concat_eq_append, ← List.append_assoc] at hes
      exact h es₁ es₃ s (List.append_inj_left' hes rfl) hs

/-- Where a step loses `P` if and only if it does not meet `C`, so does a run; `D` is what is taken for
granted of every step, and `I` what that comes to. -/
theorem along_iff_throughout_of {C D : σ → ε → Prop} {I P : σ → Prop} (hI : I M.start) (hP : P M.start)
    (hkeep : ∀ s e t, I s → D s e → M.step s e = some t → I t)
    (hstep : ∀ s e t, I s → P s → D s e → M.step s e = some t → (P t ↔ C s e)) {es : List ε} {s : σ}
    (hD : M.Along D M.start es) (hrun : M.run M.start es = some s) :
    M.Along C M.start es ↔ M.Throughout P es := by
  induction es using List.reverseRecOn generalizing s with
  | nil =>
      refine iff_of_true trivial fun es₁ es₂ u hes hu => ?_
      obtain ⟨rfl, -⟩ := List.append_eq_nil_iff.mp hes.symm
      cases hu
      exact hP
  | append_singleton es e ih =>
      obtain ⟨u, hes, hlast⟩ := run_concat.mp hrun
      obtain ⟨hbefore, hDe, -⟩ := (along_append hes).mp hD
      have hu : I u := run_keeps_along hkeep hI hbefore hes
      have hPu (h : M.Throughout P es) : P u := h es [] u (List.append_nil _).symm hes
      rw [along_append hes, throughout_concat hrun, ih hbefore hes]
      constructor
      · intro ⟨h, hC, _⟩
        exact ⟨h, (hstep u e s hu (hPu h) hDe hlast).mpr hC⟩
      · intro ⟨h, hs⟩
        exact ⟨h, (hstep u e s hu (hPu h) hDe hlast).mp hs, fun _ _ => trivial⟩

theorem along_iff_throughout {C : σ → ε → Prop} {P : σ → Prop} (hstart : P M.start)
    (hstep : ∀ s e t, M.Reachable s → P s → M.step s e = some t → (P t ↔ C s e)) {es : List ε} {s : σ}
    (hrun : M.run M.start es = some s) : M.Along C M.start es ↔ M.Throughout P es :=
  along_iff_throughout_of (D := fun _ _ => True) (I := M.Reachable) .start hstart
    (fun _ _ _ hs _ h => hs.step h) (fun s e t hs hP _ => hstep s e t hs hP)
    (along_of_forall (fun _ _ => trivial) _ _) hrun

/-- **What a run has gained, one of its steps gained.** -/
theorem exists_turn {P : σ → Prop} {s t : σ} {es : List ε} (hrun : M.run s es = some t)
    (hs : ¬ P s) (ht : P t) :
    ∃ es₁ e es₂ u v, es = es₁ ++ e :: es₂ ∧ M.run s es₁ = some u ∧ ¬ P u ∧ M.step u e = some v ∧
      P v ∧ M.run v es₂ = some t := by
  induction es generalizing s with
  | nil =>
      simp only [run_nil, Option.some.injEq] at hrun
      exact absurd (hrun ▸ ht) hs
  | cons e es ih =>
      obtain ⟨u, hstep, hrest⟩ := run_cons.mp hrun
      by_cases hu : P u
      · exact ⟨[], e, es, s, u, rfl, rfl, hs, hstep, hu, hrest⟩
      · obtain ⟨es₁, f, es₂, v, w, rfl, hrun₁, hv, hturn, hw, hend⟩ := ih hrest hu
        exact ⟨e :: es₁, f, es₂, v, w, rfl, run_cons.mpr ⟨u, hstep, hrun₁⟩, hv, hturn, hw, hend⟩

end Transition

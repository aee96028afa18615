import Mathlib.Logic.Relation

/-!
# A handle that is opened on the way up

A task starts a program, and opens a handle for it on the way. The handle has to be closed by whatever
ends the program: a failure of the task, the exit of the program, a stop that comes before the program is
launched, or a stop that has waited for the end in vain. A stop that sees the end takes the handle to be
closed. Then no stop leaves the handle open, provided that what ends the program closes it.
-/

open Relation

inductive Stage where
  | starting
  | launched
  | ended
  deriving DecidableEq, Repr

/-- `stage` is that of the task. `gone`: the program has ended, as far as a stop can see. `resolved`: some
stop has come to its end. -/
structure Lease where
  stage : Stage
  isOpen : Bool
  gone : Bool
  stopping : Bool
  resolved : Bool
  deriving DecidableEq, Repr

namespace Lease

def initial : Lease := ⟨.starting, false, false, false, false⟩

inductive Move (l : Lease) : Lease → Prop where
  | acquire (h : l.stage = .starting) : Move l { l with isOpen := true }
  | refuse (h : l.stage = .starting) (hstop : l.stopping = true) :
      Move l { l with stage := .ended, isOpen := false, gone := true }
  | launch (h : l.stage = .starting) (hstop : l.stopping = false) : Move l { l with stage := .launched }
  | fail (h : l.stage ≠ .ended) : Move l { l with stage := .ended, isOpen := false, gone := true }
  | finish (h : l.stage = .launched) : Move l { l with stage := .ended }
  | exit (h : l.stage ≠ .starting) : Move l { l with isOpen := false, gone := true }
  /-- The end of a program whose handle is closed already. -/
  | die (h : l.stage ≠ .starting) (hclosed : l.isOpen = false) : Move l { l with gone := true }
  | stop : Move l { l with stopping := true }
  | resolve (hstop : l.stopping = true) (hgone : l.gone = true) : Move l { l with resolved := true }
  | giveUp (hstop : l.stopping = true) : Move l { l with isOpen := false, resolved := true }

structure Inv (l : Lease) : Prop where
  fresh : l.stage = .starting → l.gone = false
  closed : l.gone = true → l.isOpen = false
  stopping : l.resolved = true → l.stopping = true
  resolved : l.resolved = true → l.stage ≠ .starting → l.isOpen = false

variable {l m : Lease}

theorem Inv.initial : Inv initial := by
  constructor <;> simp [Lease.initial]

theorem Inv.move (hinv : Inv l) (h : Move l m) : Inv m := by
  obtain ⟨hfresh, hclosed, hstopping, hresolved⟩ := hinv
  cases h with
  | acquire hstage =>
      have hgone := hfresh hstage
      constructor <;> simp_all
  | launch hstage hstop =>
      have hnone : l.resolved = false := by
        apply Bool.eq_false_iff.mpr
        intro hsome
        rw [hstopping hsome] at hstop
        cases hstop
      constructor <;> simp_all
  | _ => constructor <;> simp_all

theorem Inv.moves (hinv : Inv l) (h : ReflTransGen Move l m) : Inv m := by
  induction h with
  | refl => exact hinv
  | tail _ hmove ih => exact ih.move hmove

/-- Once the task has ended and a stop has come to its end, the handle is closed. -/
theorem Inv.shut (hinv : Inv l) (hstage : l.stage = .ended) (hresolved : l.resolved = true) :
    l.isOpen = false :=
  hinv.resolved hresolved (by simp [hstage])

/-- For a program that keeps its stops in a list: an entry that is not `a` becomes another. -/
theorem mem_set_iff {α : Type*} {stops : List α} {i : Nat} {a b c : α} (hi : stops[i]? = some b) (hb : b ≠ a)
    (hc : c ≠ a) : a ∈ stops.set i c ↔ a ∈ stops := by
  rw [List.mem_iff_getElem?, List.mem_iff_getElem?]
  apply exists_congr
  intro j
  rw [List.getElem?_set]
  by_cases hij : i = j
  · subst hij
    simp [hi, hb, hc]
  · simp [hij]

end Lease

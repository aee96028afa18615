import Mathlib.Data.Bool.Basic
import Mathlib.Data.List.Basic
import Mathlib.Logic.Function.Basic

/-!
# Two copies of a value

Two sides keep a copy of one value each. A side that sets its copy tells the other over a channel that
loses and reorders nothing, and what a side is told replaces its copy. The `fate` of a side is what its
copy will be when everything on the way has arrived: at rest the copies agree if the fates do. A side
that sets its copy keeps the fates together exactly if the last word on its way, if there is one, is the
value it sets; a side that changes its copy without a word, exactly if there is a word on its way.
-/

open Function

structure Mirror (α : Type*) where
  value : Bool → α
  /-- `wire r` is on its way to side `r`. -/
  wire : Bool → List α

namespace Mirror

variable {α : Type*}

def fate (m : Mirror α) (r : Bool) : α := (m.wire r).getLast?.getD (m.value r)

def Agrees (m : Mirror α) : Prop := m.fate false = m.fate true

/-- Side `r` sets its copy and tells the other side. -/
def set (m : Mirror α) (r : Bool) (a : α) : Mirror α where
  value := update m.value r a
  wire := update m.wire (!r) (m.wire (!r) ++ [a])

/-- Side `r` changes its copy and tells nobody. -/
def slip (m : Mirror α) (r : Bool) (a : α) : Mirror α where
  value := update m.value r a
  wire := m.wire

/-- Side `r` takes in the first word on its way. -/
def take (m : Mirror α) (r : Bool) (a : α) (rest : List α) : Mirror α where
  value := update m.value r a
  wire := update m.wire r rest

variable {m : Mirror α} {r : Bool} {a : α} {rest : List α}

theorem agrees_iff (m : Mirror α) (r : Bool) : m.Agrees ↔ m.fate r = m.fate (!r) := by
  cases r with
  | false => exact Iff.rfl
  | true => exact eq_comm

theorem value_eq (hagrees : m.Agrees) (hrest : ∀ r, m.wire r = []) : m.value false = m.value true := by
  rw [Agrees, fate, fate, hrest, hrest] at hagrees
  exact hagrees

theorem fate_take (h : m.wire r = a :: rest) : (m.take r a rest).fate = m.fate := by
  funext s
  by_cases hs : s = r
  · rw [hs, fate, fate, take, h]
    dsimp only
    rw [update_self, update_self]
    cases rest with
    | nil => rfl
    | cons b rest =>
        rw [List.getLast?_cons_cons]
        cases hlast : (b :: rest).getLast? with
        | none =>
            rw [List.getLast?_eq_none_iff] at hlast
            cases hlast
        | some c => rfl
  · rw [fate, fate, take]
    dsimp only
    rw [update_of_ne hs, update_of_ne hs]

theorem agrees_take (h : m.wire r = a :: rest) : (m.take r a rest).Agrees ↔ m.Agrees := by
  rw [Agrees, fate_take h]
  exact Iff.rfl

theorem agrees_set : (m.set r a).Agrees ↔ ∀ b ∈ (m.wire r).getLast?, b = a := by
  have hother : (m.set r a).fate (!r) = a := by
    rw [fate, set]
    dsimp only
    rw [update_self, List.getLast?_concat, Option.getD_some]
  rw [agrees_iff _ r, hother, fate, set]
  dsimp only
  rw [update_self, update_of_ne (Bool.self_ne_not r)]
  cases (m.wire r).getLast? <;> simp

theorem agrees_slip (hagrees : m.Agrees) : (m.slip r a).Agrees ↔ (m.wire r = [] → m.value r = a) := by
  have hother : (m.slip r a).fate (!r) = m.fate r := by
    rw [(agrees_iff m r).mp hagrees, fate, fate, slip]
    dsimp only
    rw [update_of_ne (Bool.not_ne_self r)]
  rw [agrees_iff _ r, hother, fate, fate, slip]
  dsimp only
  rw [update_self]
  cases hwire : m.wire r with
  | nil => simp [eq_comm]
  | cons b rest => simp [List.getLast?_cons]

end Mirror

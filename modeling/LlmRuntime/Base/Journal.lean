import Mathlib.Data.List.Perm.Basic

/-!
# A journal of what is put

A store whose history is a list of puts that only grows; under a key there is what has been put last. What
has been true of the journal at some time between two looks at it is said by `Since`: this is how calls
that take their time are ordered.
-/

namespace Journal

open List

variable {κ β : Type*}

/-! ### What is under a key -/

section

variable [BEq κ] [LawfulBEq κ] {key : κ} {b : β} {puts : List (κ × β)}

def value (key : κ) (puts : List (κ × β)) : Option β := puts.reverse.lookup key

theorem mem_of_value (h : value key puts = some b) : (key, b) ∈ puts := by
  rw [value, lookup_eq_some_iff] at h
  obtain ⟨before, after, hsplit, -⟩ := h
  have hmem : (key, b) ∈ puts.reverse := by
    rw [hsplit]
    simp
  exact mem_reverse.mp hmem

/-- Under a key that has been put there is something. -/
theorem exists_value (h : (key, b) ∈ puts) : ∃ b', value key puts = some b' := by
  rw [← Option.isSome_iff_exists, value]
  by_contra hnone
  rw [Option.not_isSome_iff_eq_none, lookup_eq_none_iff] at hnone
  have hkey := hnone (key, b) (mem_reverse.mpr h)
  simp at hkey

end

/-! ### Between two looks -/

section

variable {ω : Type*} {P Q : List ω → Prop} {base base' now now' : List ω}

/-- `P` has been true of the journal after `base`, and before or at `now`. -/
def Since (P : List ω → Prop) (base now : List ω) : Prop := ∃ puts, base <+: puts ∧ puts <+: now ∧ P puts

theorem Since.of_now (h : base <+: now) (hP : P now) : Since P base now := ⟨now, h, prefix_rfl, hP⟩

theorem Since.mono (h : Since P base now) (hgrows : now <+: now') : Since P base now' := by
  obtain ⟨puts, hbase, hnow, hP⟩ := h
  exact ⟨puts, hbase, hnow.trans hgrows, hP⟩

theorem Since.imp (h : Since P base now) (himp : ∀ puts, base <+: puts → puts <+: now → P puts → Q puts) :
    Since Q base now := by
  obtain ⟨puts, hbase, hnow, hP⟩ := h
  exact ⟨puts, hbase, hnow, himp puts hbase hnow hP⟩

end

/-! ### Who has put what -/

/-- A part that is replaced by one that gives more. -/
theorem flatMap_set_perm {α ω : Type*} {f : α → List ω} {l : List α} {i : Nat} {a b : α} {more : List ω}
    (ha : l[i]? = some a) (hf : f b ~ f a ++ more) : (l.set i b).flatMap f ~ l.flatMap f ++ more := by
  obtain ⟨hi, rfl⟩ := List.getElem?_eq_some_iff.mp ha
  have hsplit : l = l.take i ++ l[i] :: l.drop (i + 1) := by
    rw [getElem_cons_drop, take_append_drop]
  have hset : l.set i b = l.take i ++ b :: l.drop (i + 1) := by
    rw [set_eq_take_append_cons_drop, if_pos hi]
  rw [hset]
  conv_rhs => rw [hsplit]
  simp only [flatMap_append, flatMap_cons, append_assoc]
  apply Perm.append_left
  calc f b ++ (l.drop (i + 1)).flatMap f
      ~ (f l[i] ++ more) ++ (l.drop (i + 1)).flatMap f := hf.append_right _
    _ = f l[i] ++ (more ++ (l.drop (i + 1)).flatMap f) := append_assoc _ _ _
    _ ~ f l[i] ++ ((l.drop (i + 1)).flatMap f ++ more) := perm_append_comm.append_left _

end Journal

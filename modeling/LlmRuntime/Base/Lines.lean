import Mathlib.Data.List.Basic

/-!
# Lines of a stream

A stream is cut at a separator. `closedBy sep l` are the pieces a separator ends, and `pending sep l` is
what comes after the last one; what is pending is all that a reader has to keep.
-/

namespace List

variable {α : Type*} [BEq α] {sep : α} {l m : List α}

def closedBy (sep : α) (l : List α) : List (List α) := (l.splitOn sep).dropLast

def pending (sep : α) (l : List α) : List α := (l.splitOn sep).getLastD []

/-- All pieces, the last one only if there is something in it. -/
def linesOf (sep : α) (l : List α) : List (List α) :=
  l.closedBy sep ++ if l.pending sep = [] then [] else [l.pending sep]

variable [LawfulBEq α]

theorem closedBy_of_notMem (h : sep ∉ l) : l.closedBy sep = [] := by
  rw [closedBy, splitOn_eq_singleton h, dropLast_singleton]

theorem pending_of_notMem (h : sep ∉ l) : l.pending sep = l := by
  rw [pending, splitOn_eq_singleton h, getLastD_cons, getLastD_nil]

theorem closedBy_append_cons (h : sep ∉ l) : (l ++ sep :: m).closedBy sep = l :: m.closedBy sep := by
  rw [closedBy, splitOn_append_cons_self_of_not_mem h, dropLast_cons_of_ne_nil (splitOn_ne_nil sep m),
    closedBy]

theorem pending_append_cons (l m : List α) : (l ++ sep :: m).pending sep = m.pending sep := by
  rw [pending, splitOn_append_cons_self, getLastD_eq_getLast?,
    getLast?_append_of_ne_nil _ (splitOn_ne_nil sep m), ← getLastD_eq_getLast?, pending]

/-- A stream has no separator in it, or it is a piece, a separator and a shorter stream. -/
theorem lines_induction (sep : α) {P : List α → Prop} (last : ∀ l, sep ∉ l → P l)
    (piece : ∀ l m, sep ∉ l → P m → P (l ++ sep :: m)) (l : List α) : P l := by
  by_cases hmem : sep ∈ l
  · obtain ⟨front, rest, heq, hnot⟩ := eq_append_cons_of_mem hmem
    have hshorter : rest.length < l.length := by
      rw [heq, length_append, length_cons]
      omega
    rw [heq]
    exact piece front rest hnot (lines_induction sep last piece rest)
  · exact last l hmem
termination_by l.length

theorem notMem_pending (l : List α) : sep ∉ l.pending sep := by
  induction l using lines_induction sep with
  | last l hnot => rwa [pending_of_notMem hnot]
  | piece front rest hnot ih => rwa [pending_append_cons]

theorem closedBy_append (l m : List α) :
    (l ++ m).closedBy sep = l.closedBy sep ++ (l.pending sep ++ m).closedBy sep := by
  induction l using lines_induction sep with
  | last l hnot => rw [closedBy_of_notMem hnot, pending_of_notMem hnot, nil_append]
  | piece front rest hnot ih =>
      rw [append_assoc, cons_append, closedBy_append_cons hnot, closedBy_append_cons hnot,
        pending_append_cons, ih, cons_append]

theorem pending_append (l m : List α) :
    (l ++ m).pending sep = (l.pending sep ++ m).pending sep := by
  induction l using lines_induction sep with
  | last l hnot => rw [pending_of_notMem hnot]
  | piece front rest hnot ih =>
      rw [append_assoc, cons_append, pending_append_cons, pending_append_cons, ih]

end List

import Mathlib.Data.List.Basic
import Mathlib.Data.Sum.Basic

/-!
# Chapters of a list

A list of headings and entries is what stands before the first heading, and every heading with the entries
up to the next one. Nothing is lost in between: the list can be put together again.
-/

namespace List

variable {η β : Type*}

abbrev Chapters (η β : Type*) := List β × List (η × List β)

def chapters : List (η ⊕ β) → Chapters η β
  | [] => ([], [])
  | .inl h :: l => ([], (h, (chapters l).1) :: (chapters l).2)
  | .inr b :: l => (b :: (chapters l).1, (chapters l).2)

/-- The list that `c` are the chapters of. -/
def Chapters.flatten (c : Chapters η β) : List (η ⊕ β) :=
  c.1.map .inr ++ c.2.flatMap fun t => .inl t.1 :: t.2.map .inr

variable {l : List (η ⊕ β)} {h : η}

theorem flatten_chapters (l : List (η ⊕ β)) : Chapters.flatten (chapters l) = l := by
  induction l with
  | nil => rfl
  | cons a l ih =>
      unfold Chapters.flatten at ih ⊢
      cases a with
      | inl h => simpa only [chapters, map_nil, nil_append, flatMap_cons, cons_append] using congrArg _ ih
      | inr b => simpa only [chapters, map_cons, cons_append] using congrArg _ ih

theorem chapters_append_inl (l m : List (η ⊕ β)) (h : η) :
    chapters (l ++ .inl h :: m) =
      ((chapters l).1, (chapters l).2 ++ (h, (chapters m).1) :: (chapters m).2) := by
  induction l with
  | nil => rfl
  | cons a l ih => cases a <;> simp only [cons_append, chapters, ih]

/-- The chapter of a heading is what follows it up to the next one. -/
theorem filterMap_getRight_takeWhile (l : List (η ⊕ β)) :
    (l.takeWhile fun a => a.isRight).filterMap Sum.getRight? = (chapters l).1 := by
  induction l with
  | nil => rfl
  | cons a l ih =>
      cases a with
      | inl h => rfl
      | inr b => exact congrArg (b :: ·) ih

theorem inl_mem_iff : .inl h ∈ l ↔ ∃ body, (h, body) ∈ (chapters l).2 := by
  induction l with
  | nil => simp [chapters]
  | cons a l ih =>
      cases a with
      | inl g => simp [chapters, ih, exists_or]
      | inr b => simp [chapters, ih]

theorem filterMap_getRight_chapters (l : List (η ⊕ β)) :
    l.filterMap Sum.getRight? = (chapters l).1 ++ (chapters l).2.flatMap Prod.snd := by
  induction l with
  | nil => rfl
  | cons a l ih =>
      cases a with
      | inl h => exact ih
      | inr b =>
          show b :: l.filterMap Sum.getRight? = b :: (chapters l).1 ++ (chapters l).2.flatMap Prod.snd
          rw [ih, cons_append]

/-- Where one chapter of a list stands. -/
theorem eq_append_of_chapters {l : List (η ⊕ β)} {first last : List (η × List β)} {body : List β}
    (heq : (chapters l).2 = first ++ (h, body) :: last) :
    ∃ before after, l = before ++ .inl h :: after ∧ (chapters before).2 = first ∧
      (chapters after).1 = body ∧ (chapters after).2 = last := by
  induction l generalizing first with
  | nil => cases first <;> cases heq
  | cons a l ih =>
      cases a with
      | inr b =>
          obtain ⟨before, after, rfl, hfirst, hbody, hlast⟩ := ih heq
          exact ⟨.inr b :: before, after, rfl, hfirst, hbody, hlast⟩
      | inl g =>
          cases first with
          | nil =>
              obtain ⟨hhead, rfl⟩ := List.cons.inj heq
              obtain ⟨rfl, rfl⟩ := Prod.mk.inj hhead
              exact ⟨[], l, rfl, rfl, rfl, rfl⟩
          | cons c first =>
              obtain ⟨hhead, htail⟩ := List.cons.inj heq
              obtain ⟨before, after, rfl, hfirst, hbody, hlast⟩ := ih htail
              refine ⟨.inl g :: before, after, rfl, ?_, hbody, hlast⟩
              rw [chapters_append_inl] at hhead
              rw [← hhead, ← hfirst]
              rfl

end List

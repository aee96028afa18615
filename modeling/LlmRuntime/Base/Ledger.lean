import LlmRuntime.Base.JsMap
import Mathlib.Data.List.Induction

/-!
# A table read off a list

Some items of a list give a key a value. A table takes them in order, so what it holds of a key is what
the last item that gives the key a value gives it. Where no two items give one key a value, any does.
-/

namespace Ledger

variable {α κ ν : Type*} {gives : α → κ → ν → Prop} {l : List α} {k : κ} {v v' : ν}

/-- The last item that gives `k` a value gives it `v`. -/
def Last (gives : α → κ → ν → Prop) (l : List α) (k : κ) (v : ν) : Prop :=
  ∃ before a after, l = before ++ a :: after ∧ gives a k v ∧ ∀ b ∈ after, ∀ v', ¬gives b k v'

theorem not_last_nil : ¬Last gives [] k v := by
  intro h
  obtain ⟨before, a, after, heq, -⟩ := h
  exact List.append_ne_nil_of_right_ne_nil before (List.cons_ne_nil a after) heq.symm

theorem Last.exists_mem (h : Last gives l k v) : ∃ a ∈ l, gives a k v := by
  obtain ⟨before, a, after, rfl, ha, -⟩ := h
  exact ⟨a, by simp, ha⟩

theorem last_concat {a : α} :
    Last gives (l ++ [a]) k v ↔ gives a k v ∨ (∀ v', ¬gives a k v') ∧ Last gives l k v := by
  constructor
  · intro h
    obtain ⟨before, b, after, heq, hb, hafter⟩ := h
    induction after using List.reverseRecOn with
    | nil =>
        obtain ⟨-, hab⟩ := List.append_inj' heq rfl
        rw [List.singleton_inj.mp hab]
        exact Or.inl hb
    | append_singleton after c =>
        rw [← List.cons_append, ← List.append_assoc] at heq
        obtain ⟨rfl, hac⟩ := List.append_inj' heq rfl
        rw [List.singleton_inj.mp hac]
        refine Or.inr ⟨hafter c (by simp), before, b, after, rfl, hb, ?_⟩
        exact fun d hd => hafter d (List.mem_append_left _ hd)
  · intro h
    cases h with
    | inl ha => exact ⟨l, a, [], rfl, ha, by simp⟩
    | inr h =>
        obtain ⟨ha, before, b, after, rfl, hb, hafter⟩ := h
        refine ⟨before, b, after ++ [a], by simp, hb, ?_⟩
        intro c hc
        rw [List.mem_append, List.mem_singleton] at hc
        cases hc with
        | inl hc => exact hafter c hc
        | inr hc => exact hc ▸ ha

/-- Of the items that give a key a value one is the last. -/
theorem exists_last_iff : (∃ v, Last gives l k v) ↔ ∃ a ∈ l, ∃ v, gives a k v := by
  constructor
  · intro ⟨v, h⟩
    obtain ⟨a, ha, hgives⟩ := h.exists_mem
    exact ⟨a, ha, v, hgives⟩
  · intro ⟨a, ha, hgives⟩
    induction l using List.reverseRecOn with
    | nil => exact absurd ha List.not_mem_nil
    | append_singleton l b ih =>
        by_cases hb : ∃ v, gives b k v
        · obtain ⟨v, hb⟩ := hb
          exact ⟨v, last_concat.mpr (.inl hb)⟩
        · rw [List.mem_append, List.mem_singleton] at ha
          rcases ha with ha | rfl
          · obtain ⟨v, hlast⟩ := ih ha
            exact ⟨v, last_concat.mpr (.inr ⟨not_exists.mp hb, hlast⟩)⟩
          · exact absurd hgives hb

/-- Where each key is given a value by one item, that item is the last. -/
theorem last_iff_mem (h : l.Pairwise fun a b => ∀ k v v', gives a k v → ¬gives b k v') :
    Last gives l k v ↔ ∃ a ∈ l, gives a k v := by
  refine ⟨Last.exists_mem, ?_⟩
  intro hmem
  obtain ⟨a, ha, hgives⟩ := hmem
  obtain ⟨before, after, rfl⟩ := List.append_of_mem ha
  rw [List.pairwise_append, List.pairwise_cons] at h
  exact ⟨before, a, after, rfl, hgives, fun b hb v' => h.2.1.1 b hb k v v' hgives⟩

variable {entryOf : α → Option (κ × ν)}

/-- Where the entries have keys of their own, each is the last of its key. -/
theorem last_iff_mem_filterMap (hreads : ∀ a k v, entryOf a = some (k, v) ↔ gives a k v)
    (h : ((l.filterMap entryOf).map Prod.fst).Nodup) :
    Last gives l k v ↔ (k, v) ∈ l.filterMap entryOf := by
  rw [last_iff_mem, List.mem_filterMap]
  · simp only [hreads]
  · rw [List.Nodup, List.pairwise_map, List.pairwise_filterMap] at h
    refine h.imp fun {a b} hne k v v' ha hb => ?_
    exact hne (k, v) ((hreads a k v).mpr ha) (k, v') ((hreads b k v').mpr hb) rfl

variable [DecidableEq κ]

/-- What an item does to a table. -/
def post (entryOf : α → Option (κ × ν)) (table : JsMap κ ν) (a : α) : JsMap κ ν :=
  match entryOf a with
  | some entry => table.set entry.1 entry.2
  | none => table

theorem post_of_none {a : α} (h : entryOf a = none) (table : JsMap κ ν) : post entryOf table a = table := by
  rw [post, h]

theorem post_of_some {a : α} (h : entryOf a = some (k, v)) (table : JsMap κ ν) :
    post entryOf table a = table.set k v := by
  rw [post, h]

def tableOf (entryOf : α → Option (κ × ν)) (l : List α) : JsMap κ ν := l.foldl (post entryOf) .empty

/-- The table holds of a key what the last item that gives the key a value gives it. -/
theorem get_tableOf (hreads : ∀ a k v, entryOf a = some (k, v) ↔ gives a k v) :
    (tableOf entryOf l).get k = some v ↔ Last gives l k v := by
  induction l using List.reverseRecOn generalizing v with
  | nil => exact iff_of_false (by simp [tableOf]) not_last_nil
  | append_singleton l a ih =>
      rw [last_concat, ← ih, tableOf, List.foldl_concat, ← tableOf]
      simp only [← hreads]
      cases ha : entryOf a with
      | none =>
          rw [post_of_none ha]
          simp
      | some entry =>
          obtain ⟨k', w⟩ := entry
          rw [post_of_some ha, JsMap.get_set]
          by_cases hk : k = k'
          · simp [hk]
          · simp [hk, Ne.symm hk]

theorem has_tableOf : (tableOf entryOf l).has k ↔ ∃ a ∈ l, ∃ v, entryOf a = some (k, v) := by
  let gives (a : α) (k : κ) (v : ν) : Prop := entryOf a = some (k, v)
  have hlast : ∀ v, (tableOf entryOf l).get k = some v ↔ Last gives l k v := fun v => get_tableOf fun a k v => Iff.rfl
  rw [JsMap.has, Option.isSome_iff_exists, exists_congr hlast]
  exact exists_last_iff

end Ledger

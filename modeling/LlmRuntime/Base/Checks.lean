import Mathlib.Data.List.Forall2

/-!
# Checks in a row

A script that stops at its first `throw`. It ends well if each of its steps does.
-/

namespace Except

universe u v

variable {ε : Type v} {α β : Type u}

theorem bind_eq_ok {x : Except ε α} {f : α → Except ε β} {b : β} :
    x >>= f = .ok b ↔ ∃ a, x = .ok a ∧ f a = .ok b := by
  cases x with
  | error e => exact iff_of_false (fun h => by cases h) (fun ⟨a, ha, _⟩ => by cases ha)
  | ok a =>
      show f a = .ok b ↔ _
      simp

theorem andThen_eq_ok {x : Except ε PUnit.{u + 1}} {y : Except ε β} {b : β} :
    (x >>= fun _ => y) = .ok b ↔ x = .ok ⟨⟩ ∧ y = .ok b := by
  rw [bind_eq_ok]
  exact ⟨fun ⟨_, hx, hy⟩ => ⟨hx, hy⟩, fun ⟨hx, hy⟩ => ⟨⟨⟩, hx, hy⟩⟩

theorem ite_ok_eq_ok {p : Prop} [Decidable p] {e : ε} :
    (if p then .ok ⟨⟩ else .error e : Except ε PUnit.{u + 1}) = .ok ⟨⟩ ↔ p := by
  by_cases hp : p <;> simp [hp]

theorem ite_error_eq_ok {p : Prop} [Decidable p] {e : ε} :
    (if p then .error e else .ok ⟨⟩ : Except ε PUnit.{u + 1}) = .ok ⟨⟩ ↔ ¬p := by
  by_cases hp : p <;> simp [hp]

theorem forM_eq_ok {γ : Type*} {f : γ → Except ε PUnit.{u + 1}} {l : List γ} :
    forM l f = .ok ⟨⟩ ↔ ∀ a ∈ l, f a = .ok ⟨⟩ := by
  induction l with
  | nil => exact iff_of_true rfl (by simp)
  | cons a l ih =>
      rw [List.forM_cons, andThen_eq_ok, List.forall_mem_cons, ih]

theorem mapM_eq_ok {γ : Type*} {f : γ → Except ε β} {l : List γ} {r : List β} :
    l.mapM f = .ok r ↔ List.Forall₂ (fun a b => f a = .ok b) l r := by
  induction l generalizing r with
  | nil =>
      rw [List.mapM_nil, List.forall₂_nil_left_iff]
      constructor
      · intro h
        cases h
        rfl
      · intro h
        rw [h]
        rfl
  | cons a l ih =>
      rw [List.mapM_cons, bind_eq_ok, List.forall₂_cons_left_iff]
      constructor
      · intro h
        obtain ⟨b, hb, hrest⟩ := h
        obtain ⟨bs, hbs, hr⟩ := bind_eq_ok.mp hrest
        cases hr
        exact ⟨b, bs, hb, ih.mp hbs, rfl⟩
      · intro h
        obtain ⟨b, bs, hb, hbs, rfl⟩ := h
        exact ⟨b, hb, bind_eq_ok.mpr ⟨bs, ih.mpr hbs, rfl⟩⟩

theorem exists_mapM_eq_ok {γ : Type*} {f : γ → Except ε β} {l : List γ} :
    (∃ r, l.mapM f = .ok r) ↔ ∀ a ∈ l, ∃ b, f a = .ok b := by
  simp only [mapM_eq_ok]
  induction l with
  | nil => exact iff_of_true ⟨[], .nil⟩ (by simp)
  | cons a l ih =>
      rw [List.forall_mem_cons, ← ih]
      constructor
      · intro h
        obtain ⟨r, h⟩ := h
        cases h with
        | cons ha hl => exact ⟨⟨_, ha⟩, _, hl⟩
      · intro h
        obtain ⟨⟨b, hb⟩, r, hr⟩ := h
        exact ⟨b :: r, .cons hb hr⟩

/-- Where a step can have one result only, the results are a `map`. -/
theorem eq_map_of_mapM_eq_ok {γ : Type*} {f : γ → Except ε β} {g : γ → β} {l : List γ} {r : List β}
    (hf : ∀ a b, f a = .ok b → b = g a) (h : l.mapM f = .ok r) : r = l.map g := by
  rw [mapM_eq_ok] at h
  induction h with
  | nil => rfl
  | cons ha _ ih => rw [List.map_cons, hf _ _ ha, ih]

end Except

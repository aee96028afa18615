import Mathlib.Data.List.Induction
import Mathlib.Data.List.Nodup
import Mathlib.Order.Bounds.Basic

/-!
# A register that keeps the latest

Writes carry a stamp and come in any order. A write takes effect unless the register holds one with a
later stamp, so at the end it holds the last of the writes with the greatest stamp. Where no two stamps
are the same, the order does not matter.
-/

namespace Register

variable {ι α : Type*} [LinearOrder ι]

def write (held : Option (ι × α)) (w : ι × α) : Option (ι × α) :=
  match held with
  | none => some w
  | some v => if v.1 ≤ w.1 then some w else some v

/-- The last of the writes with the greatest stamp. -/
def Latest (ws : List (ι × α)) (w : ι × α) : Prop :=
  ∃ before after, ws = before ++ w :: after ∧ (∀ v ∈ before, v.1 ≤ w.1) ∧ ∀ v ∈ after, v.1 < w.1

variable {ws : List (ι × α)} {v w : ι × α}

theorem latest_singleton (w : ι × α) : Latest [w] w := ⟨[], [], rfl, by simp, by simp⟩

theorem Latest.mem (h : Latest ws w) : w ∈ ws := by
  obtain ⟨before, after, rfl, -⟩ := h
  simp

theorem Latest.le (h : Latest ws w) (hv : v ∈ ws) : v.1 ≤ w.1 := by
  obtain ⟨before, after, rfl, hbefore, hafter⟩ := h
  rw [List.mem_append, List.mem_cons] at hv
  rcases hv with hv | rfl | hv
  · exact hbefore v hv
  · exact le_rfl
  · exact (hafter v hv).le

theorem Latest.isGreatest (h : Latest ws w) : IsGreatest {n | n ∈ ws.map Prod.fst} w.1 := by
  refine ⟨List.mem_map_of_mem h.mem, ?_⟩
  intro n hn
  obtain ⟨v, hv, rfl⟩ := List.mem_map.mp hn
  exact h.le hv

theorem Latest.concat (h : Latest ws v) (w : ι × α) :
    Latest (ws ++ [w]) (if v.1 ≤ w.1 then w else v) := by
  by_cases hle : v.1 ≤ w.1
  · rw [if_pos hle]
    exact ⟨ws, [], rfl, fun u hu => (h.le hu).trans hle, by simp⟩
  · rw [if_neg hle]
    obtain ⟨before, after, rfl, hbefore, hafter⟩ := h
    refine ⟨before, after ++ [w], by simp, hbefore, ?_⟩
    intro u hu
    rw [List.mem_append, List.mem_singleton] at hu
    rcases hu with hu | rfl
    · exact hafter u hu
    · exact not_le.mp hle

/-- What the register holds after all writes. -/
theorem latest_of_foldl (ws : List (ι × α)) :
    (ws = [] ∧ ws.foldl write none = none) ∨ ∃ w, ws.foldl write none = some w ∧ Latest ws w := by
  induction ws using List.reverseRecOn with
  | nil => exact .inl ⟨rfl, rfl⟩
  | append_singleton ws w ih =>
      right
      rw [List.foldl_append, List.foldl_cons, List.foldl_nil]
      rcases ih with ⟨rfl, hnone⟩ | ⟨v, hsome, hlatest⟩
      · rw [hnone]
        exact ⟨w, rfl, latest_singleton w⟩
      · rw [hsome, write]
        refine ⟨_, ?_, hlatest.concat w⟩
        split <;> rfl

theorem Latest.unique (hv : Latest ws v) (hw : Latest ws w) : v = w := by
  obtain ⟨before, after, rfl, hbefore, hafter⟩ := hv
  have hstamp : v.1 = w.1 := le_antisymm (hw.le (by simp)) (Latest.le ⟨before, after, rfl, hbefore, hafter⟩ hw.mem)
  obtain ⟨before', after', heq, hbefore', hafter'⟩ := hw
  rcases List.append_eq_append_iff.mp heq with ⟨rest, -, hrest⟩ | ⟨rest, -, hrest⟩
  · cases rest with
    | nil => exact (List.cons.inj hrest).1
    | cons u rest =>
        rw [List.cons_append, List.cons.injEq] at hrest
        exact absurd (hafter w (by simp [hrest.2])) (by simp [hstamp])
  · cases rest with
    | nil => exact (List.cons.inj hrest).1.symm
    | cons u rest =>
        rw [List.cons_append, List.cons.injEq] at hrest
        exact absurd (hafter' v (by simp [hrest.2])) (by simp [hstamp])

/-- Where each stamp is used once, the order of the writes does not matter. -/
theorem latest_of_isGreatest (hnodup : (ws.map Prod.fst).Nodup) (hw : w ∈ ws)
    (h : ∀ v ∈ ws, v.1 ≤ w.1) : Latest ws w := by
  obtain ⟨before, after, rfl⟩ := List.append_of_mem hw
  refine ⟨before, after, rfl, fun v hv => h v (by simp [hv]), fun v hv => ?_⟩
  apply lt_of_le_of_ne (h v (by simp [hv]))
  intro heq
  rw [List.map_append, List.map_cons] at hnodup
  have hafter := (List.nodup_cons.mp (List.nodup_append.mp hnodup).2.1).1
  exact hafter (heq ▸ List.mem_map_of_mem hv)

end Register

import Mathlib.Data.List.Basic

/-!
# Insertion-ordered maps

The `Map` of JavaScript: distinct keys in the order of their first insertion. A later `set` of a key
that is there replaces the value and keeps the place. Everything but the order is read through `get`.
-/

structure JsMap (κ ν : Type*) where
  entries : List (κ × ν)
  nodup : (entries.map Prod.fst).Nodup

namespace JsMap

variable {κ ν : Type*}

instance [DecidableEq κ] [DecidableEq ν] : DecidableEq (JsMap κ ν) := fun m n =>
  decidable_of_iff (m.entries = n.entries) ⟨fun h => by cases m; cases n; simp_all, fun h => by rw [h]⟩

def empty : JsMap κ ν := ⟨[], List.nodup_nil⟩

def keys (m : JsMap κ ν) : List κ := m.entries.map Prod.fst

def values (m : JsMap κ ν) : List ν := m.entries.map Prod.snd

theorem nodup_keys (m : JsMap κ ν) : m.keys.Nodup := m.nodup

theorem ext_entries {m n : JsMap κ ν} (h : m.entries = n.entries) : m = n := by
  cases m
  cases h
  rfl

variable [DecidableEq κ]

def get (m : JsMap κ ν) (k : κ) : Option ν := m.entries.lookup k

def has (m : JsMap κ ν) (k : κ) : Bool := (m.get k).isSome

private def replace (k : κ) (v : ν) (entry : κ × ν) : κ × ν := if entry.1 = k then (k, v) else entry

private theorem replace_fst (k : κ) (v : ν) (entry : κ × ν) : (replace k v entry).1 = entry.1 := by
  unfold replace
  split
  · rename_i h
    exact h.symm
  · rfl

theorem mem_keys_iff {m : JsMap κ ν} {k : κ} : k ∈ m.keys ↔ (m.get k).isSome := by
  rw [get, List.lookup_isSome_iff]
  simp [keys]

def set (m : JsMap κ ν) (k : κ) (v : ν) : JsMap κ ν :=
  if h : m.has k then
    ⟨m.entries.map (replace k v), by
      rw [List.map_map, show Prod.fst ∘ replace k v = Prod.fst from funext (replace_fst k v)]
      exact m.nodup⟩
  else
    ⟨m.entries ++ [(k, v)], by
      rw [List.map_append, List.nodup_append]
      refine ⟨m.nodup, by simp, ?_⟩
      intro a ha b hb
      rw [List.map_singleton, List.mem_singleton] at hb
      rintro rfl
      cases hb
      exact h (mem_keys_iff.mp ha)⟩

def delete (m : JsMap κ ν) (k : κ) : JsMap κ ν :=
  ⟨m.entries.filter fun entry => entry.1 ≠ k, (m.nodup.sublist ((List.filter_sublist).map Prod.fst))⟩

@[simp] theorem get_empty (k : κ) : (empty : JsMap κ ν).get k = none := rfl

private theorem lookup_cons_eq_ite (k a : κ) (b : ν) (rest : List (κ × ν)) :
    ((a, b) :: rest).lookup k = if k = a then some b else rest.lookup k := by
  by_cases h : k = a
  · rw [h, List.lookup_cons_self, if_pos rfl]
  · rw [List.lookup_cons, beq_false_of_ne h, if_neg h]

private theorem lookup_map_replace (entries : List (κ × ν)) (k k' : κ) (v : ν) :
    (entries.map (replace k v)).lookup k' =
      if k' = k then (entries.lookup k).map fun _ => v else entries.lookup k' := by
  induction entries with
  | nil => simp
  | cons entry rest ih =>
      obtain ⟨a, b⟩ := entry
      by_cases ha : a = k
      · subst ha
        by_cases hk : k' = a
        · simp [replace, hk]
        · simp [replace, lookup_cons_eq_ite, ih, hk]
      · by_cases hk : k' = a
        · simp [replace, ha, hk]
        · simp [replace, lookup_cons_eq_ite, ih, ha, hk, Ne.symm ha]

theorem get_set (m : JsMap κ ν) (k k' : κ) (v : ν) :
    (m.set k v).get k' = if k' = k then some v else m.get k' := by
  unfold set
  split
  · rename_i h
    rw [has, get, Option.isSome_iff_exists] at h
    obtain ⟨old, hold⟩ := h
    rw [get, lookup_map_replace, hold, get]
    rfl
  · rename_i h
    rw [has, Bool.not_eq_true, Option.isSome_eq_false_iff, Option.isNone_iff_eq_none, get] at h
    rw [get, get, List.lookup_append, lookup_cons_eq_ite]
    by_cases hk : k' = k
    · simp [hk, h]
    · simp [hk]

private theorem lookup_filter_ne (entries : List (κ × ν)) (k k' : κ) :
    (entries.filter fun entry => entry.1 ≠ k).lookup k' =
      if k' = k then none else entries.lookup k' := by
  induction entries with
  | nil => simp
  | cons entry rest ih =>
      obtain ⟨a, b⟩ := entry
      rw [List.filter_cons, lookup_cons_eq_ite]
      by_cases ha : a = k
      · rw [if_neg (by simp [ha]), ih]
        by_cases hk : k' = k
        · rw [if_pos hk, if_pos hk]
        · rw [if_neg hk, if_neg hk, if_neg (by rwa [ha])]
      · rw [if_pos (by simp [ha]), lookup_cons_eq_ite, ih]
        by_cases hk : k' = a
        · rw [if_pos hk, if_pos hk, if_neg (by rwa [hk])]
        · rw [if_neg hk, if_neg hk]

theorem get_delete (m : JsMap κ ν) (k k' : κ) :
    (m.delete k).get k' = if k' = k then none else m.get k' :=
  lookup_filter_ne m.entries k k'

@[simp] theorem get_set_self (m : JsMap κ ν) (k : κ) (v : ν) : (m.set k v).get k = some v := by
  rw [get_set, if_pos rfl]

theorem get_set_of_ne (m : JsMap κ ν) {k k' : κ} (h : k' ≠ k) (v : ν) :
    (m.set k v).get k' = m.get k' := by
  rw [get_set, if_neg h]

@[simp] theorem get_delete_self (m : JsMap κ ν) (k : κ) : (m.delete k).get k = none := by
  rw [get_delete, if_pos rfl]

theorem get_delete_of_ne (m : JsMap κ ν) {k k' : κ} (h : k' ≠ k) :
    (m.delete k).get k' = m.get k' := by
  rw [get_delete, if_neg h]

theorem keys_set (m : JsMap κ ν) (k : κ) (v : ν) :
    (m.set k v).keys = if m.has k then m.keys else m.keys ++ [k] := by
  unfold set
  split
  · rename_i h
    rw [keys, List.map_map, show Prod.fst ∘ replace k v = Prod.fst from funext (replace_fst k v), keys]
  · rw [keys, List.map_append]
    rfl

theorem entries_set_of_not_mem {m : JsMap κ ν} {k : κ} (h : k ∉ m.keys) (v : ν) :
    (m.set k v).entries = m.entries ++ [(k, v)] := by
  rw [set, dif_neg]
  rwa [has, ← mem_keys_iff]

theorem keys_set_of_get {m : JsMap κ ν} {k : κ} (h : (m.get k).isSome) (v : ν) :
    (m.set k v).keys = m.keys := by
  rw [keys_set, has, if_pos h]

theorem keys_delete (m : JsMap κ ν) (k : κ) : (m.delete k).keys = m.keys.erase k := by
  rw [m.nodup_keys.erase_eq_filter, keys, keys, delete, List.filter_map]
  congr 1
  apply List.filter_congr
  intro entry _
  by_cases h : entry.1 = k <;> simp [h]

theorem get_eq_some_iff {m : JsMap κ ν} {k : κ} {v : ν} : m.get k = some v ↔ (k, v) ∈ m.entries := by
  rw [get, List.lookup_eq_some_iff]
  constructor
  · rintro ⟨l₁, l₂, hentries, -⟩
    simp [hentries]
  · intro hmem
    obtain ⟨l₁, l₂, hentries⟩ := List.append_of_mem hmem
    refine ⟨l₁, l₂, hentries, ?_⟩
    rintro ⟨a, b⟩ ha
    have hnodup := m.nodup
    rw [hentries, List.map_append, List.nodup_append] at hnodup
    have hne := hnodup.2.2 a (List.mem_map.mpr ⟨(a, b), ha, rfl⟩) k (by simp)
    simpa using hne.symm

theorem mem_values_iff {m : JsMap κ ν} {v : ν} : v ∈ m.values ↔ ∃ k, m.get k = some v := by
  simp only [values, List.mem_map, get_eq_some_iff]
  constructor
  · rintro ⟨⟨k, v⟩, hmem, rfl⟩
    exact ⟨k, hmem⟩
  · rintro ⟨k, hmem⟩
    exact ⟨(k, v), hmem, rfl⟩

theorem eq_empty_of_get {m : JsMap κ ν} (h : ∀ k, m.get k = none) : m = empty := by
  obtain ⟨entries, hnodup⟩ := m
  cases entries with
  | nil => rfl
  | cons entry rest =>
      have hget := (get_eq_some_iff (m := ⟨entry :: rest, hnodup⟩)).mpr List.mem_cons_self
      rw [h] at hget
      cases hget

end JsMap

import Mathlib.Data.List.Basic
import Mathlib.Data.List.Infix
import Mathlib.Logic.ExistsUnique

/-!
# Stretches and blocks of a list

`segment l a b` is what stands in `l` from `a` up to `b`. A list of length `n` is cut into
`blockCount m n` blocks of length `m`, the last one as long as what is left; `overwrite` puts a list over
a part of another one.
-/

namespace List

variable {α : Type*}

def segment (l : List α) (a b : Nat) : List α := (l.take b).drop a

/-- `bytes` over the part of `l` that starts at `offset`, if it fits. -/
def overwrite (l : List α) (offset : Nat) (bytes : List α) : Option (List α) :=
  if offset + bytes.length ≤ l.length then
    some (l.take offset ++ bytes ++ l.drop (offset + bytes.length))
  else none

variable {l l' bytes : List α} {a b c i j offset : Nat}

theorem length_segment (l : List α) (a b : Nat) : (l.segment a b).length = min b l.length - a := by
  rw [segment, length_drop, length_take]

theorem length_segment_of_le (h : b ≤ l.length) : (l.segment a b).length = b - a := by
  rw [length_segment, Nat.min_eq_left h]

theorem segment_of_le (h : b ≤ a) : l.segment a b = [] := by
  rw [segment, drop_eq_nil_iff, length_take]
  omega

theorem segment_zero (l : List α) (b : Nat) : l.segment 0 b = l.take b := rfl

theorem segment_append (h : a ≤ b) (h' : b ≤ c) : l.segment a b ++ l.segment b c = l.segment a c := by
  have hsplit := (take_append_drop b (l.take c)).symm
  rw [take_take, Nat.min_eq_left h'] at hsplit
  by_cases ha : a ≤ (l.take b).length
  · rw [segment, segment, segment, hsplit, drop_append_of_le_length ha, ← hsplit]
  · have hlong : l.length ≤ b := by
      rw [length_take] at ha
      omega
    rw [segment, segment, segment, take_of_length_le hlong, take_of_length_le (Nat.le_trans hlong h'),
      drop_eq_nil_of_le hlong, append_nil]

/-- A stretch, cut where the list ends, and what follows it. -/
theorem segment_append_rest (h : a ≤ b) (h' : b ≤ c) :
    l.segment a b ++ l.segment (a + (l.segment a b).length) c = l.segment a c := by
  by_cases hb : b ≤ l.length
  · rw [length_segment_of_le hb, Nat.add_sub_cancel' h, segment_append h h']
  · have hlong : l.length ≤ b := Nat.le_of_not_le hb
    have hrest : l.segment (a + (l.segment a b).length) c = [] := by
      rw [length_segment, segment, drop_eq_nil_iff, length_take]
      omega
    rw [hrest, append_nil, segment, segment, take_of_length_le hlong, take_of_length_le (Nat.le_trans hlong h')]

theorem segment_segment (l : List α) (a b i j : Nat) :
    (l.segment a b).segment i j = l.segment (a + i) (min (a + j) b) := by
  rw [segment, segment, segment, take_drop, drop_drop, take_take]

theorem segment_of_isPrefix (h : l <+: l') (hb : b ≤ l.length) : l'.segment a b = l.segment a b := by
  obtain ⟨rest, rfl⟩ := h
  rw [segment, segment, take_append_of_le_length hb]

theorem overwrite_eq_some (h : l.overwrite offset bytes = some l') :
    offset + bytes.length ≤ l.length ∧ l' = l.take offset ++ bytes ++ l.drop (offset + bytes.length) := by
  unfold overwrite at h
  split at h
  · rename_i hfit
    exact ⟨hfit, (Option.some.inj h).symm⟩
  · cases h

theorem take_overwrite (h : l.overwrite offset bytes = some l') :
    l'.take (offset + bytes.length) = l.take offset ++ bytes := by
  obtain ⟨hfit, rfl⟩ := overwrite_eq_some h
  have hlength : (l.take offset ++ bytes).length = offset + bytes.length := by
    rw [length_append, length_take, Nat.min_eq_left (by omega)]
  rw [← hlength, take_left]

theorem segment_overwrite (h : l.overwrite offset bytes = some l') :
    l'.segment offset (offset + bytes.length) = bytes := by
  obtain ⟨hfit, -⟩ := overwrite_eq_some h
  have hlength : (l.take offset).length = offset := by
    rw [length_take, Nat.min_eq_left (by omega)]
  rw [segment, take_overwrite h, drop_left' hlength]

theorem getElem?_overwrite (h : l.overwrite offset bytes = some l')
    (hi : i < offset ∨ offset + bytes.length ≤ i) : l'[i]? = l[i]? := by
  obtain ⟨hfit, rfl⟩ := overwrite_eq_some h
  have hlength : (l.take offset).length = offset := by
    rw [length_take, Nat.min_eq_left (by omega)]
  rcases hi with hi | hi
  · rw [append_assoc, getElem?_append_left (by omega), getElem?_take_of_lt hi]
  · rw [getElem?_append_right (by rw [length_append]; omega), getElem?_drop, length_append, hlength]
    congr 1
    omega

/-! ### Blocks -/

/-- How many blocks of length `m` cover a list of length `n`. -/
def blockCount (m n : Nat) : Nat := (n + m - 1) / m

variable {m n p k : Nat}

theorem lt_blockCount_iff (hm : 0 < m) : k < blockCount m n ↔ k * m < n := by
  rw [blockCount, Nat.lt_iff_add_one_le, Nat.le_div_iff_mul_le hm, Nat.add_mul, Nat.one_mul]
  omega

/-- A block ends where it is full or where the list ends. -/
theorem mem_block (hm : 0 < m) (hp : p < n) : p / m * m ≤ p ∧ p < min (p / m * m + m) n := by
  have hdiv := Nat.div_add_mod p m
  have hmod := Nat.mod_lt p hm
  rw [Nat.mul_comm] at hdiv
  omega

theorem eq_div_of_mem_block (h : k * m ≤ p) (h' : p < k * m + m) : k = p / m := by
  rw [← Nat.succ_mul] at h'
  exact (Nat.div_eq_of_lt_le h h').symm

/-- Every place is in one block. -/
theorem existsUnique_block (hm : 0 < m) (hp : p < n) :
    ∃! k, k < blockCount m n ∧ k * m ≤ p ∧ p < min (k * m + m) n := by
  obtain ⟨hle, hlt⟩ := mem_block hm hp
  refine ⟨p / m, ⟨(lt_blockCount_iff hm).mpr (Nat.lt_of_le_of_lt hle hp), hle, hlt⟩, ?_⟩
  rintro k ⟨-, hk, hk'⟩
  exact eq_div_of_mem_block hk (Nat.lt_of_lt_of_le hk' (Nat.min_le_left _ _))

end List

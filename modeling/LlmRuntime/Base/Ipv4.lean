import Mathlib.Data.List.Infix
import Mathlib.Data.List.Basic
import Mathlib.Algebra.GroupWithZero.Nat

/-!
# Addresses of four parts

An address, its text and the blocks of addresses that begin with the same bits. Which block an address is
in can be read off the first parts of its text.
-/

structure Ipv4 where
  a : Fin 256
  b : Fin 256
  c : Fin 256
  d : Fin 256
  deriving DecidableEq

namespace Ipv4

def toNat (x : Ipv4) : Nat := ((x.a * 256 + x.b) * 256 + x.c) * 256 + x.d

/-- Four decimal numbers with dots between them. -/
def text (x : Ipv4) : List Char :=
  Nat.toDigits 10 x.a ++ '.' :: (Nat.toDigits 10 x.b ++ '.' ::
    (Nat.toDigits 10 x.c ++ '.' :: Nat.toDigits 10 x.d))

/-- The addresses whose first `length` bits are those of `base`. -/
structure Block where
  base : Ipv4
  length : Nat

def Block.Contains (block : Block) (x : Ipv4) : Prop :=
  x.toNat / 2 ^ (32 - block.length) = block.base.toNat / 2 ^ (32 - block.length)

variable {base x : Ipv4}

theorem contains_eight : Block.Contains ⟨base, 8⟩ x ↔ x.a = base.a := by
  have hpow : 2 ^ (32 - 8) = 16777216 := rfl
  rw [Block.Contains, hpow, toNat, toNat]
  dsimp only
  omega

theorem contains_twelve : Block.Contains ⟨base, 12⟩ x ↔ x.a = base.a ∧ x.b.val / 16 = base.b.val / 16 := by
  have hpow : 2 ^ (32 - 12) = 1048576 := rfl
  rw [Block.Contains, hpow, toNat, toNat]
  dsimp only
  omega

theorem contains_sixteen : Block.Contains ⟨base, 16⟩ x ↔ x.a = base.a ∧ x.b = base.b := by
  have hpow : 2 ^ (32 - 16) = 65536 := rfl
  rw [Block.Contains, hpow, toNat, toNat]
  dsimp only
  omega

/-! ### Parts of a text -/

theorem dot_not_mem_toDigits (n : Nat) : '.' ∉ Nat.toDigits 10 n := by
  intro hmem
  exact absurd (Nat.isDigit_of_mem_toDigits (by decide) (by decide) hmem) (by decide)

theorem toDigits_inj {m n : Nat} (h : Nat.toDigits 10 m = Nat.toDigits 10 n) : m = n := by
  rw [← Nat.ofDigitChars_ten_toDigits (n := m), h, Nat.ofDigitChars_ten_toDigits]

/-- Two texts, each cut at its first dot. -/
theorem dotted_isPrefix_iff {p q s t : List Char} (hp : '.' ∉ p) (hq : '.' ∉ q) :
    p ++ '.' :: s <+: q ++ '.' :: t ↔ p = q ∧ s <+: t := by
  induction p generalizing q with
  | nil =>
      cases q with
      | nil => simp
      | cons c q =>
          have hc : '.' ≠ c := fun heq => hq (heq ▸ List.mem_cons_self)
          simp [hc]
  | cons c p ih =>
      rw [List.mem_cons, not_or] at hp
      cases q with
      | nil => simp [Ne.symm hp.1]
      | cons c' q =>
          rw [List.mem_cons, not_or] at hq
          rw [List.cons_append, List.cons_append, List.cons_prefix_cons, ih hp.2 hq.2, List.cons.injEq, and_assoc]

/-- The first part of an address. -/
theorem isPrefix_text_iff {n : Nat} {s : List Char} : Nat.toDigits 10 n ++ '.' :: s <+: x.text ↔
    n = x.a ∧ s <+: Nat.toDigits 10 x.b ++ '.' :: (Nat.toDigits 10 x.c ++ '.' :: Nat.toDigits 10 x.d) := by
  rw [text, dotted_isPrefix_iff (dot_not_mem_toDigits _) (dot_not_mem_toDigits _)]
  exact and_congr_left' ⟨toDigits_inj, fun h => h ▸ rfl⟩

theorem mem_text {c : Char} (h : c ∈ x.text) : c.isDigit ∨ c = '.' := by
  have hdigit : ∀ n : Nat, c ∈ Nat.toDigits 10 n → c.isDigit := fun n hc =>
    Nat.isDigit_of_mem_toDigits (by decide) (by decide) hc
  simp only [text, List.mem_append, List.mem_cons] at h
  rcases h with h | h | h | h | h | h | h
  · exact .inl (hdigit _ h)
  · exact .inr h
  · exact .inl (hdigit _ h)
  · exact .inr h
  · exact .inl (hdigit _ h)
  · exact .inr h
  · exact .inl (hdigit _ h)

end Ipv4

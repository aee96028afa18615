import LlmRuntime.Base.Segment

/-!
# Reading an encoding back

A decoder goes through a list by a position in its state. `Reads input position p m encoded a` says that
`m`, started at `p` where `encoded` stands in `input`, takes all of it and nothing else, and returns `a`.
The rules follow the way a decoder is written: what follows in the program follows in the input.
-/

universe u v

variable {ε σ α γ : Type u} {β : Type v}

/-- `encoded` stands in `input` from `p` on. -/
def List.HasAt (input : List β) (p : Nat) (encoded : List β) : Prop :=
  p + encoded.length ≤ input.length ∧ input.segment p (p + encoded.length) = encoded

def Reads (input : List β) (position : σ → Nat) (p : Nat) (m : EStateM ε σ α) (encoded : List β)
    (a : α) : Prop :=
  input.HasAt p encoded →
    ∀ s, position s = p → ∃ s', m s = .ok a s' ∧ position s' = p + encoded.length

namespace List.HasAt

variable {input e e' : List β} {p : Nat}

theorem append (h : input.HasAt p (e ++ e')) :
    input.HasAt p e ∧ input.HasAt (p + e.length) e' := by
  obtain ⟨hle, heq⟩ := h
  rw [length_append] at hle heq
  have hsplit := segment_append (l := input) (Nat.le_add_right p e.length)
    (Nat.le_add_right (p + e.length) e'.length)
  rw [Nat.add_assoc, heq] at hsplit
  have hlength : (input.segment p (p + e.length)).length = e.length := by
    rw [length_segment_of_le (by omega), Nat.add_sub_cancel_left]
  obtain ⟨hfst, hsnd⟩ := append_inj hsplit hlength
  refine ⟨⟨by omega, hfst⟩, by omega, ?_⟩
  rw [Nat.add_assoc]
  exact hsnd

theorem of_isPrefix (h : e <+: input) : input.HasAt 0 e := by
  refine ⟨?_, ?_⟩
  · rw [Nat.zero_add]
    exact h.length_le
  · rw [Nat.zero_add, segment_zero]
    exact (List.prefix_iff_eq_take.mp h).symm

end List.HasAt

theorem EStateM.bind_of_ok {m : EStateM ε σ α} {f : α → EStateM ε σ γ} {s s' : σ} {a : α}
    (h : m s = .ok a s') : (m >>= f) s = f a s' := by
  show EStateM.bind m f s = _
  rw [EStateM.bind, h]

theorem EStateM.bind_congr {m : EStateM ε σ α} (f : α → EStateM ε σ γ) {s s' : σ} (h : m s = m s') :
    (m >>= f) s = (m >>= f) s' := by
  show EStateM.bind m f s = EStateM.bind m f s'
  rw [EStateM.bind, EStateM.bind, h]

theorem EStateM.bind_congr_left {m m' : EStateM ε σ α} (f : α → EStateM ε σ γ) {s : σ} (h : m s = m' s) :
    (m >>= f) s = (m' >>= f) s := by
  show EStateM.bind m f s = EStateM.bind m' f s
  rw [EStateM.bind, EStateM.bind, h]

theorem EStateM.bind_get (f : σ → EStateM ε σ α) (s : σ) : (get >>= f) s = f s s := rfl

theorem EStateM.bind_modify (g : σ → σ) (f : PUnit → EStateM ε σ α) (s : σ) :
    (modify g >>= f) s = f ⟨⟩ (g s) := rfl

theorem EStateM.bind_eq_ok {m : EStateM ε σ α} {f : α → EStateM ε σ γ} {s s' : σ} {c : γ} :
    (m >>= f) s = .ok c s' ↔ ∃ a s₁, m s = .ok a s₁ ∧ f a s₁ = .ok c s' := by
  show EStateM.bind m f s = _ ↔ _
  rw [EStateM.bind]
  cases m s with
  | ok a s₁ => simp
  | error e s₁ => simp

theorem EStateM.bind_of_error {m : EStateM ε σ α} (f : α → EStateM ε σ γ) {s s' : σ} {e : ε}
    (h : m s = .error e s') : (m >>= f) s = .error e s' := by
  show EStateM.bind m f s = _
  rw [EStateM.bind, h]

namespace Reads

variable {input e e' : List β} {position : σ → Nat} {p : Nat} {a : α}

theorem pure (a : α) : Reads input position p (Pure.pure a : EStateM ε σ α) [] a :=
  fun _ s hs => ⟨s, rfl, hs⟩

theorem bind {m : EStateM ε σ α} {f : α → EStateM ε σ γ} {c : γ} (hm : Reads input position p m e a)
    (hf : Reads input position (p + e.length) (f a) e' c) :
    Reads input position p (m >>= f) (e ++ e') c := by
  intro hat s hs
  obtain ⟨hfst, hsnd⟩ := hat.append
  obtain ⟨s₁, hm₁, hs₁⟩ := hm hfst s hs
  obtain ⟨s₂, hf₂, hs₂⟩ := hf hsnd s₁ hs₁
  refine ⟨s₂, ?_, ?_⟩
  · rw [EStateM.bind_of_ok hm₁, hf₂]
  · rw [hs₂, List.length_append, Nat.add_assoc]

/-- A step that takes nothing. -/
theorem bind_nil {m : EStateM ε σ α} {f : α → EStateM ε σ γ} {c : γ}
    (hm : Reads input position p m [] a) (hf : Reads input position p (f a) e' c) :
    Reads input position p (m >>= f) e' c :=
  bind hm hf

/-- The last step only makes the result. -/
theorem bind_pure {m : EStateM ε σ α} (hm : Reads input position p m e a) (f : α → γ) :
    Reads input position p (m >>= fun a => Pure.pure (f a)) e (f a) := by
  have h := bind (f := fun a => Pure.pure (f a)) hm (pure (f a))
  rwa [List.append_nil] at h

theorem run {m : EStateM ε σ α} (hm : Reads input position 0 m e a) (hinput : e <+: input) {s : σ}
    (hs : position s = 0) : ∃ s', m s = .ok a s' ∧ position s' = e.length := by
  obtain ⟨s', hm', hs'⟩ := hm (.of_isPrefix hinput) s hs
  exact ⟨s', hm', by rw [hs', Nat.zero_add]⟩

end Reads

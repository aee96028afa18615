import LlmRuntime.Gguf.Prefix

/-!
# What the loops cost

The counts of a header say how often its loops go round, and nothing checks them. Every round takes at
least one byte, and the source throws beyond its end, so the rounds are paid for by the bytes. A round
that fails has taken nothing yet, but the header has taken 24 bytes before its first loop.
-/

namespace LlmRuntime.Gguf

/-! ### Rounding keeps the position -/

theorem double_mul_pow {d e : Nat} (hlow : 2 ^ 52 ≤ d) (hhigh : d < 2 ^ 53) :
    double (d * 2 ^ e) = d * 2 ^ e := by
  by_cases he : d * 2 ^ e < 2 ^ 53
  · exact double_of_lt he
  · have hlog : (d * 2 ^ e).log2 = 52 + e := by
      apply (Nat.log2_eq_iff (by omega)).mpr
      rw [Nat.pow_add, show 52 + e + 1 = 53 + e by omega, Nat.pow_add 2 53]
      exact ⟨Nat.mul_le_mul_right _ hlow, Nat.mul_lt_mul_of_pos_right hhigh (Nat.two_pow_pos e)⟩
    rw [double, if_neg he]
    simp [hlog, Nat.mul_div_cancel d (Nat.two_pow_pos e)]

/-- What is rounded once stays as it is. -/
theorem double_double (n : Nat) : double (double n) = double n := by
  by_cases h : n < 2 ^ 53
  · rw [double_of_lt h, double_of_lt h]
  · obtain ⟨d, hlow, hhigh, -, heq⟩ := double_of_le (Nat.not_lt.mp h)
    rw [heq]
    rcases Nat.lt_or_eq_of_le hhigh with hd | rfl
    · exact double_mul_pow hlow hd
    · rw [show 2 ^ 53 * 2 ^ (n.log2 - 52) = 2 ^ 52 * 2 ^ (n.log2 - 52 + 1) by rw [Nat.pow_succ]; omega]
      exact double_mul_pow (Nat.le_refl _) (by decide)

theorem le_double_of_le {p n : Nat} (hp : double p = p) (h : p ≤ n) : p ≤ double n := by
  by_cases hn : n < 2 ^ 53
  · rwa [double_of_lt hn]
  obtain ⟨d, hlow, -, hd, heq⟩ := double_of_le (Nat.not_lt.mp hn)
  rw [heq]
  have hlog : 53 ≤ n.log2 := (Nat.le_log2 (by omega)).mpr (Nat.not_lt.mp hn)
  by_cases hsame : 2 ^ n.log2 ≤ p
  · have hp53 : 2 ^ 53 ≤ p := Nat.le_trans (Nat.pow_le_pow_right Nat.two_pos hlog) hsame
    have hplog : p.log2 = n.log2 := by
      apply (Nat.log2_eq_iff (by omega)).mpr
      exact ⟨hsame, Nat.lt_of_le_of_lt h Nat.lt_log2_self⟩
    obtain ⟨k, -, -, -, hk⟩ := double_of_le hp53
    rw [hp, hplog] at hk
    have hle : k ≤ n / 2 ^ (n.log2 - 52) := by
      rw [Nat.le_div_iff_mul_le (Nat.two_pow_pos _), ← hk]
      exact h
    calc p = k * 2 ^ (n.log2 - 52) := hk
      _ ≤ d * 2 ^ (n.log2 - 52) := Nat.mul_le_mul_right _ (Nat.le_trans hle hd)
  · calc p ≤ 2 ^ n.log2 := by omega
      _ = 2 ^ 52 * 2 ^ (n.log2 - 52) := by
        rw [← Nat.pow_add, show 52 + (n.log2 - 52) = n.log2 by omega]
      _ ≤ d * 2 ^ (n.log2 - 52) := Nat.mul_le_mul_right _ hlow

/-! ### Positions -/

variable {σ α β : Type} {source : Source σ} {N n k : Nat}

/-- The cursor is in the file, at a position that a double can say. -/
structure Within (N : Nat) (c : Cursor σ) : Prop where
  le : c.offset ≤ N
  double : double c.offset = c.offset

/-- The state a run ends in, with a value or without. -/
def final : EStateM.Result Failure σ α → σ
  | .ok _ s => s
  | .error _ s => s

/-- From `c` the reader went on to `c'`: never back, and never beyond the end. -/
structure Onward (N : Nat) (c c' : Cursor σ) : Prop where
  mono : c.offset ≤ c'.offset
  rounds : c.rounds ≤ c'.rounds
  within : Within N c'

namespace Onward

theorem refl {c : Cursor σ} (hc : Within N c) : Onward N c c :=
  ⟨Nat.le_refl _, Nat.le_refl _, hc⟩

theorem asked {c : Cursor σ} (hc : Within N c) (s : σ) : Onward N c { c with source := s } :=
  ⟨Nat.le_refl _, Nat.le_refl _, hc.le, hc.double⟩

theorem trans {c c₁ c₂ : Cursor σ} (h : Onward N c c₁) (h' : Onward N c₁ c₂) : Onward N c c₂ :=
  ⟨Nat.le_trans h.mono h'.mono, Nat.le_trans h.rounds h'.rounds, h'.within⟩

end Onward

/-- Every round that was started is paid for with a byte, but for `k` of them. -/
def Owes (k : Nat) (c c' : Cursor σ) : Prop := c'.rounds + c.offset ≤ c.rounds + c'.offset + k

/-- The source is over `N` bytes. -/
def Source.Ends (source : Source σ) (N : Nat) : Prop :=
  ∀ stop s, N < stop → ∃ e s', source.ensure stop s = .error e s'

namespace Source.Ends

variable (hends : source.Ends N)

include hends

/-- What becomes of the cursor when `n` bytes are asked for and passed over. -/
theorem ensure_cases (n : Nat) {c : Cursor σ} (hc : Within N c) :
    (∃ bytes s', Gguf.ensure source (double (c.offset + n)) c = .ok bytes { c with source := s' } ∧
      Onward N c ⟨s', double (c.offset + n), c.rounds⟩) ∨
    ∃ e s', Gguf.ensure source (double (c.offset + n)) c = .error e { c with source := s' } := by
  cases h : source.ensure (double (c.offset + n)) c.source with
  | ok bytes s' =>
      left
      refine ⟨bytes, s', ensure_of_ok h, le_double_of_le hc.double (Nat.le_add_right _ _), Nat.le_refl _,
        ?_, ?_⟩
      · dsimp only
        by_contra hN
        obtain ⟨e, s'', herror⟩ := hends _ c.source (Nat.not_le.mp hN)
        rw [h] at herror
        cases herror
      · exact double_double _
  | error e s' => exact .inr ⟨e, s', ensure_of_error h⟩

/-- A view is of whole bytes of the buffer, so that its length is what the cursor moves by. -/
theorem view_cases (n : Nat) {c : Cursor σ} (hc : Within N c) (g : List UInt8 → Reader σ α) :
    (∃ bytes s', (do let bytes ← view source n; advance n; g bytes) c = g bytes ⟨s', c.offset + n, c.rounds⟩ ∧
      Onward N c ⟨s', c.offset + n, c.rounds⟩) ∨
    ∃ e s', (do let bytes ← view source n; advance n; g bytes) c = .error e { c with source := s' } := by
  rcases hends.ensure_cases n hc with ⟨bytes, s', h, honward⟩ | ⟨e, s', h⟩
  · by_cases hfit : bytes.byteOffset + c.offset + n ≤ bytes.buffer.length
    · left
      have hindexable : bytes.buffer.length < 2 ^ 53 := bytes.indexable
      have hsafe := double_of_lt (show c.offset + n < 2 ^ 53 by omega)
      have hview : view source n c = .ok (bytes.buffer.segment (bytes.byteOffset + c.offset)
          (bytes.byteOffset + c.offset + n)) { c with source := s' } := by
        rw [view, bind_position, EStateM.bind_of_ok h, if_pos hfit]
        rfl
      rw [hsafe] at honward
      refine ⟨bytes.buffer.segment (bytes.byteOffset + c.offset) (bytes.byteOffset + c.offset + n), s', ?_,
        honward⟩
      rw [EStateM.bind_of_ok hview, EStateM.bind_of_ok (advance_apply n _)]
      dsimp only
      rw [hsafe]
    · right
      refine ⟨.rangeError, s', EStateM.bind_of_error _ ?_⟩
      rw [view, bind_position, EStateM.bind_of_ok h]
      exact congrFun (if_neg hfit) _
  · right
    refine ⟨e, s', EStateM.bind_of_error _ ?_⟩
    rw [view, bind_position, EStateM.bind_of_error _ h]

theorem text_cases (decode : List UInt8 → String) (n : Nat) {c : Cursor σ} (hc : Within N c) :
    (∃ a c', text decode source n c = .ok a c' ∧ Onward N c c' ∧ c'.rounds = c.rounds) ∨
    ∃ e s', text decode source n c = .error e { c with source := s' } := by
  rcases hends.ensure_cases n hc with ⟨bytes, s', h, honward⟩ | ⟨e, s', h⟩
  · refine .inl ⟨decode (bytes.subarray c.offset (double (c.offset + n))), _, ?_, honward, rfl⟩
    rw [text, bind_position, EStateM.bind_of_ok h, EStateM.bind_of_ok (advance_apply n _)]
    rfl
  · refine .inr ⟨e, s', ?_⟩
    rw [text, bind_position, EStateM.bind_of_error _ h]

theorem skip_cases (n : Nat) {c : Cursor σ} (hc : Within N c) :
    (∃ a c', skip source n c = .ok a c' ∧ Onward N c c' ∧ c'.rounds = c.rounds) ∨
    ∃ e s', skip source n c = .error e { c with source := s' } := by
  rcases hends.ensure_cases n hc with ⟨bytes, s', h, honward⟩ | ⟨e, s', h⟩
  · refine .inl ⟨(), _, ?_, honward, rfl⟩
    rw [skip, bind_position, EStateM.bind_of_ok h, advance_apply]
  · refine .inr ⟨e, s', ?_⟩
    rw [skip, bind_position, EStateM.bind_of_error _ h]

end Source.Ends

/-! ### Every part of the reader -/

theorem final_of_ok {m : EStateM Failure σ α} {s s' : σ} {a : α} (h : m s = .ok a s') : final (m s) = s' := by
  rw [h, final]

theorem final_of_error {m : EStateM Failure σ α} {s s' : σ} {e : Failure} (h : m s = .error e s') :
    final (m s) = s' := by
  rw [h, final]

theorem final_bind {P : σ → Prop} {m : EStateM Failure σ α} {f : α → EStateM Failure σ β} {s : σ}
    (hok : ∀ a s', m s = .ok a s' → P (final (f a s'))) (herror : ∀ e s', m s = .error e s' → P s') :
    P (final ((m >>= f) s)) := by
  cases h : m s with
  | ok a s' =>
      rw [EStateM.bind_of_ok h]
      exact hok a s' h
  | error e s' =>
      rw [final_of_error (EStateM.bind_of_error f h)]
      exact herror e s' h

section

variable (hends : source.Ends N)

include hends

theorem Built.onward {m : Program α} (hm : Built n m) {c : Cursor σ} (hc : Within N c) :
    Onward N c (final (m σ source c)) := by
  induction hm generalizing c with
  | pure a => exact .refl hc
  | fail n message => exact .refl hc
  | less hle hm ih => exact ih hc
  | position => exact .refl hc
  | bind hm hf ihm ihf =>
      apply final_bind
      · intro a c₁ h
        have hfirst := ihm hc
        rw [final_of_ok h] at hfirst
        exact hfirst.trans (ihf a hfirst.within)
      · intro e c₁ h
        have hfirst := ihm hc
        rwa [final_of_error h] at hfirst
  | @view _ n k f hf ih =>
      dsimp only
      rcases hends.view_cases n hc fun bytes => f bytes σ source with
        ⟨bytes, s', h, honward⟩ | ⟨e, s', h⟩
      · rw [h]
        exact honward.trans (ih bytes honward.within)
      · rw [h]
        exact .asked hc s'
  | text decode n =>
      rcases hends.text_cases decode n hc with ⟨a, c', h, honward, -⟩ | ⟨e, s', h⟩
      · rwa [final_of_ok h]
      · rw [final_of_error h]
        exact .asked hc s'
  | skip n =>
      rcases hends.skip_cases n hc with ⟨a, c', h, honward, -⟩ | ⟨e, s', h⟩
      · rwa [final_of_ok h]
      · rw [final_of_error h]
        exact .asked hc s'
  | @loop _ body hbody n i acc ih =>
      induction n generalizing i acc c with
      | zero => exact .refl hc
      | succ n ihn =>
          have hround : Within N { c with rounds := c.rounds + 1 } := ⟨hc.le, hc.double⟩
          have hstart : Onward N c { c with rounds := c.rounds + 1 } :=
            ⟨Nat.le_refl _, Nat.le_succ _, hround⟩
          have hfirst := hstart.trans (ih i acc hround)
          apply final_bind (m := fun c => body i acc σ source { c with rounds := c.rounds + 1 })
          · intro acc' c₁ h
            rw [final_of_ok h] at hfirst
            exact hfirst.trans (ihn (i + 1) acc' hfirst.within)
          · intro e c₁ h
            rwa [final_of_error h] at hfirst

theorem Built.pays {m : Program α} (hm : Built n m) {c c' : Cursor σ} {a : α} (hc : Within N c)
    (h : m σ source c = .ok a c') : c'.rounds + n + c.offset ≤ c.rounds + c'.offset := by
  induction hm generalizing c c' with
  | pure a =>
      cases h
      omega
  | fail n message => cases h
  | less hle hm ih =>
      have hpays := ih hc h
      omega
  | position =>
      cases h
      omega
  | bind hm hf ihm ihf =>
      obtain ⟨a₁, c₁, hm₁, hf₁⟩ := EStateM.bind_eq_ok.mp h
      have honward := hm.onward hends hc
      rw [final_of_ok hm₁] at honward
      have hpays := ihm hc hm₁
      have hpays' := ihf a₁ honward.within hf₁
      omega
  | @view _ n k f hf ih =>
      dsimp only at h
      rcases hends.view_cases n hc fun bytes => f bytes σ source with
        ⟨bytes, s', heq, honward⟩ | ⟨e, s', heq⟩
      · rw [heq] at h
        have hpays := ih bytes honward.within h
        dsimp only at hpays
        omega
      · rw [heq] at h
        cases h
  | text decode n =>
      rcases hends.text_cases decode n hc with ⟨a', c₁, heq, honward, hrounds⟩ | ⟨e, s', heq⟩
      · cases heq.symm.trans h
        have hmono := honward.mono
        omega
      · cases heq.symm.trans h
  | skip n =>
      rcases hends.skip_cases n hc with ⟨a', c₁, heq, honward, hrounds⟩ | ⟨e, s', heq⟩
      · cases heq.symm.trans h
        have hmono := honward.mono
        omega
      · cases heq.symm.trans h
  | loop hbody n i acc ih =>
      induction n generalizing i acc c with
      | zero =>
          cases h
          omega
      | succ n ihn =>
          have hround : Within N { c with rounds := c.rounds + 1 } := ⟨hc.le, hc.double⟩
          obtain ⟨acc', c₁, hround₁, hrest⟩ := EStateM.bind_eq_ok.mp h
          cases hround₁
          obtain ⟨acc', c₁, hbody₁, hrest⟩ := EStateM.bind_eq_ok.mp hrest
          have honward := (hbody i acc).onward hends hround
          rw [final_of_ok hbody₁] at honward
          have hpays := ih i acc hround hbody₁
          have hpays' := ihn _ _ honward.within hrest
          dsimp only at hpays
          omega

end

/-! ### A part that fails -/

/-- However `m` ends, all but `k` of the rounds it started are paid for. -/
def Spends (source : Source σ) (N k : Nat) (m : Program α) : Prop :=
  ∀ c, Within N c → Owes k c (final (m σ source c))

namespace Spends

variable {m : Program α} {f : α → Program β} {k : Nat}

theorem pure (a : α) : Spends source N k fun _ _ => Pure.pure a := fun _ _ => Nat.le_add_right _ _

theorem fail (message : String) : Spends (α := α) source N k fun _ _ => fail message :=
  fun _ _ => Nat.le_add_right _ _

theorem position : Spends source N k fun _ _ => position := fun _ _ => Nat.le_add_right _ _

theorem bind (hends : source.Ends N) (hm : Built n m) (hspends : Spends source N k m)
    (hf : ∀ a, Spends source N (k + n) (f a)) :
    Spends source N k fun σ source => m σ source >>= fun a => f a σ source := by
  intro c hc
  apply final_bind
  · intro a c₁ h
    have honward := hm.onward hends hc
    rw [final_of_ok h] at honward
    have hpays := hm.pays hends hc h
    have hrest := hf a c₁ honward.within
    rw [Owes] at hrest ⊢
    omega
  · intro e c₁ h
    have howes := hspends c hc
    rwa [final_of_error h] at howes

theorem view (hends : source.Ends N) (n : Nat) {f : List UInt8 → Program α}
    (hf : ∀ bytes, Spends source N (k + n) (f bytes)) :
    Spends source N k fun σ source => (do
      let bytes ← view source n
      advance n
      f bytes σ source) := by
  intro c hc
  dsimp only
  rcases hends.view_cases n hc fun bytes => f bytes σ source with
    ⟨bytes, s', h, honward⟩ | ⟨e, s', h⟩
  · have hrest := hf bytes _ honward.within
    rw [h]
    rw [Owes] at hrest ⊢
    dsimp only at hrest
    omega
  · rw [h]
    exact Nat.le_add_right _ _

theorem text (hends : source.Ends N) (decode : List UInt8 → String) (n : Nat) :
    Spends source N k fun _ source => text decode source n := by
  intro c hc
  rcases hends.text_cases decode n hc with ⟨a, c', h, honward, hrounds⟩ | ⟨e, s', h⟩
  · have hmono := honward.mono
    rw [final_of_ok h, Owes]
    omega
  · rw [final_of_error h]
    exact Nat.le_add_right _ _

theorem skip (hends : source.Ends N) (n : Nat) : Spends source N k fun _ source => skip source n := by
  intro c hc
  rcases hends.skip_cases n hc with ⟨a, c', h, honward, hrounds⟩ | ⟨e, s', h⟩
  · have hmono := honward.mono
    rw [final_of_ok h, Owes]
    omega
  · rw [final_of_error h]
    exact Nat.le_add_right _ _

/-- A round that fails is the one that is not paid for. -/
theorem loop (hends : source.Ends N) {body : Nat → α → Program α} (hbody : ∀ i acc, Built 1 (body i acc))
    (hspends : ∀ i acc, Spends source N 0 (body i acc)) (n i : Nat) (acc : α) :
    Spends source N (k + 1) fun σ source => forRounds (fun i acc => body i acc σ source) n i acc := by
  induction n generalizing i acc with
  | zero => exact pure acc
  | succ n ihn =>
      intro c hc
      have hround : Within N { c with rounds := c.rounds + 1 } := ⟨hc.le, hc.double⟩
      apply final_bind (m := fun c => body i acc σ source { c with rounds := c.rounds + 1 })
      · intro acc' c₁ h
        have honward := (hbody i acc).onward hends hround
        rw [final_of_ok h] at honward
        have hpays := (hbody i acc).pays hends hround h
        have hrest := ihn (i + 1) acc' c₁ honward.within
        rw [Owes] at hrest ⊢
        dsimp only at hpays hrest
        omega
      · intro e c₁ h
        have howes := hspends i acc _ hround
        rw [final_of_error h] at howes
        rw [Owes] at howes ⊢
        dsimp only at howes
        omega

theorem tensorBytes (type : Nat) (dims : List Nat) :
    Spends source N k fun _ _ => tensorBytes type dims := by
  unfold Gguf.tensorBytes
  cases GGML_TYPES.get type with
  | none => exact fail _
  | some trait =>
      dsimp only
      split
      · exact fail _
      · exact pure _

section

variable (hends : source.Ends N) (decode : List UInt8 → String)

include hends

theorem u32 : Spends source N k fun _ source => u32 source := view hends 4 fun bytes => pure (leNat bytes)

theorem u64 : Spends source N k fun _ source => u64 source := view hends 8 fun bytes => pure (leNat bytes)

theorem scalar (type : Nat) : Spends source N k fun _ source => scalar source type := by
  unfold Gguf.scalar
  cases SCALAR_WIDTH.get type with
  | none => exact fail _
  | some width =>
      apply view hends width
      intro bytes
      cases getScalar type bytes with
      | none => exact fail _
      | some value => exact pure value

theorem string : Spends source N k fun _ source => string decode source := by
  apply bind hends Built.u64 (u64 hends)
  intro length
  dsimp only
  split
  · exact text hends decode _
  · exact bind hends Built.position position fun _ => fail _

theorem stringItem (i : Nat) (sample : List Item) :
    Spends source N k fun _ source => stringItem decode source i sample := by
  unfold Gguf.stringItem
  split
  · exact bind hends (Built.string decode) (string hends decode) fun _ => pure _
  · exact bind hends Built.u64 (u64 hends) fun _ =>
      bind hends (Built.skip _) (skip hends _) fun _ => pure _

theorem scalarItem (itemType i : Nat) (sample : List Item) :
    Spends source N k fun _ source => scalarItem source itemType i sample :=
  bind hends (Built.scalar itemType) (scalar hends itemType) fun _ => pure _

theorem items (itemType length : Nat) :
    Spends source N (k + 1) fun _ source => items decode source itemType length := by
  unfold Gguf.items
  split
  · exact loop hends (Built.stringItem decode) (stringItem hends decode) length 0 []
  · split
    · exact fail _
    · cases SCALAR_WIDTH.get itemType with
      | none => exact fail _
      | some width =>
          exact bind hends (Built.loop (Built.scalarItem itemType) _ 0 [])
            (loop hends (Built.scalarItem itemType) (scalarItem hends itemType) _ 0 [])
            fun _ => bind hends (Built.skip _) (skip hends _) fun _ => pure _

/-- The type and the length of an array are read before its items are. -/
theorem value (type : Nat) : Spends source N k fun _ source => value decode source type := by
  unfold Gguf.value
  split
  · exact bind hends (Built.string decode) (string hends decode) fun _ => pure _
  · split
    · exact bind hends (Built.scalar type) (scalar hends type) fun _ => pure _
    · apply bind hends Built.u32 (u32 hends)
      intro itemType
      apply bind hends Built.u64 (u64 hends)
      intro length
      dsimp only
      split
      · exact bind hends (Built.items decode itemType _) (items hends decode itemType _) fun _ => pure _
      · exact bind hends Built.position position fun _ => fail _

theorem metadataEntry (i : Nat) (metadata : JsMap String Value) :
    Spends source N k fun _ source => metadataEntry decode source i metadata :=
  bind hends (Built.string decode) (string hends decode) fun _ =>
    bind hends Built.u32 (u32 hends) fun type =>
      bind hends (Built.value decode type) (value hends decode type) fun _ => pure _

theorem dim (i : Nat) (dims : List Nat) : Spends source N k fun _ source => dim source i dims :=
  bind hends Built.u64 (u64 hends) fun _ => pure _

theorem tensor (i : Nat) (tensors : List Tensor) :
    Spends source N k fun _ source => tensor decode source i tensors := by
  apply bind hends (Built.string decode) (string hends decode)
  intro name
  apply bind hends Built.u32 (u32 hends)
  intro nDims
  dsimp only
  split
  · exact fail _
  · apply bind hends (Built.loop Built.dim nDims 0 []) (loop hends Built.dim (dim hends) nDims 0 [])
    intro dims
    apply bind hends Built.u32 (u32 hends)
    intro type
    apply bind hends Built.u64 (u64 hends)
    intro offset
    exact bind hends (Built.tensorBytes type dims) (tensorBytes type dims) fun _ => pure _

theorem header {ν : Type} (doubles : Doubles ν) :
    Spends source N 0 fun _ source => header decode source doubles := by
  apply bind hends Built.u32 (u32 hends)
  intro magic
  dsimp only
  split
  · exact fail _
  · apply bind hends Built.u32 (u32 hends)
    intro version
    split
    · exact fail _
    · apply bind hends Built.u64 (u64 hends)
      intro tensorCount
      apply bind hends Built.u64 (u64 hends)
      intro kvCount
      split
      · apply bind hends (Built.loop (Built.metadataEntry decode) _ 0 .empty)
          (loop hends (Built.metadataEntry decode) (metadataEntry hends decode) _ 0 .empty)
        intro metadata
        apply bind hends Built.position position
        intro metadataEnd
        apply bind hends (Built.loop (Built.tensor decode) _ 0 [])
          (loop hends (Built.tensor decode) (tensor hends decode) _ 0 [])
        intro tensors
        exact bind hends Built.position position fun _ => pure _
      · exact fail _

end

end Spends

/-! ### The header -/

/-- However long the counts say the loops are, they go round at most once for each byte passed over. -/
theorem rounds_le_offset (decode : List UInt8 → String) {ν : Type} (doubles : Doubles ν)
    (hends : source.Ends N) (s : σ) :
    ((∃ h, readGgufHeader decode source doubles s =
        .ok h (final (header decode source doubles ⟨s, 0, 0⟩)).source) ∨
      ∃ e, readGgufHeader decode source doubles s =
        .error e (final (header decode source doubles ⟨s, 0, 0⟩)).source) ∧
    (final (header decode source doubles ⟨s, 0, 0⟩)).offset ≤ N ∧
    (final (header decode source doubles ⟨s, 0, 0⟩)).rounds ≤
      (final (header decode source doubles ⟨s, 0, 0⟩)).offset ∧
    (Built 24 fun _ source => header decode source doubles) ∧
    ∀ (α : Type) (n : Nat) (m : Program α), Built n m → ∀ c : Cursor σ, Within N c →
      Onward N c (final (m σ source c)) ∧
      ∀ a c', m σ source c = .ok a c' → c'.rounds + n + c.offset ≤ c.rounds + c'.offset := by
  have hstart : Within N (⟨s, 0, 0⟩ : Cursor σ) := ⟨Nat.zero_le N, rfl⟩
  have honward := (Built.header decode doubles).onward hends hstart
  have howes := Spends.header hends decode doubles ⟨s, 0, 0⟩ hstart
  rw [Owes] at howes
  dsimp only at howes
  refine ⟨?_, honward.within.le, by omega, Built.header decode doubles, ?_⟩
  · cases h : header decode source doubles ⟨s, 0, 0⟩ with
    | ok a c => exact .inl ⟨a, readGgufHeader_eq_ok.mpr ⟨c, h, rfl⟩⟩
    | error e c => exact .inr ⟨e, readGgufHeader_of_error h⟩
  · intro α n m hm c hc
    exact ⟨hm.onward hends hc, fun a c' h => hm.pays hends hc h⟩

theorem ends_wholeFile (file : Uint8Array) : (wholeFile file).Ends file.length := by
  intro stop s hstop
  refine ⟨.error s!"read past end of file: {stop} > {file.length}", s, ?_⟩
  rw [wholeFile]
  dsimp only
  rw [if_neg (Nat.not_le.mpr hstop)]
  rfl

/-- A header of 24 bytes that says that metadata without end follows. -/
def endlessFile : Uint8Array where
  buffer := leBytes 4 GGUF_MAGIC ++ leBytes 4 3 ++ leBytes 8 0 ++ leBytes 8 (2 ^ 53 - 1)
  byteOffset := 0
  length := 24
  within := by decide
  indexable := by decide

theorem rounds_endlessFile :
    (final (header textDecoder (wholeFile endlessFile) wholeDoubles ⟨(), 0, 0⟩)).rounds ≤ 24 := by
  have hpaid := rounds_le_offset textDecoder wholeDoubles (ends_wholeFile endlessFile) ()
  exact Nat.le_trans hpaid.2.2.1 hpaid.2.1

end LlmRuntime.Gguf

import LlmRuntime.Gguf.Model

/-!
# What a reader can do

A reader is written for any source: it asks for what comes next, moves over it, and goes on with what
stood there. `Built` says so by the way the reader is put together; what holds of every reader is then an
induction on it. The number is how many bytes the reader takes at least when it succeeds, which for a
round of a loop has to be one.
-/

namespace LlmRuntime.Gguf

abbrev Program (α : Type) := (σ : Type) → Source σ → Reader σ α

inductive Built : {α : Type} → Nat → Program α → Prop where
  | pure {α : Type} (a : α) : Built 0 fun _ _ => pure a
  | fail {α : Type} (n : Nat) (message : String) : Built (α := α) n fun _ _ => fail message
  | less {α : Type} {n k : Nat} {m : Program α} (hle : n ≤ k) (h : Built k m) : Built n m
  | position : Built 0 fun _ _ => position
  | bind {α β : Type} {n k : Nat} {m : Program α} {f : α → Program β} (hm : Built n m)
      (hf : ∀ a, Built k (f a)) : Built (n + k) fun σ source => m σ source >>= fun a => f a σ source
  | view {α : Type} (n : Nat) {k : Nat} {f : List UInt8 → Program α} (hf : ∀ bytes, Built k (f bytes)) :
      Built (n + k) fun σ source => do
        let bytes ← view source n
        advance n
        f bytes σ source
  | text (decode : List UInt8 → String) (n : Nat) : Built 0 fun _ source => text decode source n
  | skip (n : Nat) : Built 0 fun _ source => skip source n
  | loop {α : Type} {body : Nat → α → Program α} (hbody : ∀ i acc, Built 1 (body i acc)) (n i : Nat)
      (acc : α) : Built 0 fun σ source => forRounds (fun i acc => body i acc σ source) n i acc

namespace Built

variable (decode : List UInt8 → String)

theorem u32 : Built 4 fun _ source => u32 source := view 4 fun bytes => pure (leNat bytes)

theorem u64 : Built 8 fun _ source => u64 source := view 8 fun bytes => pure (leNat bytes)

theorem scalar (type : Nat) : Built 1 fun _ source => scalar source type := by
  unfold Gguf.scalar
  cases h : SCALAR_WIDTH.get type with
  | none => exact fail 1 _
  | some width =>
      have hwidth : 1 ≤ width := by
        have hall : ∀ entry ∈ SCALAR_WIDTH.entries, 1 ≤ entry.2 := by decide
        exact hall _ (JsMap.get_eq_some_iff.mp h)
      apply less (Nat.le_add_right_of_le hwidth : 1 ≤ width + 0)
      apply view width
      intro bytes
      cases getScalar type bytes with
      | none => exact fail 0 _
      | some value => exact pure value

theorem string : Built 8 fun _ source => string decode source := by
  apply bind (k := 0) u64
  intro length
  dsimp only
  split
  · exact text decode _
  · exact bind position fun _ => fail 0 _

theorem stringItem (i : Nat) (sample : List Item) :
    Built 1 fun _ source => stringItem decode source i sample := by
  unfold Gguf.stringItem
  split
  · exact less (by decide) (bind (string decode) fun _ => pure _)
  · exact less (by decide) (bind u64 fun _ => bind (skip _) fun _ => pure _)

theorem scalarItem (itemType i : Nat) (sample : List Item) :
    Built 1 fun _ source => scalarItem source itemType i sample :=
  bind (scalar itemType) fun _ => pure _

theorem items (itemType length : Nat) : Built 0 fun _ source => items decode source itemType length := by
  unfold Gguf.items
  split
  · exact loop (stringItem decode) length 0 []
  · split
    · exact fail 0 _
    · cases SCALAR_WIDTH.get itemType with
      | none => exact fail 0 _
      | some width =>
          exact bind (loop (scalarItem itemType) _ 0 []) fun _ => bind (skip _) fun _ => pure _

theorem value (type : Nat) : Built 1 fun _ source => value decode source type := by
  unfold Gguf.value
  split
  · exact less (by decide) (bind (string decode) fun _ => pure _)
  · split
    · exact bind (scalar type) fun _ => pure _
    · apply less (by decide : 1 ≤ 4 + (8 + 0))
      apply bind u32
      intro itemType
      apply bind u64
      intro length
      dsimp only
      split
      · exact bind (items decode itemType _) fun _ => pure _
      · exact bind position fun _ => fail 0 _

theorem metadataEntry (i : Nat) (metadata : JsMap String Value) :
    Built 1 fun _ source => metadataEntry decode source i metadata :=
  less (by decide) (bind (string decode) fun _ => bind u32 fun type =>
    bind (value decode type) fun _ => pure _)

theorem dim (i : Nat) (dims : List Nat) : Built 1 fun _ source => dim source i dims :=
  less (by decide) (bind u64 fun _ => pure _)

theorem tensorBytes (type : Nat) (dims : List Nat) : Built 0 fun _ _ => tensorBytes type dims := by
  unfold Gguf.tensorBytes
  cases GGML_TYPES.get type with
  | none => exact fail 0 _
  | some trait =>
      dsimp only
      split
      · exact fail 0 _
      · exact pure _

theorem tensor (i : Nat) (tensors : List Tensor) :
    Built 1 fun _ source => tensor decode source i tensors := by
  apply less (by decide : 1 ≤ 8 + (4 + 0))
  apply bind (string decode)
  intro name
  apply bind u32
  intro nDims
  dsimp only
  split
  · exact fail 0 _
  · apply less (Nat.zero_le _)
    apply bind (loop dim nDims 0 [])
    intro dims
    apply bind u32
    intro type
    apply bind u64
    intro offset
    exact bind (tensorBytes type dims) fun _ => pure _

theorem header {ν : Type} (doubles : Doubles ν) :
    Built 24 fun _ source => header decode source doubles := by
  apply bind (k := 20) u32
  intro magic
  dsimp only
  split
  · exact fail _ _
  · apply bind (k := 16) u32
    intro version
    split
    · exact fail _ _
    · apply bind (k := 8) u64
      intro tensorCount
      apply bind (k := 0) u64
      intro kvCount
      split
      · apply bind (k := 0) (loop (metadataEntry decode) _ 0 .empty)
        intro metadata
        apply bind (k := 0) position
        intro metadataEnd
        apply bind (k := 0) (loop (tensor decode) _ 0 [])
        intro tensors
        exact bind position fun _ => pure _
      · exact fail _ _

end Built

end LlmRuntime.Gguf

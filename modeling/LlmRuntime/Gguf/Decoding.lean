import LlmRuntime.Base.Decoder
import LlmRuntime.Gguf.Format

/-!
# Reading a header back

`head` is an encoded header, and the source returns at least the bytes of it that it is asked for. Every
function of the cursor then `Reads` what the format writes for it, whatever else the source returns.
-/

namespace LlmRuntime.Gguf

open Format

/-- `ensure(end)` returns at least the first `end` bytes of `file`, if there are so many. -/
def Source.Serves {σ : Type} (source : Source σ) (file : List UInt8) : Prop :=
  ∀ stop s, stop ≤ file.length → ∃ bytes s',
    source.ensure stop s = .ok bytes s' ∧ stop ≤ bytes.length ∧ bytes.toList <+: file

/-- The text decoder undoes UTF-8. -/
def Decodes (decode : List UInt8 → String) : Prop := ∀ text, NoBom text → decode (utf8 text) = text

theorem bind_position {σ α : Type} (f : Nat → Reader σ α) (c : Cursor σ) :
    (position >>= f) c = f c.offset c := rfl

theorem reads_position {σ : Type} {head : List UInt8} {p : Nat} :
    Reads head Cursor.offset p (position : Reader σ Nat) [] p := by
  intro _ c hc
  refine ⟨c, ?_, hc⟩
  rw [position, hc]

theorem double_of_lt {n : Nat} (h : n < 2 ^ 53) : double n = n := if_pos h

variable {σ α β : Type} {source : Source σ} {decode : List UInt8 → String} {head file : List UInt8}
  {p n : Nat}

theorem Uint8Array.length_toList (bytes : Uint8Array) : bytes.toList.length = bytes.length := by
  rw [toList, List.length_segment_of_le bytes.within, Nat.add_sub_cancel_left]

/-- The rounds of a loop over `items`, the first of them round `i`. -/
def foldRounds {α γ : Type} (f : Nat → α → γ → α) : Nat → α → List γ → α
  | _, acc, [] => acc
  | i, acc, x :: rest => foldRounds f (i + 1) (f i acc x) rest

theorem foldRounds_push {α γ : Type} (g : γ → α) (items : List γ) (i : Nat) (acc : List α) :
    foldRounds (fun _ acc x => acc ++ [g x]) i acc items = acc ++ items.map g := by
  induction items generalizing i acc with
  | nil => rw [foldRounds, List.map_nil, List.append_nil]
  | cons x rest ih =>
      rw [foldRounds, ih, List.map_cons, List.append_assoc]
      rfl

/-- Only the rounds before `n` keep their item. -/
theorem foldRounds_sample {α γ : Type} (g : γ → α) (items : List γ) (i : Nat) (acc : List α) :
    foldRounds (fun i acc x => if i < n then acc ++ [g x] else acc) i acc items =
      acc ++ (items.take (n - i)).map g := by
  induction items generalizing i acc with
  | nil => rw [foldRounds, List.take_nil, List.map_nil, List.append_nil]
  | cons x rest ih =>
      rw [foldRounds, ih]
      by_cases hi : i < n
      · rw [if_pos hi, show n - i = n - (i + 1) + 1 by omega, List.take_succ_cons, List.map_cons,
          List.append_assoc]
        rfl
      · rw [if_neg hi, show n - i = 0 by omega, show n - (i + 1) = 0 by omega, List.take_zero,
          List.take_zero]

/-- Keys that are not there yet are added in order. -/
theorem foldRounds_set {γ κ ν : Type} [DecidableEq κ] (key : γ → κ) (val : γ → ν) (items : List γ) (i : Nat)
    (m : JsMap κ ν) (hnodup : (m.keys ++ items.map key).Nodup) :
    (foldRounds (fun _ m x => m.set (key x) (val x)) i m items).entries =
      m.entries ++ items.map fun x => (key x, val x) := by
  induction items generalizing i m with
  | nil => rw [foldRounds, List.map_nil, List.append_nil]
  | cons x rest ih =>
      have hmem : key x ∉ m.keys := by
        intro hmem
        exact (List.nodup_append.mp hnodup).2.2 _ hmem _ List.mem_cons_self rfl
      have hkeys : (m.set (key x) (val x)).keys = m.keys ++ [key x] := by
        rw [JsMap.keys, JsMap.entries_set_of_not_mem hmem, List.map_append]
        rfl
      rw [foldRounds, ih, JsMap.entries_set_of_not_mem hmem, List.map_cons, List.append_assoc]
      · rfl
      · rwa [hkeys, List.append_assoc]

theorem reads_forRounds {γ : Type} {body : Nat → α → Reader σ α} {encode : γ → List UInt8}
    {f : Nat → α → γ → α} (items : List γ)
    (hbody : ∀ i acc p, ∀ x ∈ items, Reads head Cursor.offset p (body i acc) (encode x) (f i acc x))
    (i : Nat) (acc : α) (p : Nat) : Reads head Cursor.offset p (forRounds body items.length i acc)
      (items.flatMap encode) (foldRounds f i acc items) := by
  induction items generalizing i acc p with
  | nil => exact .pure acc
  | cons x rest ih =>
      have hround := hbody i acc p x List.mem_cons_self
      have hrest := ih (fun i acc p x hx => hbody i acc p x (List.mem_cons_of_mem _ hx)) (i + 1)
        (f i acc x) (p + (encode x).length)
      apply Reads.bind_nil (a := ())
      · intro _ c hc
        exact ⟨{ c with rounds := c.rounds + 1 }, rfl, hc⟩
      · exact hround.bind hrest

/-- What stands in the view stands in the buffer behind it. -/
theorem Uint8Array.segment_buffer (bytes : Uint8Array) {start stop : Nat} (h : stop ≤ bytes.length) :
    bytes.buffer.segment (bytes.byteOffset + start) (bytes.byteOffset + stop) =
      bytes.toList.segment start stop := by
  rw [toList, List.segment_segment, Nat.min_eq_left (Nat.add_le_add_left h _)]

theorem Uint8Array.length_lt (bytes : Uint8Array) : bytes.length < 2 ^ 53 := by
  have hwithin := bytes.within
  have hindexable : bytes.buffer.length < 2 ^ 53 := bytes.indexable
  omega

namespace Source.Serves

theorem of_isPrefix (hserves : source.Serves file) (hhead : head <+: file) {stop : Nat} (s : σ)
    (hstop : stop ≤ head.length) : ∃ bytes s', source.ensure stop s = .ok bytes s' ∧
      stop ≤ bytes.length ∧ ∀ start, bytes.toList.segment start stop = head.segment start stop := by
  obtain ⟨bytes, s', hensure, hlength, hbytes⟩ :=
    hserves stop s (Nat.le_trans hstop hhead.length_le)
  refine ⟨bytes, s', hensure, hlength, ?_⟩
  intro start
  rw [← List.segment_of_isPrefix hbytes (by rwa [bytes.length_toList]),
    List.segment_of_isPrefix hhead hstop]

end Source.Serves

section

variable (hserves : source.Serves file) (hhead : head <+: file)

include hserves hhead

theorem ensure_eq {stop : Nat} (c : Cursor σ) (hstop : stop ≤ head.length) :
    ∃ bytes c', ensure source (double stop) c = .ok bytes c' ∧ c'.offset = c.offset ∧
      stop ≤ bytes.length ∧ ∀ start, bytes.toList.segment start stop = head.segment start stop := by
  obtain ⟨bytes, s', hensure, hlength, hbytes⟩ := hserves.of_isPrefix hhead c.source hstop
  have hsafe : double stop = stop := double_of_lt (Nat.lt_of_le_of_lt hlength bytes.length_lt)
  refine ⟨bytes, { c with source := s' }, ?_, rfl, hlength, hbytes⟩
  rw [ensure, hsafe, hensure]

theorem double_eq_of_le (s : σ) (hn : n ≤ head.length) : double n = n := by
  obtain ⟨bytes, s', -, hlength, -⟩ := hserves.of_isPrefix hhead s hn
  exact double_of_lt (Nat.lt_of_le_of_lt hlength bytes.length_lt)

/-- What is read through a `DataView`. -/
theorem reads_view {k : List UInt8 → Reader σ β} {e e' : List UInt8} {b : β} (hlength : e.length = n)
    (hk : Reads head Cursor.offset (p + n) (k e) e' b) :
    Reads head Cursor.offset p (do let bytes ← view source n; advance n; k bytes) (e ++ e') b := by
  subst hlength
  intro hat c hc
  obtain ⟨⟨hfit, he⟩, hat'⟩ := hat.append
  obtain ⟨bytes, c₁, hensure, hoffset, hstop, hbytes⟩ := ensure_eq hserves hhead c hfit
  have hview : view source e.length c = .ok e c₁ := by
    have hfit' : bytes.byteOffset + c.offset + e.length ≤ bytes.buffer.length := by
      have hwithin := bytes.within
      omega
    have hsegment : bytes.buffer.segment (bytes.byteOffset + c.offset)
        (bytes.byteOffset + c.offset + e.length) = e := by
      rw [Nat.add_assoc, hc, bytes.segment_buffer hstop, hbytes, he]
    rw [← hc] at hensure
    rw [view, bind_position, EStateM.bind_of_ok hensure, if_pos hfit', hsegment]
    rfl
  have hsafe := double_eq_of_le hserves hhead c₁.source hfit
  obtain ⟨c₂, hc₂, hoffset₂⟩ := hk hat' { c₁ with offset := p + e.length } rfl
  refine ⟨c₂, ?_, ?_⟩
  · rw [EStateM.bind_of_ok hview]
    have hadvance : advance e.length c₁ = .ok () { c₁ with offset := p + e.length } := by
      show EStateM.Result.ok () { c₁ with offset := double (c₁.offset + e.length) } = _
      rw [hoffset, hc, hsafe]
    rw [EStateM.bind_of_ok hadvance, hc₂]
  · rw [hoffset₂, List.length_append, Nat.add_assoc]

theorem reads_u32 (hn : n < 2 ^ 32) : Reads head Cursor.offset p (u32 source) (leBytes 4 n) n := by
  have h := reads_view (k := fun bytes => pure (leNat bytes)) (p := p) hserves hhead
    (length_leBytes 4 n) (.pure (leNat (leBytes 4 n)))
  rwa [List.append_nil, leNat_leBytes_of_lt hn] at h

theorem reads_u64 (hn : n < 2 ^ 64) : Reads head Cursor.offset p (u64 source) (leBytes 8 n) n := by
  have h := reads_view (k := fun bytes => pure (leNat bytes)) (p := p) hserves hhead
    (length_leBytes 8 n) (.pure (leNat (leBytes 8 n)))
  rwa [List.append_nil, leNat_leBytes_of_lt hn] at h

/-- What `ensure` and a step forward have in common, where nothing is read or the text is. -/
theorem ensure_advance {e : List UInt8} (hat : head.HasAt p e) (c : Cursor σ) (hc : c.offset = p)
    (hlength : e.length = n) : double (c.offset + n) = c.offset + n ∧
      ∃ bytes c₁ c₂, ensure source (double (c.offset + n)) c = .ok bytes c₁ ∧
        advance n c₁ = .ok () c₂ ∧ c₂.offset = p + n ∧ bytes.subarray c.offset (c.offset + n) = e := by
  subst hc hlength
  obtain ⟨hfit, he⟩ := hat
  have hsafe := double_eq_of_le hserves hhead c.source hfit
  obtain ⟨bytes, c₁, hensure, hoffset, -, hbytes⟩ := ensure_eq hserves hhead c hfit
  refine ⟨hsafe, bytes, c₁, { c₁ with offset := c.offset + e.length }, hensure, ?_, rfl, ?_⟩
  · show EStateM.Result.ok () { c₁ with offset := double (c₁.offset + e.length) } = _
    rw [hoffset, hsafe]
  · rw [Uint8Array.subarray, hbytes, he]

theorem reads_skip {e : List UInt8} (hlength : e.length = n) :
    Reads head Cursor.offset p (skip source n) e () := by
  intro hat c hc
  obtain ⟨-, bytes, c₁, c₂, hensure, hadvance, hoffset, -⟩ :=
    ensure_advance hserves hhead hat c hc hlength
  refine ⟨c₂, ?_, by rw [hoffset, hlength]⟩
  rw [skip, bind_position, EStateM.bind_of_ok hensure, hadvance]

theorem reads_skip_double {e : List UInt8} (hlength : e.length = n) :
    Reads head Cursor.offset p (skip source (double n)) e () := by
  intro hat c hc
  have hfit : n ≤ head.length := Nat.le_trans (hlength ▸ Nat.le_add_left _ _) hat.1
  rw [double_eq_of_le hserves hhead c.source hfit]
  exact reads_skip hserves hhead hlength hat c hc

theorem reads_string (hdecode : Decodes decode) (text : Text) :
    Reads head Cursor.offset p (string decode source) text.encode text.text := by
  have hshort : (utf8 text.text).length < 2 ^ 64 := Nat.lt_trans text.short (by decide)
  apply Reads.bind (reads_u64 hserves hhead hshort)
  intro hat c hc
  obtain ⟨hsafe, bytes, c₁, c₂, hensure, hadvance, hoffset, hbytes⟩ :=
    ensure_advance hserves hhead hat c hc rfl
  refine ⟨c₂, ?_, hoffset⟩
  dsimp only
  rw [double_of_lt text.short, if_pos (show isSafeInteger _ from text.short), Gguf.text, bind_position,
    EStateM.bind_of_ok hensure, EStateM.bind_of_ok hadvance, hsafe, hbytes,
    hdecode text.text text.noBom]
  rfl

theorem reads_scalar (type : ScalarType) (bits : type.Bits) :
    Reads head Cursor.offset p (scalar source type.id) (type.encode bits) (type.meaning bits) := by
  rw [scalar, SCALAR_WIDTH_id]
  dsimp only
  rw [← List.append_nil (type.encode bits)]
  apply reads_view hserves hhead (length_leBytes _ _)
  have hget : getScalar type.id (leBytes type.width bits.toNat) = some (type.meaning bits) :=
    getScalar_encode type bits
  rw [hget]
  exact .pure _

theorem reads_stringItem (hdecode : Decodes decode) (i : Nat) (sample : List Item) (text : Text) :
    Reads head Cursor.offset p (stringItem decode source i sample) text.encode
      (if i < ARRAY_SAMPLE then sample ++ [.string text.text] else sample) := by
  unfold stringItem
  split
  · exact .bind_pure (reads_string hserves hhead hdecode text) fun item => sample ++ [.string item]
  · have hshort : (utf8 text.text).length < 2 ^ 64 := Nat.lt_trans text.short (by decide)
    apply Reads.bind (reads_u64 hserves hhead hshort)
    rw [double_of_lt text.short]
    exact .bind_pure (reads_skip hserves hhead rfl) fun _ => sample

theorem reads_strings (hdecode : Decodes decode) (texts : List Text) :
    Reads head Cursor.offset p (items decode source GGUF_VALUE_TYPE.STRING texts.length)
      (texts.flatMap Text.encode) ((texts.take 4).map fun text => .string text.text) := by
  have h := reads_forRounds texts
    (fun i acc p text _ => reads_stringItem (p := p) hserves hhead hdecode i acc text) 0 [] p
  rw [foldRounds_sample] at h
  rw [items, if_pos rfl]
  exact h

theorem reads_scalarItem (type : ScalarType) (i : Nat) (sample : List Item) (bits : type.Bits) :
    Reads head Cursor.offset p (scalarItem source type.id i sample) (type.encode bits)
      (sample ++ [.scalar (type.meaning bits)]) :=
  .bind_pure (reads_scalar hserves hhead type bits) fun item => sample ++ [.scalar item]

theorem reads_scalars (type : ScalarType) (all : List type.Bits) :
    Reads head Cursor.offset p (items decode source type.id all.length) (all.flatMap type.encode)
      ((all.take 4).map fun bits => .scalar (type.meaning bits)) := by
  obtain ⟨hstring, harray⟩ := type.id_ne
  have hsample := reads_forRounds (all.take 4)
    (fun i sample p bits _ => reads_scalarItem (p := p) hserves hhead type i sample bits) 0 [] p
  rw [foldRounds_push, List.length_take, Nat.min_comm] at hsample
  have hrest : ((all.drop 4).flatMap type.encode).length =
      (all.length - min all.length 4) * type.width := by
    rw [length_flatMap_encode, List.length_drop, Nat.sub_eq_sub_min, Nat.min_comm]
  have hencode : all.flatMap type.encode =
      (all.take 4).flatMap type.encode ++ (all.drop 4).flatMap type.encode := by
    rw [← List.flatMap_append, List.take_append_drop]
  rw [items, if_neg hstring, if_neg harray, SCALAR_WIDTH_id, hencode]
  exact hsample.bind (.bind_pure (reads_skip_double hserves hhead hrest) fun _ => _)

theorem reads_array (itemType : Nat) (length : Nat) (encoded : List UInt8) (sample : List Item)
    (htype : itemType < 2 ^ 32) (hlength : length < 2 ^ 53)
    (hitems : ∀ p, Reads head Cursor.offset p (items decode source itemType length) encoded sample) :
    Reads head Cursor.offset p (value decode source GGUF_VALUE_TYPE.ARRAY)
      (leBytes 4 itemType ++ leBytes 8 length ++ encoded) (.array itemType length sample) := by
  have hshort : length < 2 ^ 64 := Nat.lt_trans hlength (by decide)
  rw [value, if_neg (by decide), if_neg (by decide), List.append_assoc]
  apply Reads.bind (reads_u32 hserves hhead htype)
  apply Reads.bind (reads_u64 hserves hhead hshort)
  rw [double_of_lt hlength, if_pos (show isSafeInteger _ from hlength)]
  exact .bind_pure (hitems _) fun sample => Value.array itemType length sample

theorem reads_value (hdecode : Decodes decode) (v : Format.Value) :
    Reads head Cursor.offset p (value decode source v.id) v.encode v.meaning := by
  cases v with
  | scalar type bits =>
      obtain ⟨hstring, harray⟩ := type.id_ne
      rw [Format.Value.id, value, if_neg hstring, if_pos harray]
      exact .bind_pure (reads_scalar hserves hhead type bits) Value.scalar
  | string text =>
      rw [Format.Value.id, value, if_pos rfl]
      exact .bind_pure (reads_string hserves hhead hdecode text) Value.string
  | scalars type items short =>
      exact reads_array hserves hhead _ _ _ _ type.id_lt short
        fun p => reads_scalars hserves hhead type items
  | strings items short =>
      exact reads_array hserves hhead _ _ _ _ (by decide) short
        fun p => reads_strings hserves hhead hdecode items

/-! ### The header -/

theorem reads_metadataEntry (hdecode : Decodes decode) (i : Nat) (metadata : JsMap String Value)
    (entry : Text × Format.Value) :
    Reads head Cursor.offset p (metadataEntry decode source i metadata) (encodeEntry entry)
      (metadata.set entry.1.text entry.2.meaning) := by
  rw [encodeEntry, List.append_assoc]
  apply Reads.bind (reads_string hserves hhead hdecode entry.1)
  apply Reads.bind (reads_u32 hserves hhead entry.2.id_lt)
  exact .bind_pure (reads_value hserves hhead hdecode entry.2) (metadata.set entry.1.text)

theorem reads_dim (i : Nat) (dims : List Nat) (d : BitVec 64) :
    Reads head Cursor.offset p (dim source i dims) (leBytes 8 d.toNat) (dims ++ [d.toNat]) :=
  .bind_pure (reads_u64 hserves hhead d.isLt) fun d => dims ++ [d]

theorem reads_tensor (hdecode : Decodes decode) (i : Nat) (tensors : List Tensor) (t : Format.Tensor) :
    Reads head Cursor.offset p (tensor decode source i tensors) t.encode (tensors ++ [t.meaning]) := by
  have hdims : t.dims.length < 2 ^ 32 := Nat.lt_of_le_of_lt t.dims_le (by decide)
  rw [Format.Tensor.encode, List.append_assoc, List.append_assoc, List.append_assoc]
  apply Reads.bind (reads_string hserves hhead hdecode t.name)
  apply Reads.bind (reads_u32 hserves hhead hdims)
  rw [if_neg (Nat.not_lt.mpr t.dims_le)]
  have hloop := fun p => reads_forRounds t.dims
    (fun i acc p d _ => reads_dim (p := p) hserves hhead i acc d) 0 [] p
  simp only [foldRounds_push, List.nil_append] at hloop
  apply Reads.bind (hloop _)
  apply Reads.bind (reads_u32 hserves hhead t.type_lt)
  rw [← List.append_nil (leBytes 8 t.offset.toNat)]
  apply Reads.bind (reads_u64 hserves hhead t.offset.isLt)
  intro _ c hc
  refine ⟨c, ?_, hc⟩
  rw [EStateM.bind_of_ok (t.tensorBytes_eq c), t.known]
  rfl

theorem reads_header {ν : Type} (doubles : Doubles ν) (hdecode : Decodes decode) (h : Format.Header) :
    Reads head Cursor.offset 0 (header decode source doubles) h.encode (h.meaning doubles) := by
  have hversion : h.version < 2 ^ 32 := by
    have hversion := h.version_eq
    omega
  have htensors : h.tensors.length < 2 ^ 64 := Nat.lt_trans h.tensors_short (by decide)
  have hmetadata : h.metadata.length < 2 ^ 64 := Nat.lt_trans h.metadata_short (by decide)
  have hloop := fun p => reads_forRounds h.metadata
    (fun i acc p entry _ => reads_metadataEntry (p := p) hserves hhead hdecode i acc entry) 0 .empty p
  have hentries : foldRounds (fun _ m (entry : Text × Format.Value) =>
      m.set entry.1.text entry.2.meaning) 0 .empty h.metadata = h.entries :=
    JsMap.ext_entries (foldRounds_set _ _ _ _ _ h.nodup)
  rw [hentries] at hloop
  have hloop' := fun p => reads_forRounds h.tensors
    (fun i acc p t _ => reads_tensor (p := p) hserves hhead hdecode i acc t) 0 [] p
  simp only [foldRounds_push, List.nil_append] at hloop'
  rw [Format.Header.encode, Format.Header.encodeMetadata, List.append_assoc, List.append_assoc,
    List.append_assoc, List.append_assoc]
  apply Reads.bind (reads_u32 hserves hhead (by decide))
  rw [if_neg (not_not.mpr rfl)]
  apply Reads.bind (reads_u32 hserves hhead hversion)
  rw [if_neg (by have hversion := h.version_eq; omega)]
  apply Reads.bind (reads_u64 hserves hhead htensors)
  apply Reads.bind (reads_u64 hserves hhead hmetadata)
  rw [double_of_lt h.tensors_short, double_of_lt h.metadata_short,
    if_pos ⟨h.tensors_short, h.metadata_short⟩]
  have hmetadataEnd : h.encodeMetadata.length = 0 + (leBytes 4 GGUF_MAGIC).length +
      (leBytes 4 h.version).length + (leBytes 8 h.tensors.length).length +
        (leBytes 8 h.metadata.length).length + (h.metadata.flatMap encodeEntry).length := by
    rw [Format.Header.encodeMetadata, List.length_append, List.length_append, List.length_append,
      List.length_append, Nat.zero_add]
  apply Reads.bind (hloop _)
  rw [← hmetadataEnd]
  apply Reads.bind_nil reads_position
  rw [← List.append_nil (h.tensors.flatMap _)]
  apply Reads.bind (hloop' _)
  rw [← List.length_append, ← Format.Header.encode]
  apply Reads.bind_nil reads_position
  exact .pure _

end

/-- What is written is read back, whatever follows it in the file and however much more than it is asked
for the source returns. -/
theorem readGgufHeader_encode {ν : Type} (doubles : Doubles ν) (hdecode : Decodes decode)
    (h : Format.Header) (hfile : h.encode <+: file) (hserves : source.Serves file) (s : σ) :
    ∃ s', readGgufHeader decode source doubles s = .ok (h.meaning doubles) s' := by
  obtain ⟨c, hread, -⟩ := (reads_header hserves hfile doubles hdecode h).run
    (List.prefix_refl _) (s := ⟨s, 0, 0⟩) rfl
  refine ⟨c.source, ?_⟩
  rw [readGgufHeader, hread]

/-! ### An example -/

/-- The text decoder on what is UTF-8. -/
def textDecoder (bytes : List UInt8) : String :=
  let text := (String.fromUTF8? ⟨bytes.toArray⟩).getD "\uFFFD"
  if NoBom text then text else String.ofList text.toList.tail

theorem decodes_textDecoder : Decodes textDecoder := by
  intro text hbom
  have hbytes : (⟨(utf8 text).toArray⟩ : ByteArray) = text.toByteArray := by
    rw [utf8, Array.toArray_toList]
  rw [textDecoder, hbytes, String.fromUTF8?, dif_pos text.isValidUTF8]
  exact if_pos hbom

/-- A source that has the file and returns all of it every time. -/
def wholeFile (file : Uint8Array) : Source Unit where
  ensure stop :=
    if stop ≤ file.length then pure file else fail s!"read past end of file: {stop} > {file.length}"

theorem serves_wholeFile (file : Uint8Array) : (wholeFile file).Serves file.toList := by
  intro stop s hstop
  rw [file.length_toList] at hstop
  refine ⟨file, s, ?_, hstop, List.prefix_refl _⟩
  rw [wholeFile]
  dsimp only
  rw [if_pos hstop]
  rfl

/-- A file that is held whole reads as the header that it begins with. -/
theorem wholeFile_reads {ν : Type} (doubles : Doubles ν) (h : Format.Header) {file : Uint8Array}
    (hfile : h.encode <+: file.toList) :
    ∃ s', readGgufHeader textDecoder (wholeFile file) doubles () = .ok (h.meaning doubles) s' := by
  obtain ⟨c, hread, -⟩ := (reads_header (serves_wholeFile file) hfile doubles decodes_textDecoder h).run
    (List.prefix_refl _) (s := ⟨(), 0, 0⟩) rfl
  exact ⟨c.source, by rw [readGgufHeader, hread]⟩

def smallHeader : Format.Header where
  version := 3
  metadata := [
    (⟨"general.alignment", by decide, by decide⟩, .scalar .uint32 64),
    (⟨"tokens", by decide, by decide⟩, .strings (List.replicate 5 ⟨"é", by decide, by decide⟩) (by decide)),
    (⟨"types", by decide, by decide⟩, .scalars .int8 [1, 2, 3, 4, 255] (by decide))]
  tensors := [{
    name := ⟨"output", by decide, by decide⟩, dims := [64, 2], type := 2, trait := ⟨"Q4_0", 32, 18⟩
    offset := 0, dims_le := by decide, known := by decide, blocks := by decide }]
  version_eq := by decide
  nodup := by decide
  metadata_short := by decide
  tensors_short := by decide

/-- The header with eight bytes after it, in a view that starts inside its buffer. -/
def smallFile : Uint8Array where
  buffer := [7] ++ smallHeader.encode ++ List.replicate 8 0
  byteOffset := 1
  length := smallHeader.encode.length + 8
  within := by
    rw [List.length_append, List.length_append, List.length_singleton, List.length_replicate, Nat.add_assoc]
  indexable := by decide +kernel

/-- Doubles that are whole numbers. -/
def wholeDoubles : Doubles Nat where
  thirtyTwo := 32
  number := fun
    | .scalar (.number n) => n.toNat
    | _ => 0
  ceilTo n alignment := (n + alignment - 1) / alignment * alignment

theorem smallFile_prefix : smallHeader.encode <+: smallFile.toList := ⟨List.replicate 8 0, by decide +kernel⟩

theorem readGgufHeader_smallHeader : ∃ s',
    readGgufHeader textDecoder (wholeFile smallFile) wholeDoubles () =
      .ok (smallHeader.meaning wholeDoubles) s' :=
  readGgufHeader_encode wholeDoubles decodes_textDecoder smallHeader smallFile_prefix (serves_wholeFile smallFile) ()

end LlmRuntime.Gguf

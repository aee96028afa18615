import LlmRuntime.Gguf.Prefix

/-!
# Two sources in lockstep

Where two sources answer each call alike, with the same bytes or both with an error, a reader does the same
over both, whatever it reads: it succeeds over both with the same result, having moved both in the same
way, or it fails over both.
-/

namespace LlmRuntime.Gguf

variable {σ τ α β : Type} {source : Source σ} {source' : Source τ} {R : σ → τ → Prop}

/-- `R` relates the states of two sources that have been asked the same. -/
def Source.Lockstep (source : Source σ) (source' : Source τ) (R : σ → τ → Prop) : Prop :=
  ∀ stop s t, R s t →
    (∃ bytes bytes' s' t', source.ensure stop s = .ok bytes s' ∧ source'.ensure stop t = .ok bytes' t' ∧
      bytes.toList = bytes'.toList ∧ stop ≤ bytes.length ∧ R s' t') ∨
    ((∃ e s', source.ensure stop s = .error e s') ∧ ∃ e t', source'.ensure stop t = .error e t')

/-- Two cursors at the same place. -/
structure Aligned (R : σ → τ → Prop) (c : Cursor σ) (c' : Cursor τ) : Prop where
  source : R c.source c'.source
  offset : c'.offset = c.offset
  rounds : c'.rounds = c.rounds

/-- The same result, or none. -/
def Matches (R : σ → τ → Prop) (m : Reader σ α) (m' : Reader τ α) : Prop :=
  ∀ c c', Aligned R c c' →
    (∃ a d d', m c = .ok a d ∧ m' c' = .ok a d' ∧ Aligned R d d') ∨
      ((∃ e d, m c = .error e d) ∧ ∃ e d, m' c' = .error e d)

namespace Matches

theorem pure (a : α) : Matches R (Pure.pure a) (Pure.pure a) :=
  fun c c' hc => .inl ⟨a, c, c', rfl, rfl, hc⟩

theorem fail (message : String) : Matches (α := α) R (Gguf.fail message) (Gguf.fail message) :=
  fun _ _ _ => .inr ⟨⟨_, _, rfl⟩, _, _, rfl⟩

theorem position : Matches R Gguf.position Gguf.position := by
  intro c c' hc
  refine .inl ⟨c.offset, c, c', rfl, ?_, hc⟩
  rw [Gguf.position, hc.offset]

theorem advance (n : Nat) : Matches R (Gguf.advance n) (Gguf.advance n) := by
  intro c c' hc
  refine .inl ⟨(), _, _, advance_apply n c, advance_apply n c', hc.source, ?_, hc.rounds⟩
  rw [hc.offset]

theorem bind {m : Reader σ α} {m' : Reader τ α} {f : α → Reader σ β} {f' : α → Reader τ β}
    (hm : Matches R m m') (hf : ∀ a, Matches R (f a) (f' a)) : Matches R (m >>= f) (m' >>= f') := by
  intro c c' hc
  rcases hm c c' hc with ⟨a, d, d', hrun, hrun', hd⟩ | ⟨⟨e, d, herror⟩, e', d', herror'⟩
  · rw [EStateM.bind_of_ok hrun, EStateM.bind_of_ok hrun']
    exact hf a d d' hd
  · exact .inr ⟨⟨e, d, EStateM.bind_of_error f herror⟩, e', d', EStateM.bind_of_error f' herror'⟩

/-- What comes after `ensure` has the same bytes on both sides. -/
theorem ensure (hlockstep : source.Lockstep source' R) (n : Nat) {f : Uint8Array → Reader σ α}
    {f' : Uint8Array → Reader τ α} {c : Cursor σ} {c' : Cursor τ} (hc : Aligned R c c')
    (hf : ∀ bytes bytes', bytes.toList = bytes'.toList → double (c.offset + n) ≤ bytes.length →
      double (c.offset + n) ≤ bytes'.length → Matches R (f bytes) (f' bytes')) :
    (∃ a d d', (Gguf.ensure source (double (c.offset + n)) >>= f) c = .ok a d ∧
        (Gguf.ensure source' (double (c'.offset + n)) >>= f') c' = .ok a d' ∧ Aligned R d d') ∨
      ((∃ e d, (Gguf.ensure source (double (c.offset + n)) >>= f) c = .error e d) ∧
        ∃ e d, (Gguf.ensure source' (double (c'.offset + n)) >>= f') c' = .error e d) := by
  rw [hc.offset]
  rcases hlockstep (double (c.offset + n)) c.source c'.source hc.source with
    ⟨bytes, bytes', s', t', hensure, hensure', hbytes, hstop, hR⟩ | ⟨⟨e, s', herror⟩, e', t', herror'⟩
  · have hlength : bytes.length = bytes'.length := by
      rw [← bytes.length_toList, hbytes, bytes'.length_toList]
    rw [EStateM.bind_of_ok (ensure_of_ok hensure), EStateM.bind_of_ok (ensure_of_ok hensure')]
    exact hf bytes bytes' hbytes hstop (hlength ▸ hstop) _ _ ⟨hR, hc.offset, hc.rounds⟩
  · exact .inr ⟨⟨_, _, EStateM.bind_of_error f (ensure_of_error herror)⟩, _, _,
      EStateM.bind_of_error f' (ensure_of_error herror')⟩

/-- The part of a view that is asked for is there. -/
theorem segment_view {bytes : Uint8Array} {offset n : Nat} (hstop : double (offset + n) ≤ bytes.length) :
    bytes.byteOffset + offset + n ≤ bytes.buffer.length ∧
      bytes.buffer.segment (bytes.byteOffset + offset) (bytes.byteOffset + offset + n) =
        bytes.toList.segment offset (offset + n) := by
  have hsafe := double_of_lt (lt_of_double_lt (Nat.lt_of_le_of_lt hstop bytes.length_lt))
  rw [hsafe] at hstop
  have hwithin := bytes.within
  refine ⟨by omega, ?_⟩
  rw [Nat.add_assoc, bytes.segment_buffer hstop]

theorem view (hlockstep : source.Lockstep source' R) (n : Nat) :
    Matches R (Gguf.view source n) (Gguf.view source' n) := by
  intro c c' hc
  rw [Gguf.view, Gguf.view, bind_position, bind_position]
  apply ensure hlockstep n hc
  intro bytes bytes' hbytes hstop hstop'
  obtain ⟨hfit, hsegment⟩ := segment_view hstop
  obtain ⟨hfit', hsegment'⟩ := segment_view hstop'
  rw [hc.offset, if_pos hfit, if_pos hfit', hsegment, hsegment', hbytes]
  exact .pure _

theorem text (hlockstep : source.Lockstep source' R) (decode : List UInt8 → String) (n : Nat) :
    Matches R (Gguf.text decode source n) (Gguf.text decode source' n) := by
  intro c c' hc
  rw [Gguf.text, Gguf.text, bind_position, bind_position]
  apply ensure hlockstep n hc
  intro bytes bytes' hbytes _ _
  rw [hc.offset, Uint8Array.subarray, Uint8Array.subarray, hbytes]
  exact .bind (.advance n) fun _ => .pure _

theorem skip (hlockstep : source.Lockstep source' R) (n : Nat) :
    Matches R (Gguf.skip source n) (Gguf.skip source' n) := by
  intro c c' hc
  rw [Gguf.skip, Gguf.skip, bind_position, bind_position]
  apply ensure hlockstep n hc
  intro bytes bytes' _ _ _
  exact .advance n

theorem loop {body : Nat → α → Reader σ α} {body' : Nat → α → Reader τ α}
    (hbody : ∀ i acc, Matches R (body i acc) (body' i acc)) (n i : Nat) (acc : α) :
    Matches R (forRounds body n i acc) (forRounds body' n i acc) := by
  induction n generalizing i acc with
  | zero => exact .pure acc
  | succ n ih =>
      apply bind
      · intro c c' hc
        exact .inl ⟨(), _, _, rfl, rfl, hc.source, hc.offset, congrArg (· + 1) hc.rounds⟩
      · intro _
        exact .bind (hbody i acc) fun acc => ih (i + 1) acc

end Matches

theorem Built.matches (hlockstep : source.Lockstep source' R) {n : Nat} {m : Program α} (hm : Built n m) :
    Matches R (m σ source) (m τ source') := by
  induction hm with
  | pure a => exact .pure a
  | fail n message => exact .fail message
  | less hle hm ih => exact ih
  | position => exact .position
  | bind hm hf ihm ihf => exact .bind ihm ihf
  | view n hf ih => exact .bind (.view hlockstep n) fun bytes => .bind (.advance n) fun _ => ih bytes
  | text decode n => exact .text hlockstep decode n
  | skip n => exact .skip hlockstep n
  | loop hbody n i acc ih => exact .loop ih n i acc

/-- **The header over both sources.** It is read over both or over neither, and then both have been asked
the same. -/
theorem readGgufHeader_lockstep (hlockstep : source.Lockstep source' R) (decode : List UInt8 → String)
    {ν : Type} (doubles : Doubles ν) {s : σ} {t : τ} (hR : R s t) :
    (∃ h s' t', readGgufHeader decode source doubles s = .ok h s' ∧
      readGgufHeader decode source' doubles t = .ok h t' ∧ R s' t') ∨
    ((∃ e s', readGgufHeader decode source doubles s = .error e s') ∧
      ∃ e t', readGgufHeader decode source' doubles t = .error e t') := by
  rw [readGgufHeader, readGgufHeader]
  rcases (Built.header decode doubles).matches hlockstep ⟨s, 0, 0⟩ ⟨t, 0, 0⟩ ⟨hR, rfl, rfl⟩ with
    ⟨h, d, d', hrun, hrun', hd⟩ | ⟨⟨e, d, herror⟩, e', d', herror'⟩
  · rw [hrun, hrun']
    exact .inl ⟨h, d.source, d'.source, rfl, rfl, hd.source⟩
  · rw [herror, herror']
    exact .inr ⟨⟨e, d.source, rfl⟩, e', d'.source, rfl⟩

end LlmRuntime.Gguf

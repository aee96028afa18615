import LlmRuntime.Gguf.Decoding
import LlmRuntime.Gguf.Program

/-!
# What a header is read from

A source over `file` returns what it is asked for as long as the file goes, and throws beyond its end.
Two runs over files that agree on the first `k` bytes go the same way until one of them has to go beyond
`k`, since a reader moves over nothing that it has not asked for.
-/

namespace LlmRuntime.Gguf

/-- `ok` is what the source keeps true of its state. Beyond `limit` it may refuse. -/
structure Source.Delivers {σ : Type} (source : Source σ) (ok : σ → Prop) (file : List UInt8)
    (limit : Nat) : Prop where
  within : ∀ stop s, ok s → stop ≤ file.length → stop ≤ limit →
    ∃ bytes s', source.ensure stop s = .ok bytes s'
  honest : ∀ stop s bytes s', ok s → source.ensure stop s = .ok bytes s' →
    ok s' ∧ stop ≤ file.length ∧ file.take stop <+: bytes.toList

/-- The same source, keeping what it was asked for. -/
def Source.recording {σ : Type} (source : Source σ) : Source (σ × List Nat) where
  ensure stop s :=
    match source.ensure stop s.1 with
    | .ok bytes s' => .ok bytes (s', s.2 ++ [stop])
    | .error e s' => .error e (s', s.2 ++ [stop])

/-- From `2 ^ 53` on a double has 53 binary digits, or it is the next power of two. -/
theorem double_of_le {n : Nat} (h : 2 ^ 53 ≤ n) :
    ∃ d, 2 ^ 52 ≤ d ∧ d ≤ 2 ^ 53 ∧ n / 2 ^ (n.log2 - 52) ≤ d ∧ double n = d * 2 ^ (n.log2 - 52) := by
  have hlog : 53 ≤ n.log2 := (Nat.le_log2 (by omega)).mpr h
  have hpow : 0 < 2 ^ (n.log2 - 52) := Nat.two_pow_pos _
  have hlow : 2 ^ 52 ≤ n / 2 ^ (n.log2 - 52) := by
    rw [Nat.le_div_iff_mul_le hpow, ← Nat.pow_add, show 52 + (n.log2 - 52) = n.log2 by omega]
    exact Nat.log2_self_le (by omega)
  have hhigh : n / 2 ^ (n.log2 - 52) < 2 ^ 53 := by
    rw [Nat.div_lt_iff_lt_mul hpow, ← Nat.pow_add, show 53 + (n.log2 - 52) = n.log2 + 1 by omega]
    exact Nat.lt_log2_self
  rw [double, if_neg (Nat.not_lt.mpr h)]
  dsimp only
  split
  · exact ⟨_, by omega, by omega, Nat.le_succ _, rfl⟩
  · exact ⟨_, hlow, by omega, Nat.le_refl _, rfl⟩

theorem le_double {n : Nat} (h : 2 ^ 53 ≤ n) : 2 ^ 53 ≤ double n := by
  obtain ⟨d, hlow, -, -, heq⟩ := double_of_le h
  have hlog : 53 ≤ n.log2 := (Nat.le_log2 (by omega)).mpr h
  have hunit : 2 ^ 1 ≤ 2 ^ (n.log2 - 52) := Nat.pow_le_pow_right Nat.two_pos (by omega)
  rw [heq]
  exact Nat.mul_le_mul hlow hunit

theorem lt_of_double_lt {n : Nat} (h : double n < 2 ^ 53) : n < 2 ^ 53 := by
  by_contra hn
  exact Nat.not_lt.mpr (le_double (Nat.not_lt.mp hn)) h

variable {σ τ α : Type} {source : Source σ} {source' : Source τ} {ok : σ → Prop} {ok' : τ → Prop}
  {file file' : List UInt8} {n k limit limit' : Nat}

namespace Source.Delivers

theorem of_ok (hdelivers : source.Delivers ok file limit) {stop : Nat} {s s' : σ} {bytes : Uint8Array}
    (hs : ok s) (h : source.ensure stop s = .ok bytes s') :
    ok s' ∧ stop ≤ file.length ∧ stop ≤ bytes.length ∧
      bytes.toList.take stop = file.take stop := by
  obtain ⟨hs', hstop, hbytes⟩ := hdelivers.honest stop s bytes s' hs h
  have htake : (file.take stop).length = stop := by
    rw [List.length_take, Nat.min_eq_left hstop]
  have hlength := hbytes.length_le
  rw [htake, bytes.length_toList] at hlength
  refine ⟨hs', hstop, hlength, ?_⟩
  have heq := List.prefix_iff_eq_take.mp hbytes
  rw [htake] at heq
  exact heq.symm

theorem recording (hdelivers : source.Delivers ok file limit) :
    source.recording.Delivers (fun s => ok s.1) file limit where
  within stop s hs hstop hlimit := by
    obtain ⟨bytes, s', h⟩ := hdelivers.within stop s.1 hs hstop hlimit
    refine ⟨bytes, (s', s.2 ++ [stop]), ?_⟩
    rw [Source.recording]
    dsimp only
    rw [h]
  honest stop s bytes s' hs h := by
    rw [Source.recording] at h
    dsimp only at h
    split at h
    · rename_i hensure
      cases h
      exact hdelivers.honest stop s.1 bytes _ hs hensure
    · cases h

end Source.Delivers

/-! ### One `ensure` and the step after it -/

/-- `m` asks for the next `n` bytes and goes on with them as `g`, or throws if it does not get them. -/
def Takes (source : Source σ) (ok : σ → Prop) (file : List UInt8) (limit n : Nat) (m : Reader σ α)
    (g : List UInt8 → Reader σ α) : Prop :=
  ∀ c, ok c.source →
    (c.offset + n ≤ file.length ∧ ∃ bytes s',
      source.ensure (c.offset + n) c.source = .ok bytes s' ∧ ok s' ∧
        m c = g (file.segment c.offset (c.offset + n)) ⟨s', c.offset + n, c.rounds⟩) ∨
    (min file.length limit < c.offset + n ∧ ∃ e c', m c = .error e c')

theorem ensure_of_ok {stop : Nat} {c : Cursor σ} {bytes : Uint8Array} {s' : σ}
    (h : source.ensure stop c.source = .ok bytes s') :
    ensure source stop c = .ok bytes { c with source := s' } := by
  rw [ensure, h]

theorem ensure_of_error {stop : Nat} {c : Cursor σ} {e : Failure} {s' : σ}
    (h : source.ensure stop c.source = .error e s') :
    ensure source stop c = .error e { c with source := s' } := by
  rw [ensure, h]

theorem advance_apply (n : Nat) (c : Cursor σ) :
    advance n c = .ok () { c with offset := double (c.offset + n) } := rfl

namespace Source.Delivers

variable (hdelivers : source.Delivers ok file limit)

include hdelivers

/-- What `ensure` does with the end a reader computes. -/
theorem ensure_cases {s : σ} (hs : ok s) (p n : Nat) :
    (p + n ≤ file.length ∧ double (p + n) = p + n ∧ ∃ bytes s',
      source.ensure (p + n) s = .ok bytes s' ∧ ok s' ∧ p + n ≤ bytes.length ∧
        bytes.toList.segment p (p + n) = file.segment p (p + n)) ∨
    (min file.length limit < p + n ∧ ∃ e s', source.ensure (double (p + n)) s = .error e s') := by
  cases h : source.ensure (double (p + n)) s with
  | ok bytes s' =>
      left
      obtain ⟨-, -, hlength, -⟩ := hdelivers.of_ok hs h
      have hsafe := double_of_lt (lt_of_double_lt (Nat.lt_of_le_of_lt hlength bytes.length_lt))
      rw [hsafe] at h
      obtain ⟨hs', hstop, hlength, hbytes⟩ := hdelivers.of_ok hs h
      refine ⟨hstop, hsafe, bytes, s', h, hs', hlength, ?_⟩
      rw [List.segment, hbytes, List.segment]
  | error e s' =>
      right
      refine ⟨?_, e, s', rfl⟩
      by_contra hstop
      obtain ⟨bytes, s'', hok⟩ := hdelivers.within (p + n) s hs (by omega) (by omega)
      obtain ⟨-, -, hlength, -⟩ := hdelivers.of_ok hs hok
      rw [double_of_lt (Nat.lt_of_le_of_lt hlength bytes.length_lt), hok] at h
      cases h

theorem takes_view (n : Nat) (g : List UInt8 → Reader σ α) :
    Takes source ok file limit n (do let bytes ← view source n; advance n; g bytes) g := by
  intro c hc
  rcases hdelivers.ensure_cases hc c.offset n with
    ⟨hstop, hsafe, bytes, s', h, hs', hlength, hbytes⟩ | ⟨hstop, e, s', h⟩
  · left
    refine ⟨hstop, bytes, s', h, hs', ?_⟩
    have hfit : bytes.byteOffset + c.offset + n ≤ bytes.buffer.length := by
      have hwithin := bytes.within
      omega
    rw [← hsafe] at h
    have hview : view source n c =
        .ok (file.segment c.offset (c.offset + n)) { c with source := s' } := by
      rw [view, bind_position, EStateM.bind_of_ok (ensure_of_ok h), if_pos hfit, Nat.add_assoc,
        bytes.segment_buffer hlength, hbytes]
      rfl
    rw [EStateM.bind_of_ok hview, EStateM.bind_of_ok (advance_apply n _)]
    dsimp only
    rw [hsafe]
  · right
    refine ⟨hstop, e, { c with source := s' }, EStateM.bind_of_error _ ?_⟩
    rw [view, bind_position, EStateM.bind_of_error _ (ensure_of_error h)]

theorem takes_text (decode : List UInt8 → String) (n : Nat) :
    Takes source ok file limit n (text decode source n) fun bytes => pure (decode bytes) := by
  intro c hc
  rcases hdelivers.ensure_cases hc c.offset n with
    ⟨hstop, hsafe, bytes, s', h, hs', -, hbytes⟩ | ⟨hstop, e, s', h⟩
  · left
    refine ⟨hstop, bytes, s', h, hs', ?_⟩
    rw [← hsafe] at h
    rw [text, bind_position, EStateM.bind_of_ok (ensure_of_ok h),
      EStateM.bind_of_ok (advance_apply n _), hsafe, Uint8Array.subarray, hbytes]
  · right
    refine ⟨hstop, e, { c with source := s' }, ?_⟩
    rw [text, bind_position, EStateM.bind_of_error _ (ensure_of_error h)]

theorem takes_skip (n : Nat) : Takes source ok file limit n (skip source n) fun _ => pure () := by
  intro c hc
  rcases hdelivers.ensure_cases hc c.offset n with
    ⟨hstop, hsafe, bytes, s', h, hs', -, -⟩ | ⟨hstop, e, s', h⟩
  · left
    refine ⟨hstop, bytes, s', h, hs', ?_⟩
    rw [← hsafe] at h
    rw [skip, bind_position, EStateM.bind_of_ok (ensure_of_ok h), advance_apply]
    dsimp only
    rw [hsafe]
    rfl
  · right
    refine ⟨hstop, e, { c with source := s' }, ?_⟩
    rw [skip, bind_position, EStateM.bind_of_error _ (ensure_of_error h)]

end Source.Delivers

/-! ### What a run keeps -/

section

variable {I : Cursor σ → Prop} (hdelivers : source.Delivers ok file limit) (hok : ∀ c, I c → ok c.source)
  (htake : ∀ c n bytes s', I c → c.offset + n ≤ file.length →
    source.ensure (c.offset + n) c.source = .ok bytes s' → ok s' → I ⟨s', c.offset + n, c.rounds⟩)
  (hround : ∀ c, I c → I { c with rounds := c.rounds + 1 })

include hok htake

/-- `m` goes on with what it takes as `g`, which keeps `I`. -/
theorem Takes.keeps {m : Reader σ α} {g : List UInt8 → Reader σ α} (hm : Takes source ok file limit n m g)
    (hg : ∀ bytes c a c', I c → g bytes c = .ok a c' → I c') {c c' : Cursor σ} {a : α} (hc : I c)
    (h : m c = .ok a c') : I c' := by
  rcases hm c (hok c hc) with ⟨hstop, bytes, s', hensure, hs', heq⟩ | ⟨-, e, c₁, herror⟩
  · rw [heq] at h
    exact hg _ _ _ _ (htake c n bytes s' hc hstop hensure hs') h
  · rw [h] at herror
    cases herror

include hdelivers hround

theorem Built.keeps {m : Program α} (hm : Built n m) {c c' : Cursor σ} {a : α} (hc : I c)
    (h : m σ source c = .ok a c') : I c' := by
  induction hm generalizing c c' with
  | pure a =>
      cases h
      exact hc
  | fail n message => cases h
  | less hle hm ih => exact ih hc h
  | position =>
      cases h
      exact hc
  | bind hm hf ihm ihf =>
      obtain ⟨a₁, c₁, hm₁, hf₁⟩ := EStateM.bind_eq_ok.mp h
      exact ihf a₁ (ihm hc hm₁) hf₁
  | view n hf ih =>
      exact (hdelivers.takes_view n _).keeps hok htake
        (fun bytes c a c' hc h => ih bytes hc h) hc h
  | text decode n =>
      apply (hdelivers.takes_text decode n).keeps hok htake _ hc h
      intro bytes c a c' hc h
      cases h
      exact hc
  | skip n =>
      apply (hdelivers.takes_skip n).keeps hok htake _ hc h
      intro bytes c a c' hc h
      cases h
      exact hc
  | loop hbody n i acc ih =>
      induction n generalizing i acc c with
      | zero =>
          cases h
          exact hc
      | succ n ihn =>
          obtain ⟨acc', c₁, hround₁, hrest⟩ := EStateM.bind_eq_ok.mp h
          cases hround₁
          obtain ⟨acc', c₁, hbody₁, hrest⟩ := EStateM.bind_eq_ok.mp hrest
          exact ihn _ _ (ih i acc (hround c hc) hbody₁) hrest

end

theorem Built.mono (hdelivers : source.Delivers ok file limit) {m : Program α} (hm : Built n m)
    {c c' : Cursor σ} {a : α} (hc : ok c.source) (h : m σ source c = .ok a c') :
    ok c'.source ∧ c.offset ≤ c'.offset := by
  apply hm.keeps (I := fun d => ok d.source ∧ c.offset ≤ d.offset) hdelivers (fun d hd => hd.1) _ _
    ⟨hc, Nat.le_refl _⟩ h
  · intro d n bytes s' hd _ _ hs'
    exact ⟨hs', Nat.le_add_right_of_le hd.2⟩
  · intro d hd
    exact hd

theorem Built.le_length (hdelivers : source.Delivers ok file limit) {m : Program α} (hm : Built n m)
    {c c' : Cursor σ} {a : α} (hc : ok c.source) (hoffset : c.offset ≤ file.length)
    (h : m σ source c = .ok a c') : c'.offset ≤ file.length := by
  have hkeeps : ok c'.source ∧ c'.offset ≤ file.length := by
    apply hm.keeps (I := fun d => ok d.source ∧ d.offset ≤ file.length) hdelivers (fun d hd => hd.1) _ _
      ⟨hc, hoffset⟩ h
    · intro d n bytes s' _ hstop _ hs'
      exact ⟨hs', hstop⟩
    · intro d hd
      exact hd
  exact hkeeps.2

theorem Built.least (hdelivers : source.Delivers ok file limit) {m : Program α} (hm : Built n m)
    {c c' : Cursor σ} {a : α} (hc : ok c.source) (h : m σ source c = .ok a c') :
    c.offset + n ≤ c'.offset := by
  induction hm generalizing c c' with
  | pure a =>
      cases h
      exact Nat.le_refl _
  | fail n message => cases h
  | less hle hm ih => exact Nat.le_trans (Nat.add_le_add_left hle _) (ih hc h)
  | position =>
      cases h
      exact Nat.le_refl _
  | bind hm hf ihm ihf =>
      obtain ⟨a₁, c₁, hm₁, hf₁⟩ := EStateM.bind_eq_ok.mp h
      have hle := ihm hc hm₁
      have hle' := ihf a₁ (hm.mono hdelivers hc hm₁).1 hf₁
      omega
  | @view _ n k f hf ih =>
      dsimp only at h
      rcases hdelivers.takes_view n (fun bytes => f bytes σ source) c hc with
        ⟨-, bytes, s', -, hs', heq⟩ | ⟨-, e, c₁, herror⟩
      · rw [heq] at h
        have hle := ih _ (c := ⟨s', c.offset + n, c.rounds⟩) hs' h
        dsimp only at hle
        omega
      · rw [herror] at h
        cases h
  | text decode n => exact ((Built.text decode n).mono hdelivers hc h).2
  | skip n => exact ((Built.skip n).mono hdelivers hc h).2
  | loop hbody n i acc ih => exact ((Built.loop hbody n i acc).mono hdelivers hc h).2

/-! ### Two runs -/

/-- What the run of `m` says about the run of `m'`: the same up to `k`, and, where the second file ends
there, that it fails if the first one goes beyond. -/
def Follows (ok : σ → Prop) (ok' : τ → Prop) (k : Nat) (short : Prop) (m : Reader σ α) (m' : Reader τ α) :
    Prop :=
  ∀ c c' a c₁, ok c.source → ok' c'.source → c'.offset = c.offset → c.offset ≤ k → m c = .ok a c₁ →
    (c₁.offset ≤ k → ∃ c₁', m' c' = .ok a c₁' ∧ ok' c₁'.source ∧ c₁'.offset = c₁.offset) ∧
    (short → k < c₁.offset → ∃ e c₁', m' c' = .error e c₁')

namespace Follows

variable {short : Prop} {β : Type}

theorem pure (a : α) : Follows ok ok' k short (Pure.pure a) (Pure.pure a) := by
  intro c c' b c₁ _ hc' hoffset hk h
  cases h
  exact ⟨fun _ => ⟨c', rfl, hc', hoffset⟩, fun _ hbeyond => absurd hk (Nat.not_le.mpr hbeyond)⟩

theorem position : Follows ok ok' k short position position := by
  intro c c' b c₁ _ hc' hoffset hk h
  cases h
  refine ⟨fun _ => ⟨c', ?_, hc', hoffset⟩, fun _ hbeyond => absurd hk (Nat.not_le.mpr hbeyond)⟩
  rw [Gguf.position, hoffset]

theorem bind {m : Reader σ α} {m' : Reader τ α} {f : α → Reader σ β} {f' : α → Reader τ β}
    (hm : Follows ok ok' k short m m') (hf : ∀ a, Follows ok ok' k short (f a) (f' a))
    (hok : ∀ c a c₁, ok c.source → m c = .ok a c₁ → ok c₁.source)
    (hmono : ∀ a c b c₁, ok c.source → f a c = .ok b c₁ → c.offset ≤ c₁.offset) :
    Follows ok ok' k short (m >>= f) (m' >>= f') := by
  intro c c' b c₂ hc hc' hoffset hk hrun
  obtain ⟨a, c₁, hm₁, hf₁⟩ := EStateM.bind_eq_ok.mp hrun
  obtain ⟨hwithin, hbeyond⟩ := hm c c' a c₁ hc hc' hoffset hk hm₁
  have hc₁ := hok c a c₁ hc hm₁
  by_cases hk₁ : c₁.offset ≤ k
  · obtain ⟨c₁', hm', hc₁', hoffset₁⟩ := hwithin hk₁
    rw [EStateM.bind_of_ok hm']
    exact hf a c₁ c₁' b c₂ hc₁ hc₁' hoffset₁ hk₁ hf₁
  · have hle := hmono a c₁ b c₂ hc₁ hf₁
    refine ⟨fun hk₂ => absurd (Nat.le_trans hle hk₂) hk₁, ?_⟩
    intro hshort _
    obtain ⟨e, c₁', hm'⟩ := hbeyond hshort (Nat.not_le.mp hk₁)
    exact ⟨e, c₁', EStateM.bind_of_error f' hm'⟩

/-- Both take the same bytes, or the second run has none left. -/
theorem takes {m : Reader σ α} {m' : Reader τ α} {g : List UInt8 → Reader σ α} {g' : List UInt8 → Reader τ α}
    (hm : Takes source ok file limit n m g) (hm' : Takes source' ok' file' limit' n m' g')
    (hg : ∀ bytes, Follows ok ok' k short (g bytes) (g' bytes))
    (hmono : ∀ bytes c b c₁, ok c.source → g bytes c = .ok b c₁ → c.offset ≤ c₁.offset)
    (hfile : file.take k <+: file') (hfile' : k ≤ file.length) (hlimit : k ≤ limit')
    (hshort : short → file'.length = k) : Follows ok ok' k short m m' := by
  intro c c' b c₂ hc hc' hoffset hk hrun
  have hlength : k ≤ file'.length := by
    have hle := hfile.length_le
    rwa [List.length_take, Nat.min_eq_left hfile'] at hle
  rcases hm c hc with ⟨hstop, bytes, s₁, -, hs₁, heq⟩ | ⟨-, e, c₁, herror⟩
  · rw [heq] at hrun
    have hle := hmono _ _ _ _ hs₁ hrun
    dsimp only at hle
    rcases hm' c' hc' with ⟨hstop', bytes', s₁', -, hs₁', heq'⟩ | ⟨hstop', e, c₁', herror⟩
    · by_cases hk₁ : c.offset + n ≤ k
      · have hsegment : file'.segment c.offset (c.offset + n) = file.segment c.offset (c.offset + n) := by
          rw [List.segment_of_isPrefix hfile (by rwa [List.length_take, Nat.min_eq_left hfile']),
            List.segment, List.take_take, Nat.min_eq_left hk₁, List.segment]
        rw [hoffset, hsegment] at heq'
        rw [heq']
        exact hg _ _ _ b c₂ hs₁ hs₁' rfl hk₁ hrun
      · refine ⟨fun hk₂ => absurd (Nat.le_trans hle hk₂) hk₁, ?_⟩
        intro h _
        have := hshort h
        omega
    · refine ⟨fun hk₂ => ?_, fun _ _ => ⟨e, c₁', herror⟩⟩
      omega
  · rw [herror] at hrun
    cases hrun

end Follows

theorem Built.follows {short : Prop} (hdelivers : source.Delivers ok file limit)
    (hdelivers' : source'.Delivers ok' file' limit') (hfile : file.take k <+: file')
    (hfile' : k ≤ file.length) (hlimit : k ≤ limit') (hshort : short → file'.length = k) {m : Program α} (hm : Built n m) :
    Follows ok ok' k short (m σ source) (m τ source') := by
  induction hm with
  | pure a => exact .pure a
  | fail n message =>
      intro c c' a c₁ _ _ _ _ h
      cases h
  | less hle hm ih => exact ih
  | position => exact .position
  | bind hm hf ihm ihf =>
      exact .bind ihm ihf (fun c a c₁ hc h => (hm.mono hdelivers hc h).1)
        fun a c b c₁ hc h => ((hf a).mono hdelivers hc h).2
  | view n hf ih =>
      exact .takes (hdelivers.takes_view n _) (hdelivers'.takes_view n _) ih
        (fun bytes c b c₁ hc h => ((hf bytes).mono hdelivers hc h).2) hfile hfile' hlimit hshort
  | text decode n =>
      apply Follows.takes (hdelivers.takes_text decode n) (hdelivers'.takes_text decode n)
        (fun bytes => .pure _) _ hfile hfile' hlimit hshort
      intro bytes c b c₁ _ h
      cases h
      exact Nat.le_refl _
  | skip n =>
      apply Follows.takes (hdelivers.takes_skip n) (hdelivers'.takes_skip n)
        (fun bytes => .pure _) _ hfile hfile' hlimit hshort
      intro bytes c b c₁ _ h
      cases h
      exact Nat.le_refl _
  | loop hbody n i acc ih =>
      induction n generalizing i acc with
      | zero => exact .pure acc
      | succ n ihn =>
          have hround := Follows.bind (ih i acc) (fun acc => ihn (i + 1) acc)
            (fun c a c₁ hc h => ((hbody i acc).mono hdelivers hc h).1)
            fun acc c a c₁ hc h => ((Built.loop hbody n (i + 1) acc).mono hdelivers hc h).2
          intro c c' a c₁ hc hc' hoffset hk h
          exact hround { c with rounds := c.rounds + 1 } { c' with rounds := c'.rounds + 1 } a c₁ hc hc'
            hoffset hk h

/-! ### The header -/

/-- Nothing was asked for beyond the position, and the position itself was. -/
structure Asked (ok : σ → Prop) (c : Cursor (σ × List Nat)) : Prop where
  ok : ok c.source.1
  le : ∀ stop ∈ c.source.2, stop ≤ c.offset
  mem : 0 < c.offset → c.offset ∈ c.source.2

theorem Built.asked (hdelivers : source.Delivers ok file limit) {m : Program α} (hm : Built n m)
    {c c' : Cursor (σ × List Nat)} {a : α} (hc : Asked ok c)
    (h : m (σ × List Nat) source.recording c = .ok a c') : Asked ok c' := by
  apply hm.keeps hdelivers.recording (fun d hd => hd.ok) _ _ hc h
  · intro d n bytes s' hd _ hensure hs'
    have hasked : s'.2 = d.source.2 ++ [d.offset + n] := by
      rw [Source.recording] at hensure
      dsimp only at hensure
      split at hensure
      · cases hensure
        rfl
      · cases hensure
    refine ⟨hs', ?_, ?_⟩
    · intro stop hstop
      rw [hasked, List.mem_append, List.mem_singleton] at hstop
      rcases hstop with hstop | rfl
      · exact Nat.le_add_right_of_le (hd.le stop hstop)
      · exact Nat.le_refl _
    · intro _
      rw [hasked]
      exact List.mem_append_right _ List.mem_cons_self
  · intro d hd
    exact ⟨hd.ok, hd.le, hd.mem⟩

/-- Where the fields behind the descriptors come from. -/
theorem header_fields {decode : List UInt8 → String} {ν : Type} {doubles : Doubles ν}
    {c c' : Cursor σ} {h : Header ν} (hrun : header decode source doubles c = .ok h c') :
    h.descriptorsEnd = c'.offset ∧
    h.alignment = (match h.metadata.get "general.alignment" with
      | none => doubles.thirtyTwo
      | some entry => doubles.number entry) ∧
    h.dataStart = doubles.ceilTo h.descriptorsEnd h.alignment := by
  obtain ⟨magic, c₁, -, hrun⟩ := EStateM.bind_eq_ok.mp hrun
  split at hrun
  · cases hrun
  obtain ⟨version, c₂, -, hrun⟩ := EStateM.bind_eq_ok.mp hrun
  split at hrun
  · cases hrun
  obtain ⟨tensorCount, c₃, -, hrun⟩ := EStateM.bind_eq_ok.mp hrun
  obtain ⟨kvCount, c₄, -, hrun⟩ := EStateM.bind_eq_ok.mp hrun
  dsimp only at hrun
  split at hrun
  · obtain ⟨metadata, c₅, -, hrun⟩ := EStateM.bind_eq_ok.mp hrun
    obtain ⟨metadataEnd, c₆, -, hrun⟩ := EStateM.bind_eq_ok.mp hrun
    obtain ⟨tensors, c₇, -, hrun⟩ := EStateM.bind_eq_ok.mp hrun
    obtain ⟨descriptorsEnd, c₈, hposition, hrun⟩ := EStateM.bind_eq_ok.mp hrun
    cases hposition
    cases hrun
    exact ⟨rfl, rfl, rfl⟩
  · cases hrun

theorem header_descriptorsEnd {decode : List UInt8 → String} {ν : Type} {doubles : Doubles ν}
    {c c' : Cursor σ} {h : Header ν} (hrun : header decode source doubles c = .ok h c') :
    h.descriptorsEnd = c'.offset := (header_fields hrun).1

theorem readGgufHeader_eq_ok {decode : List UInt8 → String} {ν : Type} {doubles : Doubles ν} {s s' : σ}
    {h : Header ν} : readGgufHeader decode source doubles s = .ok h s' ↔
      ∃ c, header decode source doubles ⟨s, 0, 0⟩ = .ok h c ∧ c.source = s' := by
  rw [readGgufHeader]
  cases header decode source doubles ⟨s, 0, 0⟩ with
  | ok h' c => simp
  | error e c => simp

theorem readGgufHeader_of_error {decode : List UInt8 → String} {ν : Type} {doubles : Doubles ν} {s : σ}
    {e : Failure} {c : Cursor σ} (h : header decode source doubles ⟨s, 0, 0⟩ = .error e c) :
    readGgufHeader decode source doubles s = .error e c.source := by
  rw [readGgufHeader, h]

variable {decode : List UInt8 → String} {ν : Type} {doubles : Doubles ν} {h : Header ν} {s s' : σ} {t : τ}

theorem descriptorsEnd_le_length (hdelivers : source.Delivers ok file limit) (hs : ok s)
    (hrun : readGgufHeader decode source doubles s = .ok h s') : h.descriptorsEnd ≤ file.length := by
  obtain ⟨c, hheader, -⟩ := readGgufHeader_eq_ok.mp hrun
  rw [header_descriptorsEnd hheader]
  exact (Built.header decode doubles).le_length (c := ⟨s, 0, 0⟩) hdelivers hs (Nat.zero_le _) hheader

theorem le_descriptorsEnd (hdelivers : source.Delivers ok file limit) (hs : ok s)
    (hrun : readGgufHeader decode source doubles s = .ok h s') : 24 ≤ h.descriptorsEnd := by
  obtain ⟨c, hheader, -⟩ := readGgufHeader_eq_ok.mp hrun
  have hle := (Built.header decode doubles).least (c := ⟨s, 0, 0⟩) hdelivers hs hheader
  rw [header_descriptorsEnd hheader]
  dsimp only at hle
  omega

/-- Files that begin alike have the same header. -/
theorem readGgufHeader_follows (hdelivers : source.Delivers ok file limit) (hdelivers' : source'.Delivers ok' file' limit')
    (hs : ok s) (ht : ok' t) (hrun : readGgufHeader decode source doubles s = .ok h s')
    (hlength : h.descriptorsEnd ≤ file.length) (hlimit : h.descriptorsEnd ≤ limit')
    (hfile : file.take h.descriptorsEnd <+: file') :
    ∃ t', readGgufHeader decode source' doubles t = .ok h t' ∧ ok' t' := by
  obtain ⟨c, hheader, -⟩ := readGgufHeader_eq_ok.mp hrun
  have hfollows := (Built.header decode doubles).follows hdelivers hdelivers' hfile hlength hlimit
    False.elim ⟨s, 0, 0⟩ ⟨t, 0, 0⟩ h c hs ht rfl (Nat.zero_le _) hheader
  obtain ⟨c', hheader', ht', -⟩ := hfollows.1 (Nat.le_of_eq (header_descriptorsEnd hheader).symm)
  exact ⟨c'.source, readGgufHeader_eq_ok.mpr ⟨c', hheader', rfl⟩, ht'⟩

/-- A file that ends too early has none. -/
theorem readGgufHeader_short (hdelivers : source.Delivers ok file limit) (hdelivers' : source'.Delivers ok' file' limit')
    (hs : ok s) (ht : ok' t) (hrun : readGgufHeader decode source doubles s = .ok h s')
    (hlimit : file'.length ≤ limit') (hfile : file' <+: file)
    (hlength : file'.length < h.descriptorsEnd) : ∃ e t', readGgufHeader decode source' doubles t = .error e t' := by
  obtain ⟨c, hheader, -⟩ := readGgufHeader_eq_ok.mp hrun
  have htake : file.take file'.length <+: file' := by
    rw [← List.prefix_iff_eq_take.mp hfile]
  have hfollows := (Built.header decode doubles).follows hdelivers hdelivers' htake
    hfile.length_le hlimit (fun _ : True => rfl) ⟨s, 0, 0⟩ ⟨t, 0, 0⟩ h c hs ht rfl (Nat.zero_le _) hheader
  obtain ⟨e, c', herror⟩ := hfollows.2 trivial (by rwa [← header_descriptorsEnd hheader])
  exact ⟨e, c'.source, readGgufHeader_of_error herror⟩

/-- The header is read from the bytes before `descriptorsEnd`, from all of them, and from nothing else. -/
theorem header_prefix (hdelivers : source.Delivers ok file file.length) (hs : ok s)
    (hrun : readGgufHeader decode source doubles s = .ok h s') :
    (∃ s'' asked, readGgufHeader decode source.recording doubles (s, []) = .ok h (s'', asked) ∧
      (∀ stop ∈ asked, stop ≤ h.descriptorsEnd) ∧ h.descriptorsEnd ∈ asked) ∧
    h.descriptorsEnd ≤ file.length ∧
    (∀ (τ : Type) (source' : Source τ) (ok' : τ → Prop) (file' : List UInt8) (t : τ),
      source'.Delivers ok' file' file'.length → ok' t → file.take h.descriptorsEnd <+: file' →
        ∃ t', readGgufHeader decode source' doubles t = .ok h t') ∧
    (∀ (τ : Type) (source' : Source τ) (ok' : τ → Prop) (file' : List UInt8) (t : τ),
      source'.Delivers ok' file' file'.length → ok' t → file' <+: file → file'.length < h.descriptorsEnd →
        ∃ e t', readGgufHeader decode source' doubles t = .error e t') := by
  have hlength := descriptorsEnd_le_length hdelivers hs hrun
  refine ⟨?_, hlength, ?_, ?_⟩
  · have hrecording := hdelivers.recording
    obtain ⟨⟨s'', asked⟩, hrecorded, -⟩ := readGgufHeader_follows (t := (s, [])) hdelivers hrecording hs hs
      hrun hlength hlength (List.take_prefix _ _)
    obtain ⟨c, hheader, hc⟩ := readGgufHeader_eq_ok.mp hrecorded
    have hstart : Asked ok ⟨(s, []), 0, 0⟩ :=
      ⟨hs, fun _ h => absurd h List.not_mem_nil, fun h => absurd h (Nat.lt_irrefl 0)⟩
    have hasked := (Built.header decode doubles).asked hdelivers hstart hheader
    have hpos := (Built.header decode doubles).least hrecording (c := ⟨(s, []), 0, 0⟩) hs hheader
    have hle := hasked.le
    have hmem := hasked.mem (by dsimp only at hpos; omega)
    rw [hc, ← header_descriptorsEnd hheader] at hle hmem
    exact ⟨s'', asked, hrecorded, hle, hmem⟩
  · intro τ source' ok' file' t hdelivers' ht hfile
    have hlength' : h.descriptorsEnd ≤ file'.length := by
      have hle := hfile.length_le
      rwa [List.length_take, Nat.min_eq_left hlength] at hle
    obtain ⟨t', hrun', -⟩ := readGgufHeader_follows hdelivers hdelivers' hs ht hrun hlength hlength' hfile
    exact ⟨t', hrun'⟩
  · intro τ source' ok' file' t hdelivers' ht hfile hshort
    exact readGgufHeader_short hdelivers hdelivers' hs ht hrun (Nat.le_refl _) hfile hshort

theorem delivers_wholeFile (file : Uint8Array) :
    (wholeFile file).Delivers (fun _ => True) file.toList file.toList.length where
  within stop s _ hstop _ := by
    obtain ⟨bytes, s', h, -⟩ := serves_wholeFile file stop s hstop
    exact ⟨bytes, s', h⟩
  honest stop s bytes s' _ h := by
    rw [wholeFile] at h
    dsimp only at h
    split at h
    · rename_i hstop
      cases h
      rw [file.length_toList]
      exact ⟨trivial, hstop, List.take_prefix _ _⟩
    · cases h

/-- The header with nothing behind it, and all but its last byte. -/
def headerFile : Uint8Array where
  buffer := smallHeader.encode
  byteOffset := 0
  length := 217
  within := by decide +kernel
  indexable := by decide +kernel

def cutFile : Uint8Array where
  buffer := smallHeader.encode
  byteOffset := 0
  length := 216
  within := by decide +kernel
  indexable := by decide +kernel

theorem header_prefix_smallFile : ∃ h : Header Nat, h.descriptorsEnd = 217 ∧
    (∃ s asked, readGgufHeader textDecoder (wholeFile smallFile).recording wholeDoubles ((), []) = .ok h (s, asked) ∧
      (∀ stop ∈ asked, stop ≤ 217) ∧ 217 ∈ asked) ∧
    (∃ t', readGgufHeader textDecoder (wholeFile headerFile) wholeDoubles () = .ok h t') ∧
    ∃ e t', readGgufHeader textDecoder (wholeFile cutFile) wholeDoubles () = .error e t' := by
  obtain ⟨s', hrun⟩ := wholeFile_reads wholeDoubles smallHeader smallFile_prefix
  have hend : (smallHeader.meaning wholeDoubles).descriptorsEnd = 217 := by decide +kernel
  have hheader := header_prefix (delivers_wholeFile smallFile) trivial hrun
  have hwhole : smallFile.toList.take 217 <+: headerFile.toList := ⟨[], by decide +kernel⟩
  have hcut : cutFile.toList <+: smallFile.toList := ⟨smallFile.toList.drop 216, by decide +kernel⟩
  rw [hend] at hheader
  refine ⟨_, hend, hheader.1, ?_, ?_⟩
  · exact hheader.2.2.1 _ _ _ _ () (delivers_wholeFile headerFile) trivial hwhole
  · exact hheader.2.2.2 _ _ _ _ () (delivers_wholeFile cutFile) trivial hcut (by rw [cutFile.length_toList]; decide)

end LlmRuntime.Gguf

import LlmRuntime.Probe.Reading

/-!
# Local and remote probing

A server that sends the whole file without a `Content-Length` leaves the size at zero, since `Number(null)`
is: what the first request took from the stream is then all there ever is. In every other case the two
sources, and so the two headers, agree.
-/

namespace LlmRuntime.Probe

open Gguf

/-- Every call succeeds, with a prefix of the file that is long enough and begins with what the call
before it returned. -/
def Served {σ : Type} (source : Source σ) (file : List UInt8) : List UInt8 → List Nat → σ → Prop
  | _, [], _ => True
  | previous, stop :: rest, s => ∃ bytes s', source.ensure stop s = .ok bytes s' ∧ stop ≤ bytes.length ∧
      bytes.toList <+: file ∧ previous <+: bytes.toList ∧ Served source file bytes.toList rest s'

theorem Windowed.served {σ : Type} {source : Source σ} {ok : σ → Prop} {window : σ → Uint8Array}
    {file : List UInt8} {limit : Nat} (h : Windowed source ok window file limit) (ends : List Nat) (s : σ)
    (hs : ok s) (hends : ∀ stop ∈ ends, stop ≤ file.length ∧ stop ≤ limit) :
    Served source file (window s).toList ends s := by
  induction ends generalizing s with
  | nil => trivial
  | cons stop rest ih =>
      rcases h.ensure_cases stop s hs with ⟨hbeyond, -⟩ | ⟨s', hensure, hs', hstop, hlonger⟩
      · have hwithin := hends stop List.mem_cons_self
        omega
      · exact ⟨window s', s', hensure, hstop, h.isPrefix s' hs', hlonger,
          ih s' hs' fun stop hstop => hends stop (List.mem_cons_of_mem _ hstop)⟩

namespace FileSource

variable {path : String} {file : File} {disk : Nat → Nat → List (List UInt8)} {stop : Nat} {s : FileSource}

variable (path) in
/-- A call that has to read the disk. -/
theorem ensure_reads (hdisk : Reads disk file) (hs : s.bytes.toList <+: file.content)
    (hlength : s.bytes.length < stop) (hmax : stop ≤ MAX_READ) (hstop : stop ≤ file.content.length) :
    ∃ s', ensure path file.content.length disk stop s = .ok s'.bytes s' ∧ s'.requests = s.requests + 1 ∧
      s'.bytes.toList =
        file.content.take (min (max (max stop FIRST_READ) (s.bytes.length * 2)) file.content.length) := by
  generalize ht : min (max (max stop FIRST_READ) (s.bytes.length * 2)) file.content.length = t
  have hle : stop ≤ t := by omega
  have hlist : s.bytes.toList ++ (disk s.bytes.length (t - 1)).flatten = file.content.take t := by
    have hlonger := List.prefix_iff_eq_take.mp hs
    rw [s.bytes.length_toList, ← List.segment_zero] at hlonger
    rw [hdisk, hlonger, Nat.sub_add_cancel (by omega), List.segment_append (Nat.zero_le _) (by omega),
      List.segment_zero]
  have hsafe : isSafeInteger (s.bytes.toList ++ (disk s.bytes.length (t - 1)).flatten).length := by
    rw [hlist, List.length_take]
    exact Nat.lt_of_le_of_lt (Nat.min_le_right _ _) file.size_safe
  obtain ⟨bytes, harray, hbytes⟩ := uint8Array_of_safe hsafe
  have hwindow : bytes.length = t := by
    rw [← bytes.length_toList, hbytes, hlist, List.length_take]
    omega
  refine ⟨⟨bytes, s.requests + 1⟩, ?_, rfl, hbytes.trans hlist⟩
  rw [ensure, EStateM.bind_get, if_neg (Nat.not_le.mpr hlength), if_neg (Nat.not_lt.mpr hmax)]
  dsimp only
  rw [ht, if_neg (Nat.not_lt.mpr hle), EStateM.bind_modify, harray]
  dsimp only
  rw [EStateM.bind_modify, if_neg (by omega)]
  rfl

theorem ensure_ok (hdisk : Reads disk file) (hs : s.bytes.toList <+: file.content)
    (hlength : s.bytes.length < stop) (hmax : stop ≤ MAX_READ) (hstop : stop ≤ file.content.length) :
    ∃ s', ensure path file.content.length disk stop s = .ok s'.bytes s' ∧
      s'.bytes.toList <+: file.content ∧ stop ≤ s'.bytes.length ∧ s.bytes.toList <+: s'.bytes.toList := by
  obtain ⟨s', hensure, -, hbytes⟩ := ensure_reads path hdisk hs hlength hmax hstop
  refine ⟨s', hensure, ?_, ?_, ?_⟩
  · rw [hbytes]
    exact List.take_prefix _ _
  · rw [← s'.bytes.length_toList, hbytes, List.length_take]
    omega
  · rw [hbytes]
    apply List.prefix_take_iff.mpr
    refine ⟨hs, ?_⟩
    rw [s.bytes.length_toList]
    omega

variable (path) in
theorem windowed (hdisk : Reads disk file) : Windowed (source path file.content.length disk)
    (fun s => s.bytes.toList <+: file.content) FileSource.bytes file.content MAX_READ where
  isPrefix s hs := hs
  ensure_cases stop s hs := by
    rw [source]
    dsimp only
    by_cases hlength : stop ≤ s.bytes.length
    · right
      refine ⟨s, ?_, hs, hlength, List.prefix_refl _⟩
      rw [ensure, EStateM.bind_get, if_pos hlength]
      rfl
    have hlength := Nat.not_le.mp hlength
    by_cases hstop : stop ≤ min file.content.length MAX_READ
    · right
      exact ensure_ok hdisk hs hlength (by omega) (by omega)
    · left
      refine ⟨Nat.not_le.mp hstop, ?_⟩
      rw [ensure, EStateM.bind_get, if_neg (Nat.not_le.mpr hlength)]
      by_cases hmax : MAX_READ < stop
      · rw [if_pos hmax]
        exact ⟨_, _, rfl⟩
      · rw [if_neg hmax]
        dsimp only
        rw [if_pos (by omega)]
        exact ⟨_, _, rfl⟩

end FileSource

namespace HttpSource

variable {url : String} {server : Server} {file : File} {r : Response} {s : HttpSource} {stop : Nat}

/-! ### A size of zero -/

variable (url server stop) in
/-- The size that is known is zero. -/
theorem ensure_zero (hs : Streaming file (some 0) s) :
    (stop ≤ s.bytes.length ∧ ensure url server stop s = .ok s.bytes s) ∨
      (s.bytes.length < stop ∧ ∃ e, ensure url server stop s = .error e s) := by
  by_cases hlength : stop ≤ s.bytes.length
  · left
    exact ⟨hlength, ensure_of_le hlength⟩
  · right
    have hlength := Nat.not_le.mp hlength
    refine ⟨hlength, ensure_of_target url server hlength ?_⟩
    rw [target, hs.size_eq]
    dsimp only
    omega

variable (url server) in
theorem served_zero (hs : Streaming file (some 0) s) (ends : List Nat) :
    Served (source url server) file.content s.bytes.toList ends s ↔ ∀ stop ∈ ends, stop ≤ s.bytes.length := by
  induction ends with
  | nil => exact ⟨fun _ stop hstop => absurd hstop List.not_mem_nil, fun _ => trivial⟩
  | cons stop rest ih =>
      rw [Served, List.forall_mem_cons, source]
      dsimp only
      rcases ensure_zero url server stop hs with
        ⟨hstop, hensure⟩ | ⟨hstop, e, herror⟩
      · rw [hensure]
        constructor
        · rintro ⟨bytes, s', h, -, -, -, hrest⟩
          cases h
          exact ⟨hstop, ih.mp hrest⟩
        · rintro ⟨-, hrest⟩
          exact ⟨s.bytes, s, rfl, hstop, hs.isPrefix, List.prefix_refl _, ih.mpr hrest⟩
      · rw [herror]
        constructor
        · rintro ⟨bytes, s', h, -⟩
          cases h
        · rintro ⟨hle, -⟩
          omega

variable (url) in
/-- The call that makes the request. -/
theorem ensure_fresh (hserver : server.IgnoresRanges file r) (hs : Fresh s) (hpos : 0 < stop)
    (hmax : stop ≤ MAX_READ) (hstop : stop ≤ file.content.length) :
    ∃ s', ensure url server stop s = .ok s'.bytes s' ∧ Streaming file (contentLength r) s' ∧
      s'.bytes.length = reach (max stop FIRST_READ) 0 r.body ∧ stop ≤ s'.bytes.length := by
  have hlength : s.bytes.length = 0 := by
    rw [← s.bytes.length_toList, hs.bytes_eq, List.length_nil]
  have htarget : target s stop = (max stop FIRST_READ : Nat) := by
    rw [target, hs.size_eq, hlength, Nat.zero_mul, Nat.max_zero]
  have heq := @ensure_eq url server stop s (by omega) hmax (by omega)
  obtain ⟨s', hread, hs', hreach⟩ := readOn_fresh url hserver hs (max stop FIRST_READ)
  rw [htarget, Int.toNat_natCast, hread] at heq
  dsimp only at heq
  have hle := min_le_reach (max stop FIRST_READ) 0 r.body
  rw [hserver.body_eq, Nat.zero_add, ← hreach] at hle
  rw [if_neg (by omega)] at heq
  exact ⟨s', heq, hs', hreach, by omega⟩

/-- The first end that needs a request. -/
def firstEnd (ends : List Nat) : Nat := (ends.find? (0 < ·)).getD 0

theorem served_absent (hserver : server.IgnoresRanges file r) (habsent : r.contentLength = .absent)
    (ends : List Nat) (hs : Fresh s) (hends : ∀ stop ∈ ends, stop ≤ file.content.length ∧ stop ≤ MAX_READ) :
    Served (source url server) file.content [] ends s ↔
      ∀ stop ∈ ends, stop ≤ reach (max (firstEnd ends) FIRST_READ) 0 r.body := by
  have hcontent : contentLength r = some 0 := by
    rw [contentLength, habsent]
  induction ends with
  | nil => exact ⟨fun _ stop hstop => absurd hstop List.not_mem_nil, fun _ => trivial⟩
  | cons stop rest ih =>
      rw [Served, List.forall_mem_cons, source]
      dsimp only
      have hrest := ih fun stop hstop => hends stop (List.mem_cons_of_mem _ hstop)
      obtain ⟨hstop, hmax⟩ := hends stop List.mem_cons_self
      by_cases hpos : 0 < stop
      · have hfirst : firstEnd (stop :: rest) = stop := by
          rw [firstEnd, List.find?_cons_of_pos (by simpa using hpos)]
          rfl
        obtain ⟨s', hensure, hs', hreach, hle⟩ := ensure_fresh url hserver hs hpos hmax hstop
        rw [hcontent] at hs'
        rw [hensure, hfirst, ← hreach, ← served_zero url server hs']
        constructor
        · rintro ⟨bytes, s'', h, -, -, -, hserved⟩
          cases h
          exact ⟨hle, hserved⟩
        · rintro ⟨-, hserved⟩
          exact ⟨s'.bytes, s', rfl, hle, hs'.isPrefix, List.nil_prefix, hserved⟩
      · have hzero : stop = 0 := Nat.eq_zero_of_not_pos hpos
        subst hzero
        have hfirst : firstEnd (0 :: rest) = firstEnd rest := rfl
        rw [ensure_of_le (Nat.zero_le _), hfirst]
        constructor
        · rintro ⟨bytes, s'', h, -, -, -, hserved⟩
          cases h
          rw [hs.bytes_eq] at hserved
          exact ⟨Nat.zero_le _, hrest.mp hserved⟩
        · rintro ⟨-, hserved⟩
          refine ⟨s.bytes, s, rfl, Nat.zero_le _, ?_, List.nil_prefix, ?_⟩
          · rw [hs.bytes_eq]
            exact List.nil_prefix
          · rw [hs.bytes_eq]
            exact hrest.mpr hserved

/-! ### The header over such a stream -/

theorem windowed_zero : Windowed (source url server)
    (fun s' => Streaming file (some 0) s' ∧ s'.bytes.length = stop) HttpSource.bytes
      (file.content.take stop) MAX_READ where
  isPrefix s hs := by
    apply List.prefix_take_iff.mpr
    refine ⟨hs.1.isPrefix, ?_⟩
    rw [s.bytes.length_toList]
    exact Nat.le_of_eq hs.2
  ensure_cases end' s hs := by
    have hle := hs.1.isPrefix.length_le
    rw [s.bytes.length_toList] at hle
    rcases ensure_zero url server end' hs.1 with
      ⟨hstop, hensure⟩ | ⟨hstop, e, herror⟩
    · right
      exact ⟨s, hensure, hs, hstop, List.prefix_refl _⟩
    · left
      refine ⟨?_, e, s, herror⟩
      rw [List.length_take]
      have := hs.2
      omega

variable {decode : List UInt8 → String} {ν : Type} {doubles : Doubles ν} {h : Header ν}

/-- The header starts with a read of four bytes: whether they are there already makes no difference. -/
theorem readGgufHeader_of_ensure {σ : Type} {source : Source σ} {bytes : Uint8Array} {t t' : σ}
    (hfirst : source.ensure 4 t = .ok bytes t') (hagain : source.ensure 4 t' = .ok bytes t') :
    readGgufHeader decode source doubles t = readGgufHeader decode source doubles t' := by
  have hensure : Gguf.ensure source (double (0 + 4)) ⟨t, 0, 0⟩ =
      Gguf.ensure source (double (0 + 4)) ⟨t', 0, 0⟩ := by
    have hdouble : double (0 + 4) = 4 := by decide
    rw [hdouble, ensure_of_ok (c := ⟨t, 0, 0⟩) hfirst, ensure_of_ok (c := ⟨t', 0, 0⟩) hagain]
  have hview : view source 4 ⟨t, 0, 0⟩ = view source 4 ⟨t', 0, 0⟩ := by
    rw [view, bind_position, bind_position]
    exact EStateM.bind_congr _ hensure
  have hu32 : u32 source ⟨t, 0, 0⟩ = u32 source ⟨t', 0, 0⟩ := EStateM.bind_congr _ hview
  have hheader : header decode source doubles ⟨t, 0, 0⟩ = header decode source doubles ⟨t', 0, 0⟩ :=
    EStateM.bind_congr _ hu32
  rw [readGgufHeader, readGgufHeader, hheader]

end HttpSource

/-! ### Both sources -/

section

variable {σ τ : Type} {source : Source σ} {source' : Source τ} {ok : σ → Prop} {ok' : τ → Prop}
  {content : List UInt8} {limit n : Nat} {s : σ} {t : τ}
  {decode : List UInt8 → String} {ν : Type} {doubles : Doubles ν} {h : Header ν}

/-- A source that has only the first `n` bytes finds the headers that end there. -/
theorem readGgufHeader_take_iff (hdelivers : source.Delivers ok content limit)
    (hdelivers' : source'.Delivers ok' (content.take n) limit) (hs : ok s) (ht : ok' t)
    (hlimit : h.descriptorsEnd ≤ limit) : (∃ t', readGgufHeader decode source' doubles t = .ok h t') ↔
      (∃ s', readGgufHeader decode source doubles s = .ok h s') ∧ h.descriptorsEnd ≤ n := by
  constructor
  · rintro ⟨t', hrun⟩
    have hlength := descriptorsEnd_le_length hdelivers' ht hrun
    have hlonger : (content.take n).take h.descriptorsEnd <+: content :=
      (List.take_prefix _ _).trans (List.take_prefix _ _)
    obtain ⟨s', hrun', -⟩ := readGgufHeader_follows hdelivers' hdelivers ht hs hrun hlength hlimit hlonger
    rw [List.length_take] at hlength
    exact ⟨⟨s', hrun'⟩, by omega⟩
  · rintro ⟨⟨s', hrun⟩, hn⟩
    have hlength := descriptorsEnd_le_length hdelivers hs hrun
    have hlonger : content.take h.descriptorsEnd <+: content.take n := List.take_prefix_take_left hn
    obtain ⟨t', hrun', -⟩ := readGgufHeader_follows hdelivers hdelivers' hs ht hrun hlength hlimit hlonger
    exact ⟨t', hrun'⟩

variable (decode doubles) in
theorem readGgufHeader_iff (hdelivers : source.Delivers ok content limit)
    (hdelivers' : source'.Delivers ok' content limit) (hs : ok s) (ht : ok' t)
    (hlimit : h.descriptorsEnd ≤ limit) : (∃ t', readGgufHeader decode source' doubles t = .ok h t') ↔
      ∃ s', readGgufHeader decode source doubles s = .ok h s' := by
  rw [← List.take_length (l := content)] at hdelivers'
  rw [readGgufHeader_take_iff hdelivers hdelivers' hs ht hlimit]
  constructor
  · intro hrun
    exact hrun.1
  · rintro ⟨s', hrun⟩
    exact ⟨⟨s', hrun⟩, descriptorsEnd_le_length hdelivers hs hrun⟩

end

namespace HttpSource

variable {url : String} {server : Server} {file : File} {r : Response}

variable (url) in
/-- Without a `Content-Length` nothing wrong is returned, but perhaps nothing at all. -/
theorem windowed_absent (hserver : server.IgnoresRanges file r) (habsent : r.contentLength = .absent) :
    Windowed (source url server) (fun s => Fresh s ∨ Streaming file (some 0) s) HttpSource.bytes
      file.content 0 where
  isPrefix s hs := by
    rcases hs with hs | hs
    · rw [hs.bytes_eq]
      exact List.nil_prefix
    · exact hs.isPrefix
  ensure_cases stop s hs := by
    rw [Nat.min_zero]
    rcases hs with hs | hs
    · have hcases := @ensure_cases url server file stop s
        (fun s => Fresh s ∨ Streaming file (some 0) s) (.inl hs) (.inl hs.size_eq)
      apply (hcases _).imp_left
      · intro herror
        exact ⟨by omega, herror.2⟩
      · intro t _ _
        obtain ⟨s', hok, hs', hreach⟩ := readOn_fresh url hserver hs t
        rw [contentLength, habsent] at hs'
        right
        refine ⟨s', hok, .inr hs', ?_, ?_⟩
        · rw [hs.bytes_eq]
          exact List.nil_prefix
        · have hle := min_le_reach t 0 r.body
          rwa [hserver.body_eq, Nat.zero_add, ← hreach] at hle
    · rcases ensure_zero url server stop hs with
        ⟨hstop, hensure⟩ | ⟨hstop, e, herror⟩
      · right
        exact ⟨s, hensure, .inr hs, hstop, List.prefix_refl _⟩
      · left
        exact ⟨by omega, e, s, herror⟩

theorem readGgufHeader_absent {σ : Type} {local' : Source σ} {ok : σ → Prop} {t : σ} {s : HttpSource}
    {decode : List UInt8 → String} {ν : Type} {doubles : Doubles ν} {h : Header ν}
    (hserver : server.IgnoresRanges file r) (habsent : r.contentLength = .absent)
    (hlocal : local'.Delivers ok file.content MAX_READ) (ht : ok t) (hs : Fresh s)
    (hmax : h.descriptorsEnd ≤ MAX_READ) :
    (∃ s', readGgufHeader decode (source url server) doubles s = .ok h s') ↔
      (∃ t', readGgufHeader decode local' doubles t = .ok h t') ∧
        h.descriptorsEnd ≤ reach (max 4 FIRST_READ) 0 r.body := by
  by_cases hfile : 4 ≤ file.content.length
  · obtain ⟨s', hfirst, hs', hreach, hle⟩ := ensure_fresh url hserver hs (by decide : 0 < 4)
      (by decide) hfile
    rw [contentLength, habsent] at hs'
    rw [readGgufHeader_of_ensure hfirst (ensure_of_le hle)]
    exact readGgufHeader_take_iff hlocal windowed_zero.delivers ht ⟨hs', hreach⟩ hmax
  · constructor
    · rintro ⟨s', hrun⟩
      have hdelivers := (windowed_absent url hserver habsent).delivers
      have hlength := descriptorsEnd_le_length hdelivers (.inl hs) hrun
      have hleast := le_descriptorsEnd hdelivers (.inl hs) hrun
      omega
    · rintro ⟨⟨t', hrun⟩, -⟩
      have hlength := descriptorsEnd_le_length hlocal ht hrun
      have hleast := le_descriptorsEnd hlocal ht hrun
      omega

end HttpSource

/-- The server honours ranges, or announces the size, or what its first request takes goes far enough. -/
def Covered (server : Server) (file : File) (first stop : Nat) : Prop :=
  server.HonoursRanges file ∨ ∃ r, server.IgnoresRanges file r ∧
    (r.contentLength = .number file.content.length ∨ stop ≤ reach (max first FIRST_READ) 0 r.body)

theorem covered_iff {server : Server} {file : File} {r : Response} (hserver : server.IgnoresRanges file r)
    (first stop : Nat) : Covered server file first stop ↔
      (r.contentLength = .number file.content.length ∨ stop ≤ reach (max first FIRST_READ) 0 r.body) := by
  constructor
  · rintro (hhonours | ⟨r', hserver', h⟩)
    · obtain ⟨r', hfetch, hr⟩ := hhonours 0 0 0
      rw [hserver.fetch_eq] at hfetch
      cases hfetch
      rw [hserver.status_eq] at hr
      rcases hr with ⟨hstatus, -⟩ | ⟨-, -, hstatus⟩
      · exact absurd hstatus (by decide)
      · exact absurd rfl hstatus
    · have hfetch := hserver'.fetch_eq 0 0 0
      rw [hserver.fetch_eq] at hfetch
      cases hfetch
      exact h
  · intro h
    exact .inr ⟨r, hserver, h⟩

theorem fresh_initial : HttpSource.Fresh HttpSource.initial := ⟨rfl, rfl, rfl⟩

/-- The remote source serves what the local one serves, and gives the headers that it gives, as far as the
server's first answer covers what is asked for. -/
theorem probe_agrees {server : Server} {file : File} {disk : Nat → Nat → List (List UInt8)}
    (hserver : server.HonoursRanges file ∨ ∃ r, server.IgnoresRanges file r) (hdisk : Reads disk file)
    (url path : String) {ends : List Nat}
    (hends : ∀ stop ∈ ends, stop ≤ file.content.length ∧ stop ≤ MAX_READ) :
    Served (FileSource.source path file.content.length disk) file.content [] ends FileSource.initial ∧
    (Served (HttpSource.source url server) file.content [] ends HttpSource.initial ↔
      ∀ stop ∈ ends, Covered server file (HttpSource.firstEnd ends) stop) ∧
    ∀ (decode : List UInt8 → String) (ν : Type) (doubles : Doubles ν) (h : Header ν),
      h.descriptorsEnd ≤ MAX_READ →
        ((∃ s, readGgufHeader decode (HttpSource.source url server) doubles HttpSource.initial = .ok h s) ↔
          (∃ s, readGgufHeader decode (FileSource.source path file.content.length disk) doubles
              FileSource.initial = .ok h s) ∧
            Covered server file 4 h.descriptorsEnd) := by
  have hlocal := FileSource.windowed path hdisk
  refine ⟨hlocal.served ends FileSource.initial List.nil_prefix hends, ?_, ?_⟩
  · rcases hserver with hhonours | ⟨r, hignores⟩
    · have hserved := (HttpSource.windowed_ranging url hhonours).served ends _
        (HttpSource.ranging_initial file) hends
      exact ⟨fun _ stop _ => .inl hhonours, fun _ => hserved⟩
    · simp only [covered_iff hignores]
      rcases hignores.contentLength_eq with hnumber | habsent
      · have hserved := (HttpSource.windowed_announced url hignores hnumber).served ends _
          (.inl fresh_initial) hends
        exact ⟨fun _ stop _ => .inl hnumber, fun _ => hserved⟩
      · rw [HttpSource.served_absent hignores habsent ends fresh_initial hends, habsent]
        simp
  · intro decode ν doubles h hmax
    rcases hserver with hhonours | ⟨r, hignores⟩
    · have hiff := readGgufHeader_iff decode doubles (h := h) hlocal.delivers
        (HttpSource.windowed_ranging url hhonours).delivers (s := FileSource.initial)
        List.nil_prefix (HttpSource.ranging_initial file) hmax
      rw [hiff]
      exact ⟨fun hrun => ⟨hrun, .inl hhonours⟩, fun hrun => hrun.1⟩
    · rw [covered_iff hignores]
      rcases hignores.contentLength_eq with hnumber | habsent
      · have hiff := readGgufHeader_iff decode doubles (h := h) hlocal.delivers
          (HttpSource.windowed_announced url hignores hnumber).delivers (s := FileSource.initial)
          List.nil_prefix (.inl fresh_initial) hmax
        rw [hiff]
        exact ⟨fun hrun => ⟨hrun, .inl hnumber⟩, fun hrun => hrun.1⟩
      · rw [HttpSource.readGgufHeader_absent (t := FileSource.initial) hignores habsent hlocal.delivers
          List.nil_prefix fresh_initial hmax, habsent]
        simp

/-- A file of one byte more than the first request takes, sent in two chunks without a length. -/
def longFile : File where
  content := List.replicate FIRST_READ 0 ++ [1]
  size_safe := by
    rw [List.length_append, List.length_replicate]
    decide

def unsizedResponse : Response where
  status := 200
  statusText := "OK"
  contentRange := .absent
  contentLength := .absent
  body := [List.replicate FIRST_READ 0, [1]]
  broken := none

theorem not_served_of_absent : ∃ server r, server.IgnoresRanges longFile r ∧
    (∀ stop ∈ [4, FIRST_READ + 1], stop ≤ longFile.content.length ∧ stop ≤ MAX_READ) ∧
    ¬ Served (HttpSource.source "https://host/model.gguf" server) longFile.content []
      [4, FIRST_READ + 1] HttpSource.initial := by
  have hserver : (⟨fun _ _ _ => .ok unsizedResponse⟩ : Server).IgnoresRanges longFile unsizedResponse := by
    refine ⟨fun _ _ _ => rfl, rfl, rfl, ?_, .inr rfl⟩
    rw [unsizedResponse, longFile, List.flatten_cons, List.flatten_singleton]
  have hlength : longFile.content.length = FIRST_READ + 1 := by
    rw [longFile, List.length_append, List.length_replicate, List.length_singleton]
  have hends : ∀ stop ∈ [4, FIRST_READ + 1], stop ≤ longFile.content.length ∧ stop ≤ MAX_READ := by
    rw [hlength]
    decide
  refine ⟨_, unsizedResponse, hserver, hends, ?_⟩
  rw [HttpSource.served_absent hserver rfl _ fresh_initial hends]
  intro hreach
  have hle := hreach (FIRST_READ + 1) (by simp)
  have hfirst : max (HttpSource.firstEnd [4, FIRST_READ + 1]) FIRST_READ = FIRST_READ := by decide
  rw [hfirst, unsizedResponse, reach, if_neg (by decide), reach, List.length_replicate, Nat.zero_add,
    if_pos (Nat.le_refl _)] at hle
  omega

def smallFile : File := ⟨[71, 71, 85, 70], by decide⟩

/-- A server for the file that honours ranges. -/
def smallServer : Server where
  fetch _ first last := .ok {
    status := 206, statusText := "Partial Content", contentRange := .number 4, contentLength := .absent
    body := [smallFile.content.segment first (last + 1)], broken := none }

theorem probe_agrees_smallFile :
    Served (HttpSource.source "https://host/model.gguf" smallServer) smallFile.content [] [2, 4]
      HttpSource.initial := by
  have hserver : smallServer.HonoursRanges smallFile := by
    intro i first last
    refine ⟨_, rfl, .inl ⟨rfl, rfl, ?_, .inl rfl⟩⟩
    rw [List.flatten_singleton]
  have hdisk : Reads (fun first last => [smallFile.content.segment first (last + 1)]) smallFile := by
    intro first last
    rw [List.flatten_singleton]
  have hends : ∀ stop ∈ [2, 4], stop ≤ smallFile.content.length ∧ stop ≤ MAX_READ := by decide
  have hagrees := probe_agrees (.inl hserver) hdisk "https://host/model.gguf" "model.gguf" hends
  exact hagrees.2.1.mpr fun stop _ => .inl hserver

end LlmRuntime.Probe

import LlmRuntime.Gguf.Prefix
import LlmRuntime.Probe.Model

/-!
# What the sources return

Both sources keep a prefix of the file, and a call that succeeds returns a longer one.
-/

namespace LlmRuntime.Probe

open Gguf

structure File where
  content : List UInt8
  size_safe : isSafeInteger content.length

/-- Requests get the bytes of the range that the file has. Beyond its end a server may also refuse. -/
def Server.HonoursRanges (server : Server) (file : File) : Prop :=
  ∀ i first last, ∃ r, server.fetch i first last = .ok r ∧
    ((r.status = 206 ∧ r.broken = none ∧ r.body.flatten = file.content.segment first (last + 1) ∧
        (r.contentRange = .number file.content.length ∨ r.contentRange = .other ∨ r.contentRange = .absent)) ∨
      (file.content.length ≤ first ∧ r.status ≠ 206 ∧ r.status ≠ 200))

/-- Every request gets the whole file, in whatever chunks. -/
structure Server.IgnoresRanges (server : Server) (file : File) (r : Response) : Prop where
  fetch_eq : ∀ i first last, server.fetch i first last = .ok r
  status_eq : r.status = 200
  unbroken : r.broken = none
  body_eq : r.body.flatten = file.content
  contentLength_eq : r.contentLength = .number file.content.length ∨ r.contentLength = .absent

/-- The disk has the file. -/
def Reads (disk : Nat → Nat → List (List UInt8)) (file : File) : Prop :=
  ∀ first last, (disk first last).flatten = file.content.segment first (last + 1)

theorem uint8Array_of_safe {bytes : List UInt8} (h : isSafeInteger bytes.length) :
    ∃ array, uint8Array bytes = .ok array ∧ array.toList = bytes := by
  rw [uint8Array, dif_pos h]
  refine ⟨_, rfl, ?_⟩
  rw [Uint8Array.toList]
  dsimp only
  rw [Nat.zero_add, List.segment_zero, List.take_length]

/-- A source whose state has what it returns: it fails only beyond the file or the limit, and what it
returns begins with what it had. -/
structure Windowed {σ : Type} (source : Source σ) (ok : σ → Prop) (window : σ → Uint8Array)
    (file : List UInt8) (limit : Nat) : Prop where
  isPrefix : ∀ s, ok s → (window s).toList <+: file
  ensure_cases : ∀ stop s, ok s →
    (min file.length limit < stop ∧ ∃ e s', source.ensure stop s = .error e s') ∨
    ∃ s', source.ensure stop s = .ok (window s') s' ∧ ok s' ∧ stop ≤ (window s').length ∧
      (window s).toList <+: (window s').toList

theorem Windowed.delivers {σ : Type} {source : Source σ} {ok : σ → Prop} {window : σ → Uint8Array}
    {file : List UInt8} {limit : Nat} (h : Windowed source ok window file limit) :
    source.Delivers ok file limit where
  within stop s hs hstop hlimit := by
    rcases h.ensure_cases stop s hs with ⟨hbeyond, -⟩ | ⟨s', hensure, -⟩
    · omega
    · exact ⟨window s', s', hensure⟩
  honest stop s bytes s' hs hensure := by
    rcases h.ensure_cases stop s hs with ⟨-, e, s'', herror⟩ | ⟨s'', hensure', hs', hstop, -⟩
    · rw [hensure] at herror
      cases herror
    · rw [hensure] at hensure'
      cases hensure'
      have hlonger := h.isPrefix s' hs'
      rw [← (window s').length_toList] at hstop
      refine ⟨hs', Nat.le_trans hstop hlonger.length_le, ?_⟩
      obtain ⟨rest, hrest⟩ := hlonger
      rw [← hrest, List.take_append_of_le_length hstop]
      exact List.take_prefix _ _

/-- How long the window is after chunks were read up to `target`. -/
def reach (target : Nat) : Nat → List (List UInt8) → Nat
  | n, [] => n
  | n, chunk :: rest => if target ≤ n then n else reach target (n + chunk.length) rest

theorem min_le_reach (target n : Nat) (chunks : List (List UInt8)) :
    min target (n + chunks.flatten.length) ≤ reach target n chunks := by
  induction chunks generalizing n with
  | nil =>
      rw [reach, List.flatten_nil, List.length_nil]
      omega
  | cons chunk rest ih =>
      have hrest := ih (n + chunk.length)
      rw [reach, List.flatten_cons, List.length_append]
      split
      · omega
      · omega

namespace HttpSource

theorem append_ok {chunk : List UInt8} {s : HttpSource}
    (h : isSafeInteger (s.bytes.toList ++ chunk).length) : ∃ bytes,
      append chunk s = .ok () { s with bytes } ∧ bytes.toList = s.bytes.toList ++ chunk := by
  obtain ⟨bytes, hbytes, hlist⟩ := uint8Array_of_safe h
  refine ⟨bytes, ?_, hlist⟩
  rw [append, hbytes]

theorem pumpFrom_ok (target : Nat) (chunks : List (List UInt8)) (s : HttpSource)
    (hstream : s.stream = chunks) (hbroken : s.broken = none)
    (hsafe : isSafeInteger (s.bytes.toList ++ chunks.flatten).length) : ∃ bytes stream,
      pumpFrom target chunks s = .ok () { s with bytes, stream } ∧ s.bytes.toList <+: bytes.toList ∧
        bytes.toList ++ stream.flatten = s.bytes.toList ++ chunks.flatten ∧
        bytes.length = reach target s.bytes.length chunks := by
  induction chunks generalizing s with
  | nil =>
      refine ⟨s.bytes, s.stream, ?_, List.prefix_refl _, by rw [hstream], rfl⟩
      rw [pumpFrom]
      dsimp only
      split
      · rfl
      · split
        · rfl
        · rename_i hmessage
          rw [hbroken] at hmessage
          cases hmessage
  | cons chunk rest ih =>
      rw [pumpFrom, reach]
      by_cases htarget : target ≤ s.bytes.length
      · refine ⟨s.bytes, s.stream, ?_, List.prefix_refl _, by rw [hstream], by rw [if_pos htarget]⟩
        dsimp only
        rw [if_pos htarget]
      · rw [List.flatten_cons, ← List.append_assoc] at hsafe
        have hsafe' : isSafeInteger (s.bytes.toList ++ chunk).length := by
          rw [List.length_append] at hsafe
          exact Nat.lt_of_le_of_lt (Nat.le_add_right _ _) hsafe
        obtain ⟨bytes, happend, hbytes⟩ := append_ok (s := { s with stream := rest }) hsafe'
        rw [← hbytes] at hsafe
        obtain ⟨bytes', stream, hpump, hlonger, hall, hreach⟩ :=
          ih { s with stream := rest, bytes } rfl hbroken hsafe
        have hlength : bytes.length = s.bytes.length + chunk.length := by
          rw [← bytes.length_toList, hbytes, List.length_append, Uint8Array.length_toList]
        refine ⟨bytes', stream, ?_, ?_, ?_, ?_⟩
        · dsimp only
          rw [if_neg htarget, EStateM.bind_of_ok happend, hpump]
        · exact List.IsPrefix.trans ⟨chunk, hbytes.symm⟩ hlonger
        · rw [hall, hbytes, List.flatten_cons, List.append_assoc]
        · rw [if_neg htarget, hreach, hlength]

variable {url : String} {server : Server} {file : File} {stop : Nat} {s s' : HttpSource}

theorem ensure_of_le (h : stop ≤ s.bytes.length) : ensure url server stop s = .ok s.bytes s := by
  rw [ensure, EStateM.bind_get, if_pos h]
  rfl

variable (url server) in
theorem ensure_of_max (h : s.bytes.length < stop) (hmax : MAX_READ < stop) :
    ∃ e, ensure url server stop s = .error e s := by
  rw [ensure, EStateM.bind_get, if_neg (Nat.not_le.mpr h), if_pos hmax]
  exact ⟨_, rfl⟩

variable (url server) in
theorem ensure_of_target (h : s.bytes.length < stop) (htarget : target s stop < stop) :
    ∃ e, ensure url server stop s = .error e s := by
  by_cases hmax : MAX_READ < stop
  · exact ensure_of_max url server h hmax
  rw [ensure, EStateM.bind_get, if_neg (Nat.not_le.mpr h), if_neg hmax, if_pos htarget]
  exact ⟨_, rfl⟩

variable (url server) in
theorem ensure_eq (h : s.bytes.length < stop) (hmax : stop ≤ MAX_READ) (htarget : ¬ target s stop < stop) :
    ensure url server stop s =
      match readOn url server (target s stop).toNat s with
      | .ok () t =>
          if t.bytes.length < stop then
            fail s!"could not read {stop} bytes (got {t.bytes.length})" t
          else .ok t.bytes t
      | .error e t => .error e t := by
  rw [ensure, EStateM.bind_get, if_neg (Nat.not_le.mpr h), if_neg (Nat.not_lt.mpr hmax), if_neg htarget]
  cases hread : readOn url server (target s stop).toNat s with
  | ok u s' =>
      rw [EStateM.bind_of_ok hread, EStateM.bind_get]
      dsimp only
      split <;> rfl
  | error e s' => rw [EStateM.bind_of_error _ hread]

/-- What the target has to do with the size that is known, if it is the right one. -/
theorem target_lt_iff (hsize : s.size = none ∨ s.size = some (file.content.length : Int)) :
    target s stop < stop → file.content.length < stop := by
  intro htarget
  rw [target] at htarget
  rcases hsize with hsize | hsize
  · rw [hsize] at htarget
    dsimp only at htarget
    omega
  · rw [hsize] at htarget
    dsimp only at htarget
    omega

/-- A call of `ensure`, by what reading on does. -/
theorem ensure_cases {ok : HttpSource → Prop} (hs : ok s)
    (hsize : s.size = none ∨ s.size = some (file.content.length : Int))
    (hread : ∀ t, stop ≤ t → s.bytes.length < stop → (file.content.length < stop ∧
        ∃ e s', readOn url server t s = .error e s') ∨
      ∃ s', readOn url server t s = .ok () s' ∧ ok s' ∧ s.bytes.toList <+: s'.bytes.toList ∧
        min t file.content.length ≤ s'.bytes.length) :
    (min file.content.length MAX_READ < stop ∧ ∃ e s', ensure url server stop s = .error e s') ∨
      ∃ s', ensure url server stop s = .ok s'.bytes s' ∧ ok s' ∧ stop ≤ s'.bytes.length ∧
        s.bytes.toList <+: s'.bytes.toList := by
  by_cases hlength : stop ≤ s.bytes.length
  · right
    exact ⟨s, ensure_of_le hlength, hs, hlength, List.prefix_refl _⟩
  have hlength := Nat.not_le.mp hlength
  by_cases hmax : MAX_READ < stop
  · left
    obtain ⟨e, herror⟩ := ensure_of_max url server hlength hmax
    exact ⟨Nat.lt_of_le_of_lt (Nat.min_le_right _ _) hmax, e, s, herror⟩
  by_cases htarget : target s stop < stop
  · left
    obtain ⟨e, herror⟩ := ensure_of_target url server hlength htarget
    exact ⟨Nat.lt_of_le_of_lt (Nat.min_le_left _ _) (target_lt_iff hsize htarget), e, s, herror⟩
  have heq := ensure_eq url server hlength (Nat.not_lt.mp hmax) htarget
  have hle : stop ≤ (target s stop).toNat := by omega
  rcases hread _ hle hlength with ⟨hbeyond, e, s', herror⟩ | ⟨s', hok, hs', hlonger, hwindow⟩
  · left
    rw [herror] at heq
    exact ⟨Nat.lt_of_le_of_lt (Nat.min_le_left _ _) hbeyond, e, s', heq⟩
  · rw [hok] at heq
    dsimp only at heq
    by_cases hshort : s'.bytes.length < stop
    · left
      rw [if_pos hshort] at heq
      refine ⟨?_, _, s', heq⟩
      omega
    · right
      rw [if_neg hshort] at heq
      exact ⟨s', heq, hs', Nat.not_lt.mp hshort, hlonger⟩

/-! ### A server that honours ranges -/

structure Ranging (file : File) (s : HttpSource) : Prop where
  isPrefix : s.bytes.toList <+: file.content
  mode_eq : s.mode = .range
  size_eq : s.size = none ∨ s.size = some (file.content.length : Int)

variable (url) in
theorem readOn_ranging (hserver : server.HonoursRanges file) (hs : Ranging file s) {t : Nat}
    (ht : s.bytes.length < t) :
    (file.content.length ≤ s.bytes.length ∧ ∃ e s', readOn url server t s = .error e s') ∨
    ∃ s', readOn url server t s = .ok () s' ∧ Ranging file s' ∧ s'.bytes.toList = file.content.take t ∧
      s'.requests = s.requests + 1 ∧ s'.ranges = s.ranges ++ [(s.bytes.length, t - 1)] := by
  obtain ⟨r, hfetch, hr⟩ := hserver s.requests s.bytes.length (t - 1)
  rw [readOn, hs.mode_eq]
  dsimp only
  rw [fetchRange, hfetch]
  dsimp only
  rw [receive, EStateM.bind_modify]
  rcases hr with ⟨hstatus, hbroken, hbody, hrange⟩ | ⟨hbeyond, hpartial, hwhole⟩
  · right
    have hlist : s.bytes.toList ++ r.body.flatten = file.content.take t := by
      have hlonger := List.prefix_iff_eq_take.mp hs.isPrefix
      rw [s.bytes.length_toList, ← List.segment_zero] at hlonger
      rw [hbody, hlonger, Nat.sub_add_cancel (by omega),
        List.segment_append (Nat.zero_le _) (Nat.le_of_lt ht), List.segment_zero]
    have hsafe : isSafeInteger (s.bytes.toList ++ r.body.flatten).length := by
      rw [hlist, List.length_take]
      exact Nat.lt_of_le_of_lt (Nat.min_le_right _ _) file.size_safe
    rw [if_pos hstatus, hbroken, setSize, EStateM.bind_modify]
    obtain ⟨bytes, happend, hbytes⟩ := @append_ok r.body.flatten {
      s with
      ranges := s.ranges ++ [(s.bytes.length, t - 1)], requests := s.requests + 1
      size := (contentRange r).or s.size } hsafe
    refine ⟨_, happend, ⟨?_, hs.mode_eq, ?_⟩, ?_, rfl, rfl⟩
    · rw [hbytes, hlist]
      exact List.take_prefix _ _
    · rw [contentRange]
      rcases hrange with hrange | hrange | hrange
      · rw [hrange]
        exact .inr rfl
      · rw [hrange]
        exact hs.size_eq
      · rw [hrange]
        exact hs.size_eq
    · rw [hbytes, hlist]
  · left
    refine ⟨hbeyond, ?_⟩
    rw [if_neg hpartial, if_neg hwhole]
    exact ⟨_, _, rfl⟩

variable (url) in
theorem windowed_ranging (hserver : server.HonoursRanges file) :
    Windowed (source url server) (Ranging file) HttpSource.bytes file.content MAX_READ where
  isPrefix s hs := hs.isPrefix
  ensure_cases stop s hs := by
    apply ensure_cases hs hs.size_eq
    intro t hstop hlength
    rcases readOn_ranging url hserver hs (Nat.lt_of_lt_of_le hlength hstop) with
      ⟨hbeyond, herror⟩ | ⟨s', hok, hs', hbytes, -⟩
    · left
      exact ⟨Nat.lt_of_le_of_lt hbeyond hlength, herror⟩
    · right
      have hle : s'.bytes.length = min t file.content.length := by
        rw [← s'.bytes.length_toList, hbytes, List.length_take]
      refine ⟨s', hok, hs', ?_, Nat.le_of_eq hle.symm⟩
      rw [hbytes]
      apply List.prefix_take_iff.mpr
      refine ⟨hs.isPrefix, ?_⟩
      rw [s.bytes.length_toList]
      omega

theorem ranging_initial (file : File) : Ranging file initial := ⟨List.nil_prefix, rfl, .inl rfl⟩

/-! ### A server that sends the whole file -/

structure Fresh (s : HttpSource) : Prop where
  bytes_eq : s.bytes.toList = []
  mode_eq : s.mode = .range
  size_eq : s.size = none

/-- What is left of the stream follows what was read. -/
structure Streaming (file : File) (size : Option Int) (s : HttpSource) : Prop where
  bytes_eq : s.bytes.toList ++ s.stream.flatten = file.content
  mode_eq : s.mode = .stream
  unbroken : s.broken = none
  size_eq : s.size = size

theorem Streaming.isPrefix {size : Option Int} (hs : Streaming file size s) :
    s.bytes.toList <+: file.content := ⟨s.stream.flatten, hs.bytes_eq⟩

theorem pump_streaming {size : Option Int} (hs : Streaming file size s) (t : Nat) :
    ∃ s', pump t s = .ok () s' ∧ Streaming file size s' ∧ s.bytes.toList <+: s'.bytes.toList ∧
      s'.bytes.length = reach t s.bytes.length s.stream := by
  have hsafe : isSafeInteger (s.bytes.toList ++ s.stream.flatten).length := by
    rw [hs.bytes_eq]
    exact file.size_safe
  obtain ⟨bytes, stream, hpump, hlonger, hall, hreach⟩ := pumpFrom_ok t s.stream s rfl hs.unbroken hsafe
  exact ⟨_, hpump, ⟨hall.trans hs.bytes_eq, hs.mode_eq, hs.unbroken, hs.size_eq⟩, hlonger, hreach⟩

variable {r : Response}

variable (url) in
theorem readOn_fresh (hserver : server.IgnoresRanges file r) (hs : Fresh s) (t : Nat) :
    ∃ s', readOn url server t s = .ok () s' ∧ Streaming file (contentLength r) s' ∧
      s'.bytes.length = reach t 0 r.body := by
  have hlength : s.bytes.length = 0 := by
    rw [← s.bytes.length_toList, hs.bytes_eq, List.length_nil]
  have hsize : (contentLength r).or s.size = contentLength r := by
    rw [hs.size_eq, Option.or_none]
  rw [readOn, hs.mode_eq]
  dsimp only
  rw [fetchRange, hserver.fetch_eq]
  dsimp only
  rw [receive, EStateM.bind_modify, if_neg (by rw [hserver.status_eq]; decide), if_pos hserver.status_eq,
    setSize, EStateM.bind_modify, if_neg (not_not.mpr hlength), EStateM.bind_modify]
  have hstart : Streaming file (contentLength r) {
      s with
      ranges := s.ranges ++ [(s.bytes.length, t - 1)], requests := s.requests + 1
      size := (contentLength r).or s.size, mode := .stream, stream := r.body, broken := r.broken } :=
    ⟨by rw [hs.bytes_eq, hserver.body_eq, List.nil_append], rfl, hserver.unbroken, hsize⟩
  obtain ⟨s', hpump, hs', -, hreach⟩ := pump_streaming hstart t
  dsimp only at hreach
  rw [hlength] at hreach
  exact ⟨s', hpump, hs', hreach⟩

variable (url server) in
theorem readOn_streaming {size : Option Int} (hs : Streaming file size s) (t : Nat) :
    ∃ s', readOn url server t s = .ok () s' ∧ Streaming file size s' ∧
      s.bytes.toList <+: s'.bytes.toList ∧ min t file.content.length ≤ s'.bytes.length := by
  obtain ⟨s', hpump, hs', hlonger, hreach⟩ := pump_streaming hs t
  refine ⟨s', ?_, hs', hlonger, ?_⟩
  · rw [readOn, hs.mode_eq]
    exact hpump
  · have hle := min_le_reach t s.bytes.length s.stream
    rw [← s.bytes.length_toList, ← List.length_append, hs.bytes_eq, s.bytes.length_toList] at hle
    rw [hreach]
    exact hle

/-- The size of the file is announced. -/
def Announced (file : File) (s : HttpSource) : Prop :=
  Fresh s ∨ Streaming file (some (file.content.length : Int)) s

variable (url) in
theorem windowed_announced (hserver : server.IgnoresRanges file r)
    (hlength : r.contentLength = .number file.content.length) :
    Windowed (source url server) (Announced file) HttpSource.bytes file.content MAX_READ where
  isPrefix s hs := by
    rcases hs with hs | hs
    · rw [hs.bytes_eq]
      exact List.nil_prefix
    · exact hs.isPrefix
  ensure_cases stop s hs := by
    have hcontent : contentLength r = some (file.content.length : Int) := by
      rw [contentLength, hlength]
    apply ensure_cases hs
    · exact hs.imp (fun hs => hs.size_eq) fun hs => hs.size_eq
    · intro t _ _
      right
      rcases hs with hs | hs
      · obtain ⟨s', hok, hs', hreach⟩ := readOn_fresh url hserver hs t
        rw [hcontent] at hs'
        refine ⟨s', hok, .inr hs', ?_, ?_⟩
        · rw [hs.bytes_eq]
          exact List.nil_prefix
        · have hle := min_le_reach t 0 r.body
          rwa [hserver.body_eq, Nat.zero_add, ← hreach] at hle
      · obtain ⟨s', hok, hs', hlonger, hwindow⟩ := readOn_streaming url server hs t
        exact ⟨s', hok, .inr hs', hlonger, hwindow⟩

end HttpSource

end LlmRuntime.Probe

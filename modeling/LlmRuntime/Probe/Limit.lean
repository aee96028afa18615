import LlmRuntime.Base.Cleanup
import LlmRuntime.Base.Transition
import LlmRuntime.Probe.Growth

/-!
# The limit on what is read

`ensure` compares its argument with `MAX_READ`, but what it reads up to is at least twice what it has. So it
reads past the limit as soon as it has more than half of it and the file is not known to end before. A server
may also send more than it was asked for.

A call reads once at most, so a run is a list of calls, each with what its read would give.
-/

namespace LlmRuntime.Probe

open Gguf

/-! ### HttpSource -/

/-- A server during one call. -/
def Server.answering (answer : Except String Response) : Server := ⟨fun _ _ _ => answer⟩

namespace HttpSource

/-- Calls of `ensure`, successful or not. -/
def calls (url : String) : Transition HttpSource (Nat × Except String Response) where
  start := initial
  step s e := some ((ensure url (.answering e.2) e.1).finalState s)

/-- In range mode nothing past the limit has been asked for and no more than that is held. -/
structure Bounded (s : HttpSource) : Prop where
  ranges_lt : ∀ range ∈ s.ranges, range.2 < MAX_READ
  held_le : s.mode = .range → s.bytes.length ≤ MAX_READ

/-- A `206` with a body that the source can hold is within the limit. -/
def Fits (held : Nat) (answer : Except String Response) : Prop :=
  ∀ r, answer = .ok r → r.status = 206 → r.broken = none → isSafeInteger (held + r.body.flatten.length) →
    held + r.body.flatten.length ≤ MAX_READ

/-- A call in range mode that asks the server finds at most half of the limit held, or the file is known to
end within the limit, and the answer fits. -/
def Spares (s : HttpSource) (e : Nat × Except String Response) : Prop :=
  s.mode = .range → s.bytes.length < e.1 → e.1 ≤ MAX_READ → (∀ size, s.size = some size → (e.1 : Int) ≤ size) →
    (2 * s.bytes.length ≤ MAX_READ ∨ ∃ size, s.size = some size ∧ size ≤ MAX_READ) ∧
      Fits s.bytes.length e.2

variable {url : String} {server : Server} {answer : Except String Response} {s : HttpSource} {stop : Nat}

theorem le_target_iff (stop : Nat) :
    (stop : Int) ≤ target s stop ↔ ∀ size, s.size = some size → (stop : Int) ≤ size := by
  rw [target]
  cases s.size with
  | none =>
      dsimp only
      apply iff_of_true
      · omega
      · intro size hsize
        cases hsize
  | some size =>
      simp only [Option.some.injEq, forall_eq']
      omega

theorem target_le_iff (hstop : stop ≤ MAX_READ) : target s stop ≤ MAX_READ ↔
    2 * s.bytes.length ≤ MAX_READ ∨ ∃ size, s.size = some size ∧ size ≤ MAX_READ := by
  have hfirst : FIRST_READ ≤ MAX_READ := by decide
  rw [target]
  cases s.size with
  | none =>
      simp only [reduceCtorEq, false_and, exists_false, or_false]
      omega
  | some size =>
      simp only [Option.some.injEq, exists_eq_left']
      omega

variable (url server) in
theorem finalState_ensure (h : s.bytes.length < stop) (hmax : stop ≤ MAX_READ) (ht : (stop : Int) ≤ target s stop) :
    (ensure url server stop).finalState s = (readOn url server (target s stop).toNat).finalState s := by
  rw [EStateM.finalState, ensure_eq url server h hmax (not_lt.mpr ht), EStateM.finalState]
  cases readOn url server (target s stop).toNat s with
  | ok u t =>
      dsimp only
      by_cases hshort : t.bytes.length < stop
      · rw [if_pos hshort]
        rfl
      · rw [if_neg hshort]
  | error e t => rfl

variable (url server) in
theorem finalState_ensure_of_not
    (h : ¬ (s.bytes.length < stop ∧ stop ≤ MAX_READ ∧ (stop : Int) ≤ target s stop)) :
    (ensure url server stop).finalState s = s := by
  by_cases hlength : stop ≤ s.bytes.length
  · exact EStateM.finalState_of_ok (ensure_of_le hlength)
  have hlength : s.bytes.length < stop := Nat.not_le.mp hlength
  by_cases hmax : MAX_READ < stop
  · obtain ⟨e, herror⟩ := ensure_of_max url server hlength hmax
    exact EStateM.finalState_of_error herror
  · have htarget : target s stop < stop := by omega
    obtain ⟨e, herror⟩ := ensure_of_target url server hlength htarget
    exact EStateM.finalState_of_error herror

theorem append_cases (chunk : List UInt8) (s : HttpSource) :
    (isSafeInteger (s.bytes.length + chunk.length) ∧ ∃ bytes : Uint8Array,
        append chunk s = .ok () { s with bytes } ∧ bytes.length = s.bytes.length + chunk.length) ∨
      (¬ isSafeInteger (s.bytes.length + chunk.length) ∧ ∃ e, append chunk s = .error e s) := by
  have hlength : (s.bytes.toList ++ chunk).length = s.bytes.length + chunk.length := by
    rw [List.length_append, s.bytes.length_toList]
  rw [← hlength]
  by_cases hsafe : isSafeInteger (s.bytes.toList ++ chunk).length
  · left
    obtain ⟨bytes, happend, hbytes⟩ := append_ok hsafe
    refine ⟨hsafe, bytes, happend, ?_⟩
    rw [← bytes.length_toList, hbytes]
  · right
    refine ⟨hsafe, .rangeError, ?_⟩
    rw [append, uint8Array, dif_neg hsafe]

/-- A stream sends nothing. -/
theorem finalState_pumpFrom (target : Nat) (chunks : List (List UInt8)) (s : HttpSource) :
    ((pumpFrom target chunks).finalState s).ranges = s.ranges ∧
      ((pumpFrom target chunks).finalState s).mode = s.mode := by
  induction chunks generalizing s with
  | nil =>
      have hsame : (pumpFrom target []).finalState s = s := by
        rw [EStateM.finalState, pumpFrom]
        dsimp only
        by_cases htarget : target ≤ s.bytes.length
        · rw [if_pos htarget]
        · rw [if_neg htarget]
          cases s.broken with
          | none => rfl
          | some message => rfl
      rw [hsame]
      exact ⟨rfl, rfl⟩
  | cons chunk rest ih =>
      by_cases htarget : target ≤ s.bytes.length
      · have hok : pumpFrom target (chunk :: rest) s = .ok () s := by
          rw [pumpFrom]
          dsimp only
          rw [if_pos htarget]
        rw [EStateM.finalState_of_ok hok]
        exact ⟨rfl, rfl⟩
      · have heq : (pumpFrom target (chunk :: rest)).finalState s =
            (append chunk >>= fun _ => pumpFrom target rest).finalState { s with stream := rest } := by
          rw [EStateM.finalState, pumpFrom]
          dsimp only
          rw [if_neg htarget]
          rfl
        rw [heq]
        rcases append_cases chunk { s with stream := rest } with ⟨-, bytes, happend, -⟩ | ⟨-, e, herror⟩
        · rw [EStateM.finalState_bind_of_ok happend]
          exact ih _
        · rw [EStateM.finalState_bind_of_error herror]
          exact ⟨rfl, rfl⟩

/-- What is held after a request. -/
def heldAfter (held : Nat) : Except String Response → Nat
  | .ok r =>
      if r.status = 206 ∧ r.broken = none ∧ isSafeInteger (held + r.body.flatten.length) then
        held + r.body.flatten.length
      else held
  | .error _ => held

theorem heldAfter_of_not {held : Nat} {r : Response} (h : r.status ≠ 206) : heldAfter held (.ok r) = held :=
  if_neg fun hr => h hr.1

/-- What a request comes to: the range is recorded, and in range mode only a `206` counts. -/
structure Fetched (s t : HttpSource) (range : Nat × Nat) (answer : Except String Response) : Prop where
  ranges_eq : t.ranges = s.ranges ++ [range]
  held_eq : t.mode = .range → t.bytes.length = heldAfter s.bytes.length answer
  mode_eq : t.mode = .range ∨ ∃ r, answer = .ok r ∧ r.status = 200

theorem fetched_receive (url : String) (r : Response) (target : Nat) (range : Nat × Nat)
    (hmode : s.mode = .range) : Fetched s ((receive url s.bytes.length target r).finalState
      { s with ranges := s.ranges ++ [range] }) range (.ok r) := by
  rw [EStateM.finalState, receive, EStateM.bind_modify]
  by_cases hstatus : r.status = 206
  · rw [if_pos hstatus, setSize, EStateM.bind_modify]
    cases hbroken : r.broken with
    | some message =>
        refine ⟨rfl, fun _ => ?_, .inl hmode⟩
        rw [heldAfter, if_neg]
        · rfl
        · rw [hbroken]
          exact fun h => Option.some_ne_none message h.2.1
    | none =>
        dsimp only
        rcases append_cases r.body.flatten {
            s with
            ranges := s.ranges ++ [range], requests := s.requests + 1
            size := (contentRange r).or s.size } with ⟨hsafe, bytes, happend, hlength⟩ | ⟨hbeyond, e, herror⟩
        · rw [happend]
          refine ⟨rfl, fun _ => ?_, .inl hmode⟩
          rw [heldAfter, if_pos ⟨hstatus, hbroken, hsafe⟩]
          exact hlength
        · rw [herror]
          refine ⟨rfl, fun _ => ?_, .inl hmode⟩
          rw [heldAfter, if_neg fun h => hbeyond h.2.2]
  · have hheld := @heldAfter_of_not s.bytes.length r hstatus
    rw [if_neg hstatus]
    by_cases hwhole : r.status = 200
    · rw [if_pos hwhole, setSize, EStateM.bind_modify]
      by_cases hfirst : s.bytes.length ≠ 0
      · rw [if_pos hfirst]
        exact ⟨rfl, fun _ => hheld.symm, .inl hmode⟩
      · rw [if_neg hfirst, EStateM.bind_modify]
        obtain ⟨hranges, hstream⟩ := finalState_pumpFrom target r.body {
            s with
            ranges := s.ranges ++ [range], requests := s.requests + 1
            size := (contentLength r).or s.size, mode := .stream, stream := r.body, broken := r.broken }
        refine ⟨hranges, ?_, .inr ⟨r, rfl, hwhole⟩⟩
        intro hrange
        cases hstream.symm.trans hrange
    · rw [if_neg hwhole]
      exact ⟨rfl, fun _ => hheld.symm, .inl hmode⟩

theorem fetched_fetchRange (url : String) (answer : Except String Response) (target : Nat)
    (hmode : s.mode = .range) :
    Fetched s ((fetchRange url (.answering answer) target).finalState s) (s.bytes.length, target - 1) answer := by
  cases answer with
  | error message => exact ⟨rfl, fun _ => rfl, .inl hmode⟩
  | ok r => exact fetched_receive url r target (s.bytes.length, target - 1) hmode

/-- A call that asks the server. -/
def Asks (s : HttpSource) (stop : Nat) : Prop :=
  s.bytes.length < stop ∧ stop ≤ MAX_READ ∧ (stop : Int) ≤ target s stop

theorem bounded_initial : Bounded initial := by
  refine ⟨fun range hrange => absurd hrange List.not_mem_nil, fun _ => ?_⟩
  exact Nat.zero_le _

theorem heldAfter_le_iff {held : Nat} (h : held ≤ MAX_READ) (answer : Except String Response) :
    heldAfter held answer ≤ MAX_READ ↔ Fits held answer := by
  cases answer with
  | error message => exact iff_of_true h (fun r hr => nomatch hr)
  | ok r =>
      rw [heldAfter]
      by_cases hr : r.status = 206 ∧ r.broken = none ∧ isSafeInteger (held + r.body.flatten.length)
      · rw [if_pos hr]
        constructor
        · intro hle r' hr' _ _ _
          cases hr'
          exact hle
        · intro hfits
          exact hfits r rfl hr.1 hr.2.1 hr.2.2
      · rw [if_neg hr]
        refine iff_of_true h ?_
        intro r' hr' hstatus hbroken hsafe
        cases hr'
        exact absurd ⟨hstatus, hbroken, hsafe⟩ hr

theorem bounded_pump (url : String) (server : Server) (target : Nat) (hs : Bounded s) (hmode : s.mode = .stream) :
    Bounded ((readOn url server target).finalState s) := by
  have hpump : (readOn url server target).finalState s = (pump target).finalState s := by
    rw [EStateM.finalState, readOn, hmode]
    rfl
  obtain ⟨hranges, hstream⟩ := finalState_pumpFrom target s.stream s
  rw [hpump]
  refine ⟨hranges.symm ▸ hs.ranges_lt, ?_⟩
  intro hrange
  cases (hstream.trans hmode).symm.trans hrange

theorem bounded_fetchRange_iff (url : String) (answer : Except String Response) {target : Nat}
    (hpos : 0 < target) (hs : Bounded s) (hmode : s.mode = .range) :
    Bounded ((readOn url (.answering answer) target).finalState s) ↔
      target ≤ MAX_READ ∧ Fits s.bytes.length answer := by
  have hfetch : (readOn url (.answering answer) target).finalState s =
      (fetchRange url (.answering answer) target).finalState s := by
    rw [EStateM.finalState, readOn, hmode]
    rfl
  have hfetched := fetched_fetchRange url answer target hmode
  have hfits := heldAfter_le_iff (hs.held_le hmode) answer
  rw [← hfetch] at hfetched
  constructor
  · intro hbounded
    constructor
    · have hlast := hbounded.ranges_lt (s.bytes.length, target - 1) (by
        rw [hfetched.ranges_eq]
        exact List.mem_append_right _ List.mem_cons_self)
      dsimp only at hlast
      omega
    · rcases hfetched.mode_eq with hrange | ⟨r, hr, hwhole⟩
      · apply hfits.mp
        rw [← hfetched.held_eq hrange]
        exact hbounded.held_le hrange
      · intro r' hr' hstatus
        cases hr.symm.trans hr'
        exact absurd (hwhole.symm.trans hstatus) (by decide)
  · intro hwithin
    obtain ⟨hle, hanswer⟩ := hwithin
    refine ⟨?_, ?_⟩
    · rw [hfetched.ranges_eq, List.forall_mem_append]
      refine ⟨hs.ranges_lt, List.forall_mem_singleton.mpr ?_⟩
      show target - 1 < MAX_READ
      omega
    · intro hrange
      rw [hfetched.held_eq hrange]
      exact hfits.mpr hanswer

/-- One call keeps within the limit if and only if it meets the condition. -/
theorem bounded_step_iff (url : String) (hs : Bounded s) (e : Nat × Except String Response) :
    Bounded ((ensure url (.answering e.2) e.1).finalState s) ↔ Spares s e := by
  obtain ⟨stop, answer⟩ := e
  dsimp only
  by_cases hasks : Asks s stop
  · obtain ⟨hlength, hmax, htarget⟩ := hasks
    rw [finalState_ensure url _ hlength hmax htarget]
    cases hmode : s.mode with
    | stream =>
        apply iff_of_true
        · exact bounded_pump url _ _ hs hmode
        · exact fun hrange => nomatch hmode.symm.trans hrange
    | range =>
        have hle : (target s stop).toNat ≤ MAX_READ ↔ target s stop ≤ MAX_READ := by omega
        rw [bounded_fetchRange_iff url answer (by omega) hs hmode, hle, target_le_iff hmax]
        exact ⟨fun h _ _ _ _ => h, fun h => h hmode hlength hmax ((le_target_iff stop).mp htarget)⟩
  · rw [finalState_ensure_of_not url _ hasks]
    apply iff_of_true hs
    intro _ hlength hmax hsize
    exact absurd ⟨hlength, hmax, (le_target_iff stop).mpr hsize⟩ hasks

theorem along_spares_iff (url : String) (es : List (Nat × Except String Response)) :
    (calls url).Along Spares initial es ↔ (calls url).Throughout Bounded es := by
  obtain ⟨t, hrun⟩ := (calls url).exists_run (fun s e => ⟨_, rfl⟩) initial es
  refine Transition.along_iff_throughout bounded_initial ?_ hrun
  intro s e t _ hs hstep
  rw [← Option.some.inj hstep]
  exact bounded_step_iff url hs e

/-! ### One server for all calls -/

/-- A call makes one request at most. -/
theorem ensure_answering (url : String) (server : Server) (stop : Nat) (s : HttpSource) :
    ensure url server stop s = ensure url
      (.answering (server.fetch s.requests s.bytes.length ((target s stop).toNat - 1))) stop s := by
  have hread : readOn url server (target s stop).toNat s = readOn url
      (.answering (server.fetch s.requests s.bytes.length ((target s stop).toNat - 1)))
        (target s stop).toNat s := by
    rw [readOn, readOn]
    cases s.mode with
    | range => rfl
    | stream => rfl
  rw [ensure, ensure, EStateM.bind_get, EStateM.bind_get]
  by_cases hlength : stop ≤ s.bytes.length
  · rw [if_pos hlength, if_pos hlength]
  rw [if_neg hlength, if_neg hlength]
  by_cases hmax : stop > MAX_READ
  · rw [if_pos hmax, if_pos hmax]
  rw [if_neg hmax, if_neg hmax]
  by_cases htarget : target s stop < stop
  · rw [if_pos htarget, if_pos htarget]
  rw [if_neg htarget, if_neg htarget, EStateM.bind_congr_left _ hread]

/-- So calls against one server are a run. -/
theorem exists_calls (url : String) (server : Server) (stops : List Nat) (s : HttpSource) :
    ∃ (es : List (Nat × Except String Response)) (t : HttpSource), es.map Prod.fst = stops ∧
      (calls url).run s es = some t ∧ t = stops.foldl (fun s stop => (ensure url server stop).finalState s) s := by
  refine Transition.exists_run_foldl id ?_ s stops
  intro s stop
  refine ⟨(stop, server.fetch s.requests s.bytes.length ((target s stop).toNat - 1)), _, rfl, rfl, ?_⟩
  rw [id, id, EStateM.finalState, EStateM.finalState, ensure_answering url server]

end HttpSource

/-! ### FileSource -/

namespace FileSource

/-- The range of the `createReadStream` that a call of `ensure` makes, if it makes one. -/
def requested (size stop : Nat) (s : FileSource) : Option (Nat × Nat) :=
  let target := min (max (max stop FIRST_READ) (s.bytes.length * 2)) size
  if s.bytes.length < stop ∧ stop ≤ MAX_READ ∧ stop ≤ target then some (s.bytes.length, target - 1) else none

/-- `ensure` with a read that may fail: it then ends before anything has changed. -/
def ensureOn (path : String) (size : Nat) (read : Except String (List (List UInt8))) (stop : Nat) :
    EStateM Failure FileSource Uint8Array := fun s =>
  match read with
  | .ok chunks => ensure path size (fun _ _ => chunks) stop s
  | .error message =>
      if (requested size stop s).isSome then .error (.error message) s
      else ensure path size (fun _ _ => []) stop s

/-- A source and the ranges that were read. -/
structure Logged where
  source : FileSource
  ranges : List (Nat × Nat)

/-- Calls of `ensure`, successful or not. -/
def calls (path : String) (size : Nat) : Transition Logged (Nat × Except String (List (List UInt8))) where
  start := ⟨initial, []⟩
  step s e := some ⟨(ensureOn path size e.2 e.1).finalState s.source,
    s.ranges ++ (requested size e.1 s.source).toList⟩

structure Bounded (s : Logged) : Prop where
  ranges_lt : ∀ range ∈ s.ranges, range.2 < MAX_READ
  held_le : s.source.bytes.length ≤ MAX_READ

/-- A stream of a range has no more bytes than the range. -/
def Ranged (size : Nat) (s : Logged) (e : Nat × Except String (List (List UInt8))) : Prop :=
  ∀ range chunks, requested size e.1 s.source = some range → e.2 = .ok chunks →
    chunks.flatten.length ≤ range.2 + 1 - range.1

/-- A call that reads finds at most half of the limit held, or the file ends within the limit. -/
def Spares (size : Nat) (s : Logged) (e : Nat × Except String (List (List UInt8))) : Prop :=
  s.source.bytes.length < e.1 → e.1 ≤ MAX_READ → e.1 ≤ size →
    2 * s.source.bytes.length ≤ MAX_READ ∨ size ≤ MAX_READ

variable {path : String} {size stop : Nat} {s : FileSource}

theorem requested_of_lt (h : s.bytes.length < stop) (hmax : stop ≤ MAX_READ) (hsize : stop ≤ size) :
    requested size stop s =
      some (s.bytes.length, min (max (max stop FIRST_READ) (s.bytes.length * 2)) size - 1) := by
  refine if_pos ⟨h, hmax, ?_⟩
  omega

theorem requested_of_not (h : ¬ (s.bytes.length < stop ∧ stop ≤ MAX_READ ∧ stop ≤ size)) :
    requested size stop s = none := by
  refine if_neg fun hasks => h ⟨hasks.1, hasks.2.1, ?_⟩
  omega

/-- The disk is read nowhere but in the range that is requested. -/
theorem ensure_disk (path : String) (size stop : Nat) (disk : Nat → Nat → List (List UInt8)) (s : FileSource) :
    ensure path size disk stop s = ensureOn path size
      (.ok (match requested size stop s with
        | some (first, last) => disk first last
        | none => [])) stop s := by
  rw [ensureOn, ensure, ensure, EStateM.bind_get, EStateM.bind_get]
  dsimp only
  by_cases hlength : stop ≤ s.bytes.length
  · rw [if_pos hlength, if_pos hlength]
  rw [if_neg hlength, if_neg hlength]
  by_cases hmax : stop > MAX_READ
  · rw [if_pos hmax, if_pos hmax]
  rw [if_neg hmax, if_neg hmax]
  by_cases hsize : stop ≤ size
  · rw [requested_of_lt (Nat.not_le.mp hlength) (Nat.not_lt.mp hmax) hsize]
  · rw [if_pos (by omega), if_pos (by omega)]

/-- So calls against one disk are a run. -/
theorem exists_calls (path : String) (size : Nat) (disk : Nat → Nat → List (List UInt8)) (stops : List Nat)
    (s : Logged) :
    ∃ (es : List (Nat × Except String (List (List UInt8)))) (t : Logged), es.map Prod.fst = stops ∧
      (calls path size).run s es = some t ∧
        t.source = stops.foldl (fun s stop => (ensure path size disk stop).finalState s) s.source := by
  refine Transition.exists_run_foldl Logged.source ?_ s stops
  intro s stop
  refine ⟨(stop, .ok (match requested size stop s.source with
    | some (first, last) => disk first last
    | none => [])), _, rfl, rfl, ?_⟩
  rw [EStateM.finalState, EStateM.finalState, ensure_disk]

theorem finalState_ensure_of_not (path : String) (disk : Nat → Nat → List (List UInt8))
    (h : ¬ (s.bytes.length < stop ∧ stop ≤ MAX_READ ∧ stop ≤ size)) :
    (ensure path size disk stop).finalState s = s := by
  rw [EStateM.finalState, ensure, EStateM.bind_get]
  by_cases hlength : stop ≤ s.bytes.length
  · rw [if_pos hlength]
    rfl
  rw [if_neg hlength]
  by_cases hmax : stop > MAX_READ
  · rw [if_pos hmax]
    rfl
  rw [if_neg hmax]
  dsimp only
  rw [if_pos (by omega)]
  rfl

/-- What is held after a read. -/
theorem length_finalState_ensure (path : String) (chunks : List (List UInt8)) (h : s.bytes.length < stop)
    (hmax : stop ≤ MAX_READ) (hsize : stop ≤ size) :
    ((ensure path size (fun _ _ => chunks) stop).finalState s).bytes.length =
      if isSafeInteger (s.bytes.length + chunks.flatten.length) then s.bytes.length + chunks.flatten.length
      else s.bytes.length := by
  have hlength : (s.bytes.toList ++ chunks.flatten).length = s.bytes.length + chunks.flatten.length := by
    rw [List.length_append, s.bytes.length_toList]
  rw [EStateM.finalState, ensure, EStateM.bind_get, if_neg (Nat.not_le.mpr h), if_neg (Nat.not_lt.mpr hmax)]
  dsimp only
  rw [if_neg (by omega), EStateM.bind_modify, uint8Array, ← hlength]
  by_cases hsafe : isSafeInteger (s.bytes.toList ++ chunks.flatten).length
  · rw [dif_pos hsafe, if_pos hsafe]
    dsimp only
    rw [EStateM.bind_modify]
    dsimp only
    by_cases hshort : (s.bytes.toList ++ chunks.flatten).length < stop
    · rw [if_pos hshort]
      rfl
    · rw [if_neg hshort]
      rfl
  · rw [dif_neg hsafe, if_neg hsafe]
    rfl

theorem finalState_ensureOn_of_not (path : String) (read : Except String (List (List UInt8)))
    (h : ¬ (s.bytes.length < stop ∧ stop ≤ MAX_READ ∧ stop ≤ size)) :
    (ensureOn path size read stop).finalState s = s := by
  cases read with
  | error message =>
      have hread : ensureOn path size (.error message) stop s = ensure path size (fun _ _ => []) stop s := by
        rw [ensureOn, requested_of_not h, Option.isSome_none, if_neg Bool.false_ne_true]
      rw [EStateM.finalState, hread]
      exact finalState_ensure_of_not path (fun _ _ => []) h
  | ok chunks =>
      have hread : ensureOn path size (.ok chunks) stop s = ensure path size (fun _ _ => chunks) stop s := by
        rw [ensureOn]
      rw [EStateM.finalState, hread]
      exact finalState_ensure_of_not path (fun _ _ => chunks) h

theorem length_finalState_ensureOn_le (path : String) {s : Logged}
    {e : Nat × Except String (List (List UInt8))} (hread : Ranged size s e)
    (h : s.source.bytes.length < e.1) (hmax : e.1 ≤ MAX_READ) (hsize : e.1 ≤ size) :
    ((ensureOn path size e.2 e.1).finalState s.source).bytes.length ≤
      min (max (max e.1 FIRST_READ) (s.source.bytes.length * 2)) size := by
  obtain ⟨stop, read⟩ := e
  have hrequested := requested_of_lt h hmax hsize
  cases read with
  | error message =>
      have hsame : (ensureOn path size (.error message) stop).finalState s.source = s.source := by
        rw [EStateM.finalState, ensureOn, hrequested]
        rfl
      dsimp only at h hsize ⊢
      rw [hsame]
      omega
  | ok chunks =>
      have hchunks := hread _ chunks hrequested rfl
      have hlength := length_finalState_ensure path chunks h hmax hsize
      dsimp only at h hsize hchunks
      change ((ensure path size (fun _ _ => chunks) stop).finalState s.source).bytes.length ≤ _
      rw [hlength]
      dsimp only
      split
      · omega
      · omega

/-- One call keeps within the limit if and only if it meets the condition. -/
theorem bounded_step_iff (path : String) {s : Logged} (hs : Bounded s)
    (e : Nat × Except String (List (List UInt8))) (hread : Ranged size s e) :
    Bounded ⟨(ensureOn path size e.2 e.1).finalState s.source,
      s.ranges ++ (requested size e.1 s.source).toList⟩ ↔ Spares size s e := by
  have hfirst : FIRST_READ ≤ MAX_READ := by decide
  by_cases hasks : s.source.bytes.length < e.1 ∧ e.1 ≤ MAX_READ ∧ e.1 ≤ size
  · obtain ⟨hlength, hmax, hsize⟩ := hasks
    have hheld := length_finalState_ensureOn_le path hread hlength hmax hsize
    rw [requested_of_lt hlength hmax hsize, Option.toList_some]
    constructor
    · intro hbounded _ _ _
      have hlast := hbounded.ranges_lt _ (List.mem_append_right _ List.mem_cons_self)
      dsimp only at hlast
      omega
    · intro hspares
      have hwithin := hspares hlength hmax hsize
      refine ⟨?_, ?_⟩
      · rw [List.forall_mem_append]
        refine ⟨hs.ranges_lt, List.forall_mem_singleton.mpr ?_⟩
        dsimp only
        omega
      · dsimp only
        omega
  · rw [finalState_ensureOn_of_not path _ hasks, requested_of_not hasks, Option.toList_none, List.append_nil]
    apply iff_of_true hs
    intro hlength hmax hsize
    exact absurd ⟨hlength, hmax, hsize⟩ hasks

theorem along_spares_iff (path : String) (size : Nat) (es : List (Nat × Except String (List (List UInt8))))
    (hread : (calls path size).Along (Ranged size) ⟨initial, []⟩ es) :
    (calls path size).Along (Spares size) ⟨initial, []⟩ es ↔ (calls path size).Throughout Bounded es := by
  obtain ⟨t, hrun⟩ := (calls path size).exists_run (fun s e => ⟨_, rfl⟩) ⟨initial, []⟩ es
  have hinitial : Bounded ⟨initial, []⟩ :=
    ⟨fun range hrange => absurd hrange List.not_mem_nil, Nat.zero_le _⟩
  refine Transition.along_iff_throughout_of (I := fun _ => True) trivial hinitial
    (fun _ _ _ _ _ _ => trivial) ?_ hread hrun
  intro s e t _ hs hread hstep
  rw [← Option.some.inj hstep]
  exact bounded_step_iff path hs e hread

theorem doubled_target {n first size : Nat} (hpos : 0 < n) (hleast : first ≤ n) (hsize : 2 * n ≤ size) :
    min (max (max (n + 1) first) (n * 2)) size = 2 * n := by
  omega

/-- Two calls for a little more than half of the limit, each of which reads as much as it asked for. -/
theorem past_half (path : String) {n : Nat} {first second : List UInt8} (hfirst : first.length = n)
    (hsecond : second.length = n) (hleast : FIRST_READ ≤ n) (hhalf : MAX_READ < 2 * n) (hmax : n < MAX_READ)
    (hsize : 2 * n ≤ size) :
    (calls path size).Along (Ranged size) ⟨initial, []⟩ [(n, .ok [first]), (n + 1, .ok [second])] ∧
      ¬ (calls path size).Along (Spares size) ⟨initial, []⟩ [(n, .ok [first]), (n + 1, .ok [second])] := by
  have hlimit : isSafeInteger MAX_READ := by decide
  have hempty : initial.bytes.length = 0 := rfl
  have hheld : ((ensureOn path size (.ok [first]) n).finalState initial).bytes.length = n := by
    have hlength := length_finalState_ensure path [first]
      (show initial.bytes.length < n by omega) (Nat.le_of_lt hmax) (show n ≤ size by omega)
    rw [List.flatten_singleton, hfirst, hempty, Nat.zero_add,
      if_pos (show isSafeInteger n from Nat.lt_trans hmax hlimit)] at hlength
    exact hlength
  constructor
  · refine ⟨?_, ?_⟩
    · intro range chunks hrange hchunks
      cases hchunks
      rw [requested_of_lt (show initial.bytes.length < n by omega) (Nat.le_of_lt hmax) (by omega)] at hrange
      rw [← Option.some.inj hrange, List.flatten_singleton, hfirst]
      dsimp only
      omega
    · intro u hu
      refine ⟨?_, fun _ _ => trivial⟩
      have hsource : u.source.bytes.length = n := by
        rw [← Option.some.inj hu]
        exact hheld
      intro range chunks hrange hchunks
      cases hchunks
      have hrequested : requested size (n + 1) u.source = some (n, 2 * n - 1) := by
        rw [requested_of_lt (by omega) (Nat.succ_le_of_lt hmax) (by omega), hsource,
          doubled_target (by omega) hleast hsize]
      obtain rfl : (n, 2 * n - 1) = range := Option.some.inj (hrequested.symm.trans hrange)
      rw [List.flatten_singleton, hsecond]
      omega
  · rintro ⟨-, hrest⟩
    have hspares := (hrest _ rfl).1
    rw [Spares] at hspares
    dsimp only at hspares
    rw [hheld] at hspares
    have hwithin := hspares (Nat.lt_succ_self n) hmax (by omega)
    omega

end FileSource

/-- Both sources keep within the limit, in every state of a run, if and only if every call of it meets the
condition. -/
theorem throughout_bounded_iff (path : String) (size : Nat) (url : String)
    (es : List (Nat × Except String (List (List UInt8)))) (ds : List (Nat × Except String Response)) :
    ((FileSource.calls path size).Along (FileSource.Ranged size) ⟨.initial, []⟩ es →
      ((FileSource.calls path size).Throughout FileSource.Bounded es ↔
        (FileSource.calls path size).Along (FileSource.Spares size) ⟨.initial, []⟩ es)) ∧
    ((HttpSource.calls url).Throughout HttpSource.Bounded ds ↔
      (HttpSource.calls url).Along HttpSource.Spares .initial ds) := by
  constructor
  · intro hread
    exact (FileSource.along_spares_iff path size es hread).symm
  · exact (HttpSource.along_spares_iff url ds).symm

theorem throughout_bounded_smallFile :
    (FileSource.calls "model.gguf" 4).Throughout FileSource.Bounded [(2, .ok [[71, 71], [85, 70]])] := by
  have hread : (FileSource.calls "model.gguf" 4).Along (FileSource.Ranged 4) ⟨.initial, []⟩
      [(2, .ok [[71, 71], [85, 70]])] := by
    refine ⟨?_, fun _ _ => trivial⟩
    intro range chunks hrange hchunks
    cases hchunks
    obtain rfl : (0, 3) = range := Option.some.inj hrange
    decide
  apply ((throughout_bounded_iff "model.gguf" 4 "https://host/model.gguf" _ []).1 hread).mpr
  exact ⟨fun _ _ _ => .inr (by decide), fun _ _ => trivial⟩

/-- 300 MiB of a file of 1 GiB, and one byte more. -/
def pastHalf : List (Nat × Except String (List (List UInt8))) :=
  [(314572800, .ok [List.replicate 314572800 0]), (314572801, .ok [List.replicate 314572800 0])]

/-- The second read takes 300 MiB again, up to 600 MiB. A server may send more than the limit at once. -/
theorem not_throughout_bounded :
    ((FileSource.calls "model.gguf" 1073741824).Along (FileSource.Ranged 1073741824) ⟨.initial, []⟩ pastHalf ∧
      ¬ (FileSource.calls "model.gguf" 1073741824).Throughout FileSource.Bounded pastHalf) ∧
    ∃ r : Response, ¬ (HttpSource.calls "https://host/model.gguf").Throughout HttpSource.Bounded [(4, .ok r)] := by
  constructor
  · have hlength : (List.replicate 314572800 (0 : UInt8)).length = 314572800 := List.length_replicate
    obtain ⟨hread, hpast⟩ := FileSource.past_half "model.gguf" hlength hlength (by decide) (by decide)
      (by decide) (show 2 * 314572800 ≤ 1073741824 by decide)
    exact ⟨hread, fun h => hpast ((FileSource.along_spares_iff _ _ _ hread).mpr h)⟩
  · refine ⟨{
      status := 206, statusText := "Partial Content", contentRange := .other, contentLength := .absent
      body := [List.replicate (MAX_READ + 1) 0], broken := none }, ?_⟩
    rw [← HttpSource.along_spares_iff]
    rintro ⟨hspares, -⟩
    have hfits := (hspares rfl (by decide) (by decide) (fun size hsize => nomatch hsize)).2 _ rfl rfl rfl
    have hempty : HttpSource.initial.bytes.length = 0 := rfl
    rw [hempty, Nat.zero_add, List.flatten_singleton, List.length_replicate] at hfits
    exact absurd (hfits (by decide)) (Nat.not_succ_le_self _)

end LlmRuntime.Probe

import LlmRuntime.Base.Doubling
import LlmRuntime.Probe.Agreement

/-!
# How much is read

The sources grow their window as `Window.grow` does, so what they hold and how often they read is bounded by
what was asked for, however often it was.
-/

namespace LlmRuntime.Probe

open Gguf

/-- Calls of `ensure` that all succeed. -/
def Calls {σ : Type} (source : Source σ) : σ → List Nat → σ → Prop
  | s, [], t => s = t
  | s, stop :: rest, t => ∃ bytes u, source.ensure stop s = .ok bytes u ∧ Calls source u rest t

/-- A source that has a window of a file of `size` bytes. -/
structure Growing {σ : Type} (source : Source σ) (ok : σ → Prop) (window : σ → Window) (size : Nat) :
    Prop where
  ensure_grows : ∀ stop s bytes s', ok s → source.ensure stop s = .ok bytes s' →
    stop ≤ size ∧ ok s' ∧ window s' = (window s).grow FIRST_READ size stop

/-- The largest argument of the calls, zero if there is none. -/
def largest (stops : List Nat) : Nat := stops.foldr max 0

theorem le_largest {stop : Nat} {stops : List Nat} (h : stop ∈ stops) : stop ≤ largest stops := by
  induction stops with
  | nil => exact absurd h List.not_mem_nil
  | cons first rest ih =>
      rw [largest, List.foldr_cons]
      rcases List.mem_cons.mp h with heq | hrest
      · rw [heq]
        exact Nat.le_max_left _ _
      · exact Nat.le_trans (ih hrest) (Nat.le_max_right _ _)

theorem Growing.calls {σ : Type} {source : Source σ} {ok : σ → Prop} {window : σ → Window} {size : Nat}
    (h : Growing source ok window size) {stops : List Nat} {s t : σ} (hs : ok s)
    (hcalls : Calls source s stops t) :
    ok t ∧ (∀ stop ∈ stops, stop ≤ size) ∧ window t = (window s).growAll FIRST_READ size stops := by
  induction stops generalizing s with
  | nil =>
      rw [← show s = t from hcalls]
      exact ⟨hs, fun stop hstop => absurd hstop List.not_mem_nil, rfl⟩
  | cons stop rest ih =>
      obtain ⟨bytes, u, hensure, hrest⟩ := hcalls
      obtain ⟨hstop, hu, hwindow⟩ := h.ensure_grows stop s bytes u hs hensure
      obtain ⟨ht, hstops, hall⟩ := ih hu hrest
      refine ⟨ht, List.forall_mem_cons.mpr ⟨hstop, hstops⟩, ?_⟩
      rw [hall, hwindow]
      rfl

theorem Served.calls {σ : Type} {source : Source σ} {content previous : List UInt8} {stops : List Nat} {s : σ}
    (h : Served source content previous stops s) : ∃ t, Calls source s stops t := by
  induction stops generalizing previous s with
  | nil => exact ⟨s, rfl⟩
  | cons stop rest ih =>
      obtain ⟨bytes, u, hensure, -, -, -, hrest⟩ := h
      obtain ⟨t, hcalls⟩ := ih hrest
      exact ⟨t, bytes, u, hensure, hcalls⟩

/-- What is held and how often it was read for, against the file and the largest argument of the calls. -/
structure Geometric (size E held fetches : Nat) : Prop where
  held_le : held ≤ max FIRST_READ (2 * E)
  held_le_size : held ≤ size
  fetches_le : (fetches : ℝ) ≤ 2 + Real.logb 2 (max 1 ((E : ℝ) / FIRST_READ))

theorem Growing.geometric {σ : Type} {source : Source σ} {ok : σ → Prop} {window : σ → Window} {size : Nat}
    (h : Growing source ok window size) {stops : List Nat} {s t : σ} (hs : ok s)
    (hempty : window s = Window.empty) (hcalls : Calls source s stops t) :
    Geometric size (largest stops) (window t).held (window t).fetches := by
  obtain ⟨-, hstops, hwindow⟩ := h.calls hs hcalls
  have hdoubled : Window.Doubled FIRST_READ size (largest stops) (window t) := by
    rw [hwindow, hempty]
    apply Window.doubled_growAll stops
    · exact fun stop hstop => le_largest hstop
    · exact hstops
    · exact Window.doubled_empty _ _ _
  exact ⟨hdoubled.held_le, hdoubled.held_le_size, hdoubled.fetches_le (by decide)⟩

variable {file : File}

theorem length_take_prefix {bytes : Uint8Array} {t : Nat} (h : bytes.toList = file.content.take t) :
    bytes.length = min t file.content.length := by
  rw [← bytes.length_toList, h, List.length_take]

namespace FileSource

def window (s : FileSource) : Window := ⟨s.bytes.length, s.requests⟩

theorem growing (path : String) {disk : Nat → Nat → List (List UInt8)} (hdisk : Reads disk file) :
    Growing (source path file.content.length disk) (fun s => s.bytes.toList <+: file.content) window
      file.content.length where
  ensure_grows stop s bytes s' hs hensure := by
    have hle : s.bytes.length ≤ file.content.length := by
      rw [← s.bytes.length_toList]
      exact hs.length_le
    by_cases hlength : stop ≤ s.bytes.length
    · have heq : ensure path file.content.length disk stop s = .ok s.bytes s := by
        rw [ensure, EStateM.bind_get, if_pos hlength]
        rfl
      cases heq.symm.trans hensure
      exact ⟨Nat.le_trans hlength hle, hs, (Window.grow_of_le hlength).symm⟩
    have hlength : s.bytes.length < stop := Nat.not_le.mp hlength
    rcases (windowed path hdisk).ensure_cases stop s hs with ⟨-, e, s'', herror⟩ | ⟨s'', hok, hs'', hstop, -⟩
    · cases herror.symm.trans hensure
    cases hok.symm.trans hensure
    have hwithin : stop ≤ file.content.length := by
      apply Nat.le_trans hstop
      rw [← s'.bytes.length_toList]
      exact hs''.length_le
    have hmax : stop ≤ MAX_READ := by
      apply Nat.not_lt.mp
      intro hmax
      change ensure path file.content.length disk stop s = .ok s'.bytes s' at hensure
      rw [ensure, EStateM.bind_get, if_neg (Nat.not_le.mpr hlength), if_pos hmax] at hensure
      cases hensure
    obtain ⟨t, hok', hrequests, hbytes⟩ := ensure_reads path hdisk hs hlength hmax hwithin
    obtain rfl : t = s' := (EStateM.Result.ok.inj (hok'.symm.trans hensure)).2
    refine ⟨hwithin, hs'', ?_⟩
    have hheld := length_take_prefix hbytes
    rw [window, hrequests, hheld, Nat.min_assoc, Nat.min_self]
    exact (Window.grow_of_lt (w := window s) hlength).symm

end FileSource

namespace HttpSource

variable {server : Server}

def window (s : HttpSource) : Window := ⟨s.bytes.length, s.requests⟩

/-- Every request is answered. -/
structure Answered (file : File) (s : HttpSource) : Prop where
  ranging : Ranging file s
  requests_eq : s.ranges.length = s.requests

theorem growing (url : String) (hserver : server.HonoursRanges file) :
    Growing (source url server) (Answered file) window file.content.length where
  ensure_grows stop s bytes s' hs hensure := by
    change ensure url server stop s = .ok bytes s' at hensure
    have hle : s.bytes.length ≤ file.content.length := by
      rw [← s.bytes.length_toList]
      exact hs.ranging.isPrefix.length_le
    by_cases hlength : stop ≤ s.bytes.length
    · cases (ensure_of_le hlength).symm.trans hensure
      exact ⟨Nat.le_trans hlength hle, hs, (Window.grow_of_le hlength).symm⟩
    have hlength : s.bytes.length < stop := Nat.not_le.mp hlength
    have hmax : stop ≤ MAX_READ := by
      apply Nat.not_lt.mp
      intro hmax
      obtain ⟨e, herror⟩ := ensure_of_max url server hlength hmax
      cases herror.symm.trans hensure
    have htarget : ¬ target s stop < stop := by
      intro htarget
      obtain ⟨e, herror⟩ := ensure_of_target url server hlength htarget
      cases herror.symm.trans hensure
    have heq := ensure_eq url server hlength hmax htarget
    have hless : s.bytes.length < (target s stop).toNat := by omega
    rcases readOn_ranging url hserver hs.ranging hless with
      ⟨-, e, t, herror⟩ | ⟨t, hread, ht, hbytes, hone, hranges⟩
    · rw [herror, hensure] at heq
      cases heq
    rw [hread] at heq
    dsimp only at heq
    have hheld := length_take_prefix hbytes
    by_cases hshort : t.bytes.length < stop
    · rw [if_pos hshort, hensure] at heq
      cases heq
    rw [if_neg hshort, hensure] at heq
    cases heq
    refine ⟨by omega, ⟨ht, ?_⟩, ?_⟩
    · rw [hranges, hone, List.length_append, List.length_singleton, hs.requests_eq]
    · have htoNat : min (target s stop).toNat file.content.length =
          min (max (max stop FIRST_READ) (s.bytes.length * 2)) file.content.length := by
        rw [target]
        rcases hs.ranging.size_eq with hsize | hsize
        · rw [hsize, Int.toNat_natCast]
        · rw [hsize]
          dsimp only
          omega
      rw [window, hone, hheld, htoNat]
      exact (Window.grow_of_lt (w := window s) hlength).symm

theorem answered_initial (file : File) : Answered file initial := ⟨ranging_initial file, rfl⟩

end HttpSource

/-- Both sources are geometrically bounded, the local one and the remote one against a server that honours
ranges. Every request of the latter is answered, so `requests` counts them all. -/
theorem calls_geometric (file : File) (stops : List Nat) :
    (∀ path disk t, Reads disk file →
      Calls (FileSource.source path file.content.length disk) FileSource.initial stops t →
        Geometric file.content.length (largest stops) t.bytes.length t.requests) ∧
    ∀ url (server : Server) t, server.HonoursRanges file →
      Calls (HttpSource.source url server) HttpSource.initial stops t →
        t.ranges.length = t.requests ∧
          Geometric file.content.length (largest stops) t.bytes.length t.requests := by
  constructor
  · intro path disk t hdisk hcalls
    have hinitial : FileSource.initial.bytes.toList <+: file.content := List.nil_prefix
    exact (FileSource.growing path hdisk).geometric hinitial rfl hcalls
  · intro url server t hserver hcalls
    have hgrowing := HttpSource.growing url hserver
    have hinitial := HttpSource.answered_initial file
    exact ⟨(hgrowing.calls hinitial hcalls).1.requests_eq, hgrowing.geometric hinitial rfl hcalls⟩

/-- A file that takes more than the first two requests, and a server that honours ranges of it. -/
def zeros : File where
  content := List.replicate (3 * FIRST_READ) 0
  size_safe := by
    rw [List.length_replicate]
    decide

def zerosServer : Server where
  fetch _ first last := .ok {
    status := 206, statusText := "Partial Content", contentRange := .number (3 * FIRST_READ : Nat)
    contentLength := .absent, body := [zeros.content.segment first (last + 1)], broken := none }

theorem length_zeros : zeros.content.length = 3 * FIRST_READ := List.length_replicate

theorem zerosServer_honours : zerosServer.HonoursRanges zeros := by
  intro i first last
  refine ⟨_, rfl, .inl ⟨rfl, rfl, ?_, .inl ?_⟩⟩
  · rw [List.flatten_singleton]
  · rw [length_zeros]

/-- The second call doubles the window; the third one has what it asks for. -/
theorem calls_geometric_zeros : ∃ t : HttpSource, t.bytes.length = 2 * FIRST_READ ∧ t.requests = 2 ∧
    t.ranges.length = t.requests ∧ Geometric (3 * FIRST_READ) (FIRST_READ + 1) t.bytes.length t.requests := by
  have hends : ∀ stop ∈ [4, FIRST_READ + 1, 5], stop ≤ zeros.content.length ∧ stop ≤ MAX_READ := by
    rw [length_zeros]
    decide
  obtain ⟨t, hcalls⟩ := ((HttpSource.windowed_ranging "https://host/model.gguf" zerosServer_honours).served _
    HttpSource.initial (HttpSource.ranging_initial zeros) hends).calls
  have hwindow := ((HttpSource.growing _ zerosServer_honours).calls (HttpSource.answered_initial zeros) hcalls).2.2
  have hgrown : Window.growAll FIRST_READ (3 * FIRST_READ) [4, FIRST_READ + 1, 5] ⟨0, 0⟩ = ⟨2 * FIRST_READ, 2⟩ := rfl
  rw [length_zeros] at hwindow
  obtain ⟨hheld, hrequests⟩ := Window.mk.inj (hwindow.trans hgrown)
  obtain ⟨hranges, hgeometric⟩ := (calls_geometric zeros [4, FIRST_READ + 1, 5]).2 _ _ t zerosServer_honours hcalls
  rw [length_zeros] at hgeometric
  exact ⟨t, hheld, hrequests, hranges, hgeometric⟩

end LlmRuntime.Probe

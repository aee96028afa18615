import LlmRuntime.VirtualFile.Reading
import LlmRuntime.VirtualFile.Retrying

/-!
# At the end of the file and behind it

A read at a position that is not in the file is handled as any other. In the last chunk it copies what is
left of the chunk, which is less than nothing behind the end; behind the last chunk it loads an empty
range, which a file gives and a server refuses. So most of these reads give a negative number or make the
file unreadable; the exact positions that are read as the end of the file are `AtEnd`.
-/

namespace LlmRuntime.VirtualFile

open Transition List

/-- What `prepareModel` has the chunks from: a `File`, or a URL whose server supports ranges. -/
inductive SourceKind where
  | file
  | url
  deriving DecidableEq, Repr

/-- Nothing goes wrong in a step: the buffer is long enough, the cache gives back what was put, and the
bytes of the model are there. An empty range of a file is empty, and of a URL it is refused. -/
def Answered (f : File) (model : Bytes) (kind : SourceKind) (s : State) : Event → Prop
  | .read buffer offset length _ _ => offset + length ≤ buffer.length
  | .cacheResolved i data => Honest f model s (.cacheResolved i data)
  | .cacheRejected _ _ => False
  | .fetchResolved i bytes => ∀ load ∈ s.loads[i]?,
      if chunkPosition load.idx < f.size then
        bytes = model.segment (chunkPosition load.idx) (f.chunkEnd load.idx).toNat
      else kind = .file ∧ bytes = []
  | .fetchRejected i _ => ∀ load ∈ s.loads[i]?, f.size ≤ chunkPosition load.idx ∧ kind = .url
  | .preload slices ended => Honest f model s (.preload slices ended)
  | .reopen => True

def ReadsAt (allowed : Nat → Prop) : Event → Prop
  | .read _ _ _ position _ => allowed position
  | _ => True

/-- Where the code finds the end of the file. -/
def AtEnd (f : File) (kind : SourceKind) (position : Nat) : Prop :=
  (position = f.size ∧ f.size % CHUNK_MAX ≠ 0) ∨
    (f.size ≤ position ∧ kind = .file ∧ position % CHUNK_MAX = 0)

variable {f : File} {model : Bytes} {kind : SourceKind} {s t : State} {idx position : Nat}

theorem Answered.honest {e : Event} (h : Answered f model kind s e) : Honest f model s e := by
  cases e with
  | cacheResolved i data => exact h
  | preload slices ended => exact h
  | fetchResolved i bytes =>
      intro load hload hidx
      have hanswer := h load hload
      rwa [if_pos hidx] at hanswer
  | read | cacheRejected | fetchRejected | reopen => trivial

/-! ### What is loaded behind the end -/

/-- Nothing has gone wrong, and what is loaded of a chunk behind the end is empty. -/
structure Tail (f : File) (kind : SourceKind) (s : State) : Prop where
  remoteError : s.remoteError = none
  loads : ∀ load ∈ s.loads, f.size ≤ chunkPosition load.idx → kind = .file
  puts : ∀ idx bytes, f.size ≤ chunkPosition idx → (f.key idx, bytes) ∈ s.puts → bytes = []
  res : ∀ idx entry, f.size ≤ chunkPosition idx → s.waitingTable.get idx = some entry → entry.done = true →
    entry.res = some [] ∧ entry.length = 0

theorem Tail.initial (f : File) (kind : SourceKind) : Tail f kind .initial := by
  constructor <;> simp [State.initial]

/-- What is being read from, between two events. -/
structure Sound (f : File) (model : Bytes) (kind : SourceKind) (s : State) : Prop where
  inv : Inv s
  exact : Exact f model s
  tail : Tail f kind s

theorem Sound.initial (f : File) (model : Bytes) (kind : SourceKind) : Sound f model kind .initial :=
  ⟨.initial, .initial f model, .initial f kind⟩

/-- An entry that is done has its bytes. -/
theorem Sound.res (h : Sound f model kind s) {entry : Entry} (hget : s.waitingTable.get idx = some entry)
    (hdone : entry.done = true) : ∃ res, entry.res = some res := by
  by_cases hidx : chunkPosition idx < f.size
  · exact ⟨_, (h.exact.res idx entry hidx hget hdone).1⟩
  · exact ⟨_, (h.tail.res idx entry (Nat.not_lt.mp hidx) hget hdone).1⟩

variable {buffer : Bytes} {offset length : Nat} {now : Int}

/-- What is copied fits where `length` bytes do. -/
theorem overwrite_isSome (res : Bytes) (inner n : Nat) (hfits : offset + length ≤ buffer.length) :
    (buffer.overwrite offset (res.segment inner (inner + min (length : Int) (n - inner)).toNat)).isSome := by
  have hsegment := length_segment res inner (inner + min (length : Int) (n - inner)).toNat
  rw [overwrite, if_pos (by omega)]
  rfl

/-- A read throws nothing but the request to retry it. -/
theorem Sound.not_thrown (h : Sound f model kind s) (hfits : offset + length ≤ buffer.length) :
    (s.read buffer offset length position now).1 ≠ .thrown 28 := by
  intro hthrown
  rw [State.read, h.tail.remoteError] at hthrown
  split at hthrown
  · cases hthrown
  · rw [if_neg (by simp)] at hthrown
    dsimp only at hthrown
    split at hthrown
    · rename_i entry hget
      split at hthrown
      · cases hthrown
      · rename_i hdone
        obtain ⟨res, hres⟩ := h.res hget (by simpa using hdone)
        rw [hres] at hthrown
        dsimp only at hthrown
        split at hthrown
        · rename_i hnone
          have hsome := overwrite_isSome res (position % CHUNK_MAX) entry.length hfits
          rw [hnone] at hsome
          cases hsome
        · cases hthrown
    · cases hthrown

theorem Sound.reads {result : Result} (h : Sound f model kind s)
    (hallowed : position < f.size ∨ AtEnd f kind position) (hthrown : result ≠ .thrown 28)
    (hreads : Reads s buffer offset length position now result t) : Sound f model kind t := by
  refine ⟨h.inv.reads hreads, h.exact.reads hreads, ?_, ?_, ?_, ?_⟩
  · cases hreads with
    | failed | broken => exact absurd rfl hthrown
    | empty | waiting | hit | miss => exact h.tail.remoteError
  · intro load hload hidx
    cases hreads with
    | empty | failed | waiting | broken | hit => exact h.tail.loads load hload hidx
    | miss =>
        rw [mem_append, mem_singleton] at hload
        rcases hload with hload | rfl
        · exact h.tail.loads load hload hidx
        · have hinner := position_add_mod position
          dsimp only at hidx
          rcases hallowed with hlt | ⟨rfl, hrest⟩ | ⟨-, hkind, -⟩
          · omega
          · omega
          · exact hkind
  · rw [hreads.puts]
    exact h.tail.puts
  · intro idx entry hidx hget hdone
    obtain ⟨entry', hget', hdone', hres, hlength⟩ := hreads.served hget hdone
    rw [← hres, ← hlength]
    exact h.tail.res idx entry' hidx hget' hdone'

theorem Tail.setPhase (h : Tail f kind s) {i : Nat} {load : Load} (hload : s.loads[i]? = some load)
    (phase : Phase) : Tail f kind (s.setPhase i load phase) := by
  refine ⟨h.remoteError, fun load' hload' hidx => ?_, h.puts, h.res⟩
  rcases mem_setPhase hload' with hload' | rfl
  · exact h.loads load' hload' hidx
  · exact h.loads load (mem_of_getElem? hload) hidx

theorem Tail.resolve (h : Tail f kind s) (hinv : Inv s) {i : Nat} {load : Load}
    (hload : s.loads[i]? = some load) (hphase : load.phase ≠ .loaded) {bytes : Bytes}
    (hbytes : f.size ≤ chunkPosition load.idx → bytes = []) : Tail f kind (s.resolve i load bytes) := by
  obtain ⟨entry, hget, -, heq⟩ := hinv.resolve_eq hload hphase bytes
  have hphase' := h.setPhase hload .loaded
  rw [heq]
  refine ⟨h.remoteError, hphase'.loads, h.puts, fun idx entry' hidx hget' hdone' => ?_⟩
  dsimp only at hget'
  rw [JsMap.get_set] at hget'
  split at hget'
  · rename_i heq'
    subst heq'
    cases hget'
    rw [hbytes hidx]
    exact ⟨rfl, rfl⟩
  · exact h.res idx entry' hidx hget' hdone'

/-- A preload puts no chunk that starts behind the end. -/
theorem lt_of_preload {slices : List Bytes} {ended : Bool} {bytes : Bytes}
    (hslices : if ended then slices.flatten = model else slices.flatten <+: model)
    (hmem : (f.key idx, bytes) ∈ fetchWholeModelToCache f.fileId slices ended) :
    chunkPosition idx < model.length := by
  have hblock : ∀ n, n ≤ blockCount CHUNK_MAX slices.flatten.length →
      (f.key idx, bytes) ∈ (range n).map (blockPut f.fileId slices.flatten) →
      chunkPosition idx < slices.flatten.length := by
    intro n hn hmem
    obtain ⟨k, hk, hput⟩ := mem_map.mp hmem
    rw [blockPut, key_eq, Prod.mk.injEq] at hput
    rw [← chunkKey_inj hput.1]
    exact (lt_blockCount_iff CHUNK_MAX_pos).mp (Nat.lt_of_lt_of_le (mem_range.mp hk) hn)
  cases ended with
  | true =>
      rw [fetchWholeModelToCache_eq] at hmem
      rw [← (show slices.flatten = model from hslices)]
      exact hblock _ (Nat.le_refl _) hmem
  | false =>
      rw [fetchWholeModelToCache_failed] at hmem
      apply Nat.lt_of_lt_of_le (hblock _ _ hmem) (show slices.flatten <+: model from hslices).length_le
      rw [blockCount]
      exact Nat.div_le_div_right (by have hpos := CHUNK_MAX_pos; omega)

theorem Tail.step {e : Event} (hsize : f.size = model.length) (h : Sound f model kind s)
    (hanswered : Answered f model kind s e)
    (hallowed : ReadsAt (fun q => q < f.size ∨ AtEnd f kind q) e)
    (hstep : (virtualFile f).step s e = some t) : Tail f kind t := by
  cases e with
  | read buffer offset length position now =>
      cases hstep
      have hreads := read_reads s buffer offset length position now
      exact (h.reads hallowed (h.not_thrown hanswered) hreads).tail
  | cacheResolved i data =>
      simp only [virtualFile, State.step] at hstep
      split at hstep
      · rename_i idx hload
        cases data with
        | some bytes =>
            cases hstep
            apply h.tail.resolve h.inv hload (by simp)
            intro hidx
            exact h.tail.puts idx bytes hidx (hanswered ⟨idx, .getting⟩ hload)
        | none =>
            cases hstep
            exact h.tail.setPhase hload .fetching
      · cases hstep
  | fetchResolved i bytes =>
      simp only [virtualFile, State.step] at hstep
      split at hstep
      · rename_i idx hload
        cases hstep
        have hbytes : f.size ≤ chunkPosition idx → bytes = [] := by
          intro hidx
          have hanswer := hanswered _ hload
          rw [if_neg (Nat.not_lt.mpr hidx)] at hanswer
          exact hanswer.2
        have hput : Tail f kind (s.put (f.key idx) bytes) := by
          refine ⟨h.tail.remoteError, h.tail.loads, fun idx' bytes' hidx' hmem => ?_, h.tail.res⟩
          rw [State.put, mem_append, mem_singleton, Prod.mk.injEq] at hmem
          rcases hmem with hmem | ⟨hkey, rfl⟩
          · exact h.tail.puts idx' bytes' hidx' hmem
          · exact hbytes (key_inj hkey ▸ hidx')
        exact hput.resolve ⟨h.inv.unfinished, h.inv.failed⟩ hload (by simp) hbytes
      · cases hstep
  | cacheRejected i error => exact hanswered.elim
  | fetchRejected i error =>
      simp only [virtualFile, State.step] at hstep
      split at hstep
      · rename_i idx hload
        obtain ⟨hidx, hurl⟩ := hanswered _ hload
        have hfile := h.tail.loads _ (mem_of_getElem? hload) hidx
        rw [hurl] at hfile
        cases hfile
      · cases hstep
  | preload slices ended =>
      cases hstep
      refine ⟨h.tail.remoteError, h.tail.loads, fun idx bytes hidx hmem => ?_, h.tail.res⟩
      rw [mem_append] at hmem
      rcases hmem with hmem | hmem
      · exact h.tail.puts idx bytes hidx hmem
      · have hlt := lt_of_preload hanswered hmem
        omega
  | reopen =>
      cases hstep
      exact ⟨rfl, by simp [State.initial], h.tail.puts, by simp [State.initial]⟩

theorem Sound.step {e : Event} (hsize : f.size = model.length) (h : Sound f model kind s)
    (hanswered : Answered f model kind s e)
    (hallowed : ReadsAt (fun q => q < f.size ∨ AtEnd f kind q) e)
    (hstep : (virtualFile f).step s e = some t) : Sound f model kind t :=
  ⟨h.inv.step hstep, h.exact.step hsize hanswered.honest hstep, Tail.step hsize h hanswered hallowed hstep⟩

/-! ### What a read at the end gives -/

/-- What is wanted in a state: `position` is read as the end of the file, and the file can be read. -/
structure EndsAt (f : File) (model : Bytes) (position : Nat) (s : State) : Prop where
  remoteError : s.remoteError = none
  ends : ∀ buffer offset length now, 1 ≤ length → offset + length ≤ buffer.length →
    (s.read buffer offset length position now).1 = .thrown 6 ∨
      (s.read buffer offset length position now).1 = .returned 0 buffer
  readable : ∀ buffer offset length position' now, position' < f.size → 1 ≤ length →
    offset + length ≤ buffer.length → (s.read buffer offset length position' now).1 = .thrown 6 ∨
      ∃ n buffer', (s.read buffer offset length position' now).1 = .returned n buffer' ∧
        ReadsModel f model buffer offset length position' n buffer'

/-- How much is left of the chunk. -/
theorem Sound.rest (h : Sound f model kind s) (hsize : f.size = model.length) {entry : Entry}
    (hget : s.waitingTable.get (position / CHUNK_MAX) = some entry) (hdone : entry.done = true)
    (hend : AtEnd f kind position) : entry.length = position % CHUNK_MAX := by
  have hinner := position_add_mod position
  by_cases hidx : chunkPosition (position / CHUNK_MAX) < f.size
  · rcases hend with ⟨rfl, -⟩ | ⟨hle, -, hmod⟩
    · have hmod := Nat.mod_lt f.size CHUNK_MAX_pos
      rw [(h.exact.res _ entry hidx hget hdone).2, block, blockEnd, ← hsize,
        length_segment_of_le (by omega)]
      omega
    · omega
  · rcases hend with ⟨rfl, hrest⟩ | ⟨-, -, hmod⟩
    · omega
    · rw [(h.tail.res _ entry (Nat.not_lt.mp hidx) hget hdone).2, hmod]

theorem overwrite_nil (h : offset ≤ buffer.length) : buffer.overwrite offset [] = some buffer := by
  rw [overwrite, if_pos (by simpa using h)]
  simp

theorem Sound.endsAt (h : Sound f model kind s) (hsize : f.size = model.length)
    (hend : AtEnd f kind position) : EndsAt f model position s where
  remoteError := h.tail.remoteError
  ends buffer offset length now hlength hfits := by
    have hthrown : (s.read buffer offset length position now).1 ≠ .thrown 28 := h.not_thrown hfits
    have hreads := read_reads s buffer offset length position now
    generalize (s.read buffer offset length position now).1 = result at hthrown hreads
    generalize (s.read buffer offset length position now).2 = t at hreads
    cases hreads with
    | empty => exact .inr rfl
    | waiting | miss => exact .inl rfl
    | failed | broken => exact absurd rfl hthrown
    | hit _ herror entry res buffer' hget hdone hres hcopy =>
        right
        rw [h.rest hsize hget hdone hend] at hcopy ⊢
        have hzero : min (length : Int) ((position % CHUNK_MAX : Nat) - (position % CHUNK_MAX : Nat)) = 0 := by
          omega
        rw [hzero, segment_of_le (by omega), overwrite_nil (by omega)] at hcopy
        rw [hzero, Option.some.inj hcopy]
  readable buffer offset length position' now hposition hlength hfits := by
    have hthrown : (s.read buffer offset length position' now).1 ≠ .thrown 28 := h.not_thrown hfits
    have hreads := read_reads s buffer offset length position' now
    have hmodel : ∀ n buffer', (s.read buffer offset length position' now).1 = .returned n buffer' →
        ReadsModel f model buffer offset length position' n buffer' :=
      fun n buffer' hread => h.exact.read hsize hposition hlength hread
    generalize (s.read buffer offset length position' now).1 = result at hthrown hreads hmodel
    generalize (s.read buffer offset length position' now).2 = t at hreads
    cases hreads with
    | empty hzero => exact absurd hzero (Nat.ne_of_gt hlength)
    | waiting | miss => exact .inl rfl
    | failed | broken => exact absurd rfl hthrown
    | hit => exact .inr ⟨_, _, rfl, hmodel _ _ rfl⟩

/-! ### What the other reads give -/

/-- One load, from a read at `position` on, up to its answer. -/
def loading (position : Nat) (answer : Event) : List Event :=
  [.read [0] 0 1 position 10, .cacheResolved 0 none, answer]

theorem run_loading (f : File) (position : Nat) (bytes : Bytes) : ∃ s,
    (virtualFile f).run .initial (loading position (.fetchResolved 0 bytes)) = some s ∧
      s.remoteError = none ∧
      s.waitingTable.get (position / CHUNK_MAX) = some ⟨some bytes, true, bytes.length, 10⟩ := by
  simp [loading, Transition.run, virtualFile, State.step, State.read, State.initial, State.setPhase,
    State.resolve, State.put]

theorem run_refused (f : File) (position : Nat) : ∃ s,
    (virtualFile f).run .initial (loading position (.fetchRejected 0 "HTTP 416")) = some s ∧
      s.remoteError = some "HTTP 416" := by
  simp [loading, Transition.run, virtualFile, State.step, State.read, State.initial, State.setPhase,
    State.reject]

/-- The events that a run may have in which nothing goes wrong, and reads at `position` as well as in the
file and at its end. -/
def Allowed (f : File) (model : Bytes) (kind : SourceKind) (position : Nat) (s : State) (e : Event) : Prop :=
  Answered f model kind s e ∧ ReadsAt (fun q => q < f.size ∨ AtEnd f kind q ∨ q = position) e

theorem along_loading {answer : Event}
    (hanswer : ∀ s, s.loads[0]? = some ⟨position / CHUNK_MAX, .fetching⟩ →
      Allowed f model kind position s answer) :
    (virtualFile f).Along (Allowed f model kind position) .initial (loading position answer) := by
  refine ⟨⟨Nat.le_refl 1, .inr (.inr rfl)⟩, fun s hs => ⟨⟨trivial, trivial⟩, fun t ht => ⟨?_, ?_⟩⟩⟩
  · apply hanswer
    simp [virtualFile, State.step, State.read, State.initial] at hs
    subst hs
    simp [virtualFile, State.step, State.setPhase] at ht
    subst ht
    rfl
  · intro u _
    trivial

/-- The bytes that the chunk of `position` is loaded with. -/
def loaded (f : File) (model : Bytes) (position : Nat) : Bytes :=
  if chunkPosition (position / CHUNK_MAX) < f.size then block model (position / CHUNK_MAX) else []

theorem answered_loaded (hsize : f.size = model.length)
    (hkind : f.size ≤ chunkPosition (position / CHUNK_MAX) → kind = .file)
    (hload : s.loads[0]? = some ⟨position / CHUNK_MAX, .fetching⟩) :
    Allowed f model kind position s (.fetchResolved 0 (loaded f model position)) := by
  refine ⟨?_, trivial⟩
  intro load hload'
  obtain rfl : ⟨position / CHUNK_MAX, .fetching⟩ = load := Option.some.inj (hload.symm.trans hload')
  rw [loaded]
  split
  · rw [chunkEnd_eq, Int.toNat_natCast, block, hsize]
  · rename_i hidx
    exact ⟨hkind (Nat.not_lt.mp hidx), rfl⟩

theorem allowed_refused (error : String) (hidx : f.size ≤ chunkPosition (position / CHUNK_MAX))
    (hload : s.loads[0]? = some ⟨position / CHUNK_MAX, .fetching⟩) :
    Allowed f model .url position s (.fetchRejected 0 error) := by
  refine ⟨fun load hload' => ?_, trivial⟩
  obtain rfl : ⟨position / CHUNK_MAX, .fetching⟩ = load := Option.some.inj (hload.symm.trans hload')
  exact ⟨hidx, rfl⟩

/-- A chunk that is loaded with as much as there is before `position` ends there. -/
theorem atEnd_of_loaded (hsize : f.size = model.length)
    (hkind : f.size ≤ chunkPosition (position / CHUNK_MAX) → kind = .file) (hposition : f.size ≤ position)
    (hlength : (loaded f model position).length = position % CHUNK_MAX) : AtEnd f kind position := by
  have hinner := position_add_mod position
  have hmod := Nat.mod_lt position CHUNK_MAX_pos
  rw [loaded] at hlength
  split at hlength
  · rename_i hidx
    left
    rw [block, blockEnd, ← hsize, length_segment_of_le (by omega)] at hlength
    have heq : position = f.size := by omega
    rw [← heq]
    exact ⟨rfl, by omega⟩
  · rename_i hidx
    exact .inr ⟨hposition, hkind (Nat.not_lt.mp hidx), hlength.symm⟩

/-- Every run in which nothing goes wrong finds the end of the file at `position` if and only if that is
where a last chunk that is not full ends, or a multiple of the chunk size behind the end of a `File`. -/
theorem past_end_iff (f : File) (model : Bytes) (kind : SourceKind) (position : Nat)
    (hsize : f.size = model.length) (hposition : f.size ≤ position) :
    (∀ es s, (virtualFile f).Along (Allowed f model kind position) .initial es →
      (virtualFile f).run .initial es = some s → EndsAt f model position s) ↔ AtEnd f kind position := by
  constructor
  · intro h
    by_cases hkind : f.size ≤ chunkPosition (position / CHUNK_MAX) → kind = .file
    · obtain ⟨s, hrun, herror, hget⟩ := run_loading f position (loaded f model position)
      have halong : (virtualFile f).Along (Allowed f model kind position) .initial
          (loading position (.fetchResolved 0 (loaded f model position))) :=
        along_loading fun s hs => answered_loaded hsize hkind hs
      have hends := (h _ s halong hrun).ends [0] 0 1 11 (Nat.le_refl 1) (Nat.le_refl 1)
      have hreads := read_reads s [0] 0 1 position 11
      generalize (s.read [0] 0 1 position 11).1 = result at hends hreads
      generalize (s.read [0] 0 1 position 11).2 = t at hreads
      cases hreads with
      | empty hzero => cases hzero
      | failed | broken => simp at hends
      | waiting _ _ entry hget' hdone =>
          cases hget.symm.trans hget'
          cases hdone
      | miss _ _ hnone => cases hget.symm.trans hnone
      | hit _ _ entry res buffer' hget' =>
          cases hget.symm.trans hget'
          rcases hends with hends | hends
          · cases hends
          · rw [Result.returned.injEq] at hends
            dsimp only at hends
            exact atEnd_of_loaded hsize hkind hposition (by omega)
    · obtain ⟨hidx, hfile⟩ := Classical.not_imp.mp hkind
      obtain rfl : kind = .url := by
        cases kind with
        | file => exact absurd rfl hfile
        | url => rfl
      obtain ⟨s, hrun, herror⟩ := run_refused f position
      have halong : (virtualFile f).Along (Allowed f model .url position) .initial
          (loading position (.fetchRejected 0 "HTTP 416")) :=
        along_loading fun s hs => allowed_refused _ hidx hs
      have hnone := (h _ s halong hrun).remoteError
      rw [herror] at hnone
      cases hnone
  · intro hend es s halong hrun
    have hsound : Sound f model kind s := by
      apply run_keeps_along (C := Allowed f model kind position) _ (Sound.initial f model kind) halong hrun
      intro s e t hs hallowed hstep
      apply hs.step hsize hallowed.1 _ hstep
      cases e with
      | read buffer offset length q now =>
          rcases hallowed.2 with hlt | hat | rfl
          · exact .inl hlt
          · exact .inr hat
          · exact .inr hend
      | cacheResolved | cacheRejected | fetchResolved | fetchRejected | preload | reopen => trivial
    exact hsound.endsAt hsize hend

theorem past_end_three : ∃ s,
    (virtualFile ⟨"m", 3⟩).run .initial (loading 3 (.fetchResolved 0 [1, 2, 3])) = some s ∧
      EndsAt ⟨"m", 3⟩ [1, 2, 3] 3 s := by
  have hend : AtEnd ⟨"m", 3⟩ .url 3 := .inl (by decide)
  have hiff := past_end_iff ⟨"m", 3⟩ [1, 2, 3] .url 3 rfl (by decide)
  obtain ⟨s, hs⟩ : ∃ s, (virtualFile ⟨"m", 3⟩).run .initial (loading 3 (.fetchResolved 0 [1, 2, 3])) = some s :=
    ⟨_, rfl⟩
  refine ⟨s, hs, hiff.mpr hend _ s ?_ hs⟩
  exact along_loading fun t ht => answered_loaded rfl (fun h => absurd h (by decide)) ht

/-- A model of one full chunk, read up to its end and once more: the server refuses the empty range, and
the model can no longer be read. A read two bytes behind the end of a `File` of three bytes gives `-2`. -/
theorem not_ended_behind_end :
    (∃ s, (virtualFile ⟨"m", CHUNK_MAX⟩).run .initial
        (loading CHUNK_MAX (.fetchRejected 0 "HTTP 416")) = some s ∧
      (virtualFile ⟨"m", CHUNK_MAX⟩).Along
        (Allowed ⟨"m", CHUNK_MAX⟩ (replicate CHUNK_MAX 0) .url CHUNK_MAX) .initial
        (loading CHUNK_MAX (.fetchRejected 0 "HTTP 416")) ∧
      (s.read [0] 0 1 0 12).1 = .thrown 28 ∧
      ¬ EndsAt ⟨"m", CHUNK_MAX⟩ (replicate CHUNK_MAX 0) CHUNK_MAX s) ∧
    ∃ s, (virtualFile ⟨"m", 3⟩).run .initial (loading 5 (.fetchResolved 0 [1, 2, 3])) = some s ∧
      (virtualFile ⟨"m", 3⟩).Along (Allowed ⟨"m", 3⟩ [1, 2, 3] .file 5) .initial
        (loading 5 (.fetchResolved 0 [1, 2, 3])) ∧
      (s.read [0] 0 1 5 11).1 = .returned (-2) [0] := by
  constructor
  · refine ⟨_, rfl, ?_, by decide, fun h => absurd h.remoteError (by decide)⟩
    exact along_loading fun s hs => allowed_refused _ (by decide) hs
  · refine ⟨_, rfl, ?_, by decide⟩
    exact along_loading fun s hs => answered_loaded rfl (fun h => absurd h (by decide)) hs

end LlmRuntime.VirtualFile

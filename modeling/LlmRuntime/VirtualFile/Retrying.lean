import LlmRuntime.VirtualFile.Table

/-!
# Retrying a read

The caller of `read` retries as long as it is told to. There is always a load for it to wait for, and if
it reads nothing else meanwhile the table stays small.
-/

namespace LlmRuntime.VirtualFile

open Transition

/-- What holds of the table whenever the Runtime looks at it. -/
structure Consistent (s : State) : Prop where
  /-- One load is under way for a chunk with an entry that is not done, and none for another chunk. -/
  unfinished : ∀ idx, s.unfinished idx = if s.Pending idx then 1 else 0
  /-- No read removes an entry that is not done. -/
  kept : ∀ idx buffer offset length position now, s.Pending idx →
    (s.read buffer offset length position now).2.Pending idx
  /-- A completing load does not turn into an error. -/
  completes : ∀ (i : Nat) (load : Load) (bytes : Bytes), s.loads[i]? = some load → load.phase ≠ .loaded →
    (s.resolve i load bytes).remoteError = s.remoteError
  retry : ∀ buffer offset length position now,
    (s.read buffer offset length position now).1 = .thrown 6 →
      (s.read buffer offset length position now).2.Outstanding (position / CHUNK_MAX)
  failed : (∃ load ∈ s.loads, load.phase = .failed) → ∀ buffer offset length position now, 0 < length →
    (s.read buffer offset length position now).1 = .thrown 28

variable {f : File} {s t : State}

theorem Inv.consistent (hinv : Inv s) : Consistent s where
  unfinished := hinv.unfinished
  kept idx buffer offset length position now := (read_reads s buffer offset length position now).pending
  completes i load bytes hload hphase := by
    obtain ⟨entry, -, -, heq⟩ := hinv.resolve_eq hload hphase bytes
    rw [heq]
    rfl
  retry buffer offset length position now hretry := by
    have hreads := read_reads s buffer offset length position now
    rw [hretry] at hreads
    exact hreads.outstanding hinv
  failed hfailed buffer offset length position now hlength := by
    obtain ⟨load, hload, hphase⟩ := hfailed
    exact (read_reads s buffer offset length position now).of_failed hlength (hinv.failed load hload hphase)

/-! ### The size of the table -/

/-- A caller that retries: `retry` is the position of a read that has not succeeded yet. -/
structure Caller where
  state : State
  retry : Option Nat

def Caller.step (f : File) (c : Caller) : Event → Option Caller
  | .read buffer offset length position now =>
      if length = 0 then some c
      else if c.retry = none ∨ c.retry = some position then
        let (result, state) := c.state.read buffer offset length position now
        some ⟨state, if result = .thrown 6 then some position else none⟩
      else none
  | .reopen => (State.step f c.state .reopen).map fun state => ⟨state, none⟩
  | e => (State.step f c.state e).map fun state => ⟨state, c.retry⟩

/-- The virtual file under a caller that reads nothing else before a read that it retries has succeeded. -/
def retrying (f : File) : Transition Caller Event where
  start := ⟨.initial, none⟩
  step := Caller.step f

theorem length_evict {table : JsMap Nat Entry} {key : Nat} {entry : Entry}
    (hlength : table.keys.length ≤ maxEntries + 1) (hget : table.get key = some entry)
    (hdone : entry.done = true) : (evict table).keys.length ≤ maxEntries := by
  unfold evict
  split
  · split
    · rename_i hnone
      exact absurd hnone (oldest_ne_none hget hdone)
    · rename_i key' hkey'
      obtain ⟨entry', hget', -⟩ := oldest_done hkey'
      have hmem : key' ∈ table.keys := by
        rw [JsMap.mem_keys_iff, hget']
        rfl
      rw [JsMap.keys_delete, List.length_erase_of_mem hmem]
      omega
  · omega

/-- The table is full only while the caller waits for the chunk that filled it. -/
structure Bounded (c : Caller) : Prop where
  le : c.state.waitingTable.keys.length ≤ maxEntries + 1
  idle : c.retry = none → c.state.waitingTable.keys.length ≤ maxEntries ∨ c.state.remoteError.isSome
  waiting : ∀ position, c.retry = some position →
    (c.state.waitingTable.get (position / CHUNK_MAX)).isSome

variable {c d : Caller}

theorem Bounded.initial : Bounded ⟨.initial, none⟩ := by
  constructor <;> simp [State.initial, JsMap.keys, JsMap.empty]

theorem Bounded.read {buffer : Bytes} {offset length position : Nat} {now : Int} {result : Result}
    (hbounded : Bounded c) (hlength : 0 < length) (hturn : c.retry = none ∨ c.retry = some position)
    (h : Reads c.state buffer offset length position now result t) :
    Bounded ⟨t, if result = .thrown 6 then some position else none⟩ := by
  cases h with
  | empty hzero => exact absurd hzero (Nat.ne_of_gt hlength)
  | failed _ herror => exact ⟨hbounded.le, fun _ => .inr herror, by simp⟩
  | waiting _ herror entry hget hdone =>
      refine ⟨hbounded.le, by simp, ?_⟩
      intro position' h
      simp only [if_true, Option.some.injEq] at h
      simp [← h, hget]
  | broken _ herror error hget => exact ⟨hbounded.le, fun _ => .inr rfl, by simp⟩
  | hit _ herror entry res buffer' hget hdone hres hcopy =>
      have hset := JsMap.keys_set_of_get (Option.isSome_of_mem hget) { entry with lastUsed := now }
      have hget' := JsMap.get_set_self c.state.waitingTable (position / CHUNK_MAX)
        { entry with lastUsed := now }
      have hle := length_evict (hset ▸ hbounded.le) hget' hdone
      exact ⟨Nat.le_succ_of_le hle, fun _ => .inl hle, by simp⟩
  | miss _ herror hget =>
      have hidle : c.retry = none := by
        refine hturn.resolve_right fun hretry => ?_
        have hsome := hbounded.waiting position hretry
        simp [hget] at hsome
      have hle := (hbounded.idle hidle).resolve_right (by simp [herror])
      refine ⟨?_, by simp, ?_⟩
      · rw [JsMap.keys_set]
        split
        · omega
        · rw [List.length_append, List.length_singleton]
          omega
      · intro position' h
        simp only [if_true, Option.some.injEq] at h
        simp [← h]

/-- What happens while the caller waits takes no chunk out of the table and adds none. -/
structure Settles (s t : State) : Prop where
  keys : t.waitingTable.keys = s.waitingTable.keys
  error : s.remoteError.isSome → t.remoteError.isSome

theorem settles_reject (s : State) (i : Nat) (load : Load) (error : String) :
    Settles s (s.reject i load error) :=
  ⟨rfl, fun _ => rfl⟩

theorem settles_resolve (s : State) (i : Nat) (load : Load) (bytes : Bytes) :
    Settles s (s.resolve i load bytes) := by
  unfold State.resolve
  split
  · exact settles_reject s i load _
  · rename_i entry hget
    exact ⟨JsMap.keys_set_of_get (Option.isSome_of_mem hget) _, id⟩

theorem step_settles {e : Event} (hstep : State.step f s e = some t)
    (hread : ∀ buffer offset length position now, e ≠ .read buffer offset length position now)
    (hreopen : e ≠ .reopen) : Settles s t := by
  cases e with
  | read buffer offset length position now => exact absurd rfl (hread _ _ _ _ _)
  | reopen => exact absurd rfl hreopen
  | preload slices ended =>
      cases hstep
      exact ⟨rfl, id⟩
  | cacheResolved i data =>
      simp only [State.step] at hstep
      split at hstep
      · split at hstep
        · cases hstep
          exact settles_resolve _ _ _ _
        · cases hstep
          exact ⟨rfl, id⟩
      · cases hstep
  | fetchResolved i bytes =>
      simp only [State.step] at hstep
      split at hstep
      · rename_i idx hload
        cases hstep
        have hsettles := settles_resolve (s.put (f.key idx) bytes) i ⟨idx, .fetching⟩ bytes
        exact ⟨hsettles.keys, hsettles.error⟩
      · cases hstep
  | cacheRejected i error | fetchRejected i error =>
      simp only [State.step] at hstep
      split at hstep
      · cases hstep
        exact settles_reject _ _ _ _
      · cases hstep

theorem Bounded.settles (hbounded : Bounded c) (h : Settles c.state t) : Bounded ⟨t, c.retry⟩ := by
  constructor
  · rw [h.keys]
    exact hbounded.le
  · intro hidle
    rw [h.keys]
    exact (hbounded.idle hidle).imp_right h.error
  · intro position hretry
    rw [← JsMap.mem_keys_iff, h.keys, JsMap.mem_keys_iff]
    exact hbounded.waiting position hretry

theorem Bounded.step {e : Event} (hbounded : Bounded c) (hstep : (retrying f).step c e = some d) : Bounded d := by
  have hother : (∀ buffer offset length position now, e ≠ .read buffer offset length position now) →
      e ≠ .reopen → (State.step f c.state e).map (fun state => ⟨state, c.retry⟩) = some d → Bounded d := by
    intro hread hreopen h
    rw [Option.map_eq_some_iff] at h
    obtain ⟨t, ht, rfl⟩ := h
    exact hbounded.settles (step_settles ht hread hreopen)
  cases e with
  | read buffer offset length position now =>
      simp only [retrying, Caller.step] at hstep
      split at hstep
      · cases hstep
        exact hbounded
      · rename_i hlength
        split at hstep
        · rename_i hturn
          cases hstep
          exact hbounded.read (Nat.pos_of_ne_zero hlength) hturn
            (read_reads c.state buffer offset length position now)
        · cases hstep
  | reopen =>
      cases hstep
      exact ⟨Bounded.initial.le, fun _ => .inl (Nat.zero_le _), by simp⟩
  | cacheResolved | cacheRejected | fetchResolved | fetchRejected | preload =>
      exact hother (by simp) (by simp) hstep

/-- **The chunk table.** It agrees with the loads under way, a read is told to retry only if there is
something to wait for, and a caller that sticks to a position until it is read keeps the table small. -/
theorem chunk_table (f : File) : (∀ s, (virtualFile f).Reachable s → Consistent s) ∧
    ∀ c, (retrying f).Reachable c → c.state.waitingTable.keys.length ≤ maxEntries + 1 := by
  constructor
  · intro s hs
    exact (inv_of_reachable hs).consistent
  · intro c hc
    have hbounded : Bounded c := hc.keeps .initial fun _ _ _ h => h.step
    exact hbounded.le

/-- A read that waits for its chunk, its retry, and a read of the next chunk. -/
def twoChunks : List Event :=
  [.read [0, 0] 0 2 1 10, .read [0, 0] 0 2 1 11, .cacheResolved 0 none, .fetchResolved 0 [5, 6, 7],
    .read [0, 0] 0 2 1 12, .read [0, 0] 0 2 CHUNK_MAX 13]

theorem chunk_table_twoChunks : ∃ s c,
    (virtualFile ⟨"m", CHUNK_MAX + 1⟩).run .initial twoChunks = some s ∧
      (retrying ⟨"m", CHUNK_MAX + 1⟩).run ⟨.initial, none⟩ twoChunks = some c ∧
        Consistent s ∧ c.state.waitingTable.keys.length ≤ maxEntries + 1 := by
  obtain ⟨s, hs⟩ : ∃ s, (virtualFile ⟨"m", CHUNK_MAX + 1⟩).run .initial twoChunks = some s :=
    Option.isSome_iff_exists.mp (by decide)
  obtain ⟨c, hc⟩ : ∃ c, (retrying ⟨"m", CHUNK_MAX + 1⟩).run ⟨.initial, none⟩ twoChunks = some c :=
    Option.isSome_iff_exists.mp (by decide)
  exact ⟨s, c, hs, hc, (chunk_table _).1 s ⟨twoChunks, hs⟩, (chunk_table _).2 c ⟨twoChunks, hc⟩⟩

end LlmRuntime.VirtualFile

import LlmRuntime.VirtualFile.Model

/-!
# The chunk table

What a read can do is listed once, in `Reads`. Everything about the table follows from it and from
`unfinished`: there is one load under way for each entry that is not done, and none for the others.
-/

namespace LlmRuntime.VirtualFile

open Transition

/-- The outcomes of `read`. -/
inductive Reads (s : State) (buffer : Bytes) (offset length position : Nat) (now : Int) :
    Result → State → Prop where
  | empty (hlength : length = 0) : Reads s buffer offset length position now (.returned 0 buffer) s
  | failed (hlength : 0 < length) (herror : s.remoteError.isSome) :
      Reads s buffer offset length position now (.thrown 28) s
  | waiting (hlength : 0 < length) (herror : s.remoteError = none) (entry : Entry)
      (hget : s.waitingTable.get (position / CHUNK_MAX) = some entry) (hdone : entry.done = false) :
      Reads s buffer offset length position now (.thrown 6) s
  | broken (hlength : 0 < length) (herror : s.remoteError = none) (error : String)
      (hget : (s.waitingTable.get (position / CHUNK_MAX)).isSome) :
      Reads s buffer offset length position now (.thrown 28) { s with remoteError := some error }
  | hit (hlength : 0 < length) (herror : s.remoteError = none) (entry : Entry) (res buffer' : Bytes)
      (hget : s.waitingTable.get (position / CHUNK_MAX) = some entry) (hdone : entry.done = true)
      (hres : entry.res = some res)
      (hcopy : buffer.overwrite offset (res.segment (position % CHUNK_MAX) ((position % CHUNK_MAX : Nat) +
        min (length : Int) (entry.length - (position % CHUNK_MAX : Nat))).toNat) = some buffer') :
      Reads s buffer offset length position now
        (.returned (min (length : Int) (entry.length - (position % CHUNK_MAX : Nat))) buffer')
        { s with
          waitingTable :=
            evict (s.waitingTable.set (position / CHUNK_MAX) { entry with lastUsed := now }) }
  | miss (hlength : 0 < length) (herror : s.remoteError = none)
      (hget : s.waitingTable.get (position / CHUNK_MAX) = none) :
      Reads s buffer offset length position now (.thrown 6)
        { s with
          waitingTable := s.waitingTable.set (position / CHUNK_MAX) ⟨none, false, 0, now⟩
          loads := s.loads ++ [⟨position / CHUNK_MAX, .getting⟩] }

theorem read_reads (s : State) (buffer : Bytes) (offset length position : Nat) (now : Int) :
    Reads s buffer offset length position now (s.read buffer offset length position now).1
      (s.read buffer offset length position now).2 := by
  unfold State.read
  split
  · rename_i hlength
    exact .empty hlength
  · rename_i hlength
    have hpos : 0 < length := Nat.pos_of_ne_zero hlength
    split
    · rename_i herror
      exact .failed hpos herror
    · rename_i herror
      have hnone : s.remoteError = none := by simpa using herror
      dsimp only
      cases hget : s.waitingTable.get (position / CHUNK_MAX) with
      | none => exact .miss hpos hnone hget
      | some entry =>
          dsimp only
          split
          · rename_i hdone
            exact .waiting hpos hnone entry hget (by simpa using hdone)
          · rename_i hdone
            cases hres : entry.res with
            | none => exact .broken hpos hnone _ (by simp [hget])
            | some res =>
                dsimp only
                split
                · exact .broken hpos hnone _ (by simp [hget])
                · rename_i buffer' hcopy
                  have hhit : Reads s buffer offset length position now _ _ :=
                    .hit hpos hnone entry res buffer' hget (by simpa using hdone) hres hcopy
                  rwa [hres] at hhit

/-! ### Eviction -/

variable {table : JsMap Nat Entry} {key idx : Nat} {entry : Entry}

/-- What the `for` loop has found so far is a chunk that is done. -/
theorem foldl_older_done (keys : List Nat) (best : Option Nat)
    (hbest : ∀ key, best = some key → ∃ entry, table.get key = some entry ∧ entry.done = true) :
    ∀ key, keys.foldl (older table) best = some key → ∃ entry, table.get key = some entry ∧ entry.done = true := by
  induction keys generalizing best with
  | nil => exact hbest
  | cons key keys ih =>
      rw [List.foldl_cons]
      refine ih _ fun key' hkey' => ?_
      unfold older at hkey'
      cases hget : table.get key with
      | none =>
          rw [hget] at hkey'
          exact hbest key' hkey'
      | some entry =>
          simp only [hget] at hkey'
          split at hkey'
          · exact hbest key' hkey'
          · rename_i hdone
            have hnew : some key = some key' → ∃ entry, table.get key' = some entry ∧ entry.done = true := by
              intro h
              cases h
              exact ⟨entry, hget, by simpa using hdone⟩
            split at hkey'
            · exact hnew hkey'
            · split at hkey'
              · exact hnew hkey'
              · exact hbest key' hkey'

theorem oldest_done (h : oldest table = some key) : ∃ entry, table.get key = some entry ∧ entry.done = true :=
  foldl_older_done _ none (by simp) key h

theorem older_ne_none (best : Option Nat) (hbest : best ≠ none) : older table best key ≠ none := by
  unfold older
  repeat' split
  all_goals first | exact hbest | simp

theorem older_of_done (best : Option Nat) (hget : table.get key = some entry) (hdone : entry.done = true) :
    older table best key ≠ none := by
  by_cases hbest : best = none
  · simp [older, hget, hdone, hbest]
  · exact older_ne_none best hbest

theorem foldl_older_ne_none (keys : List Nat) (best : Option Nat) (hget : table.get key = some entry)
    (hdone : entry.done = true) (h : best ≠ none ∨ key ∈ keys) : keys.foldl (older table) best ≠ none := by
  induction keys generalizing best with
  | nil => exact h.resolve_right (by simp)
  | cons key' keys ih =>
      rw [List.foldl_cons]
      apply ih
      rcases h with hbest | hmem
      · exact .inl (older_ne_none best hbest)
      · rw [List.mem_cons] at hmem
        rcases hmem with rfl | hmem
        · exact .inl (older_of_done best hget hdone)
        · exact .inr hmem

theorem oldest_ne_none (hget : table.get key = some entry) (hdone : entry.done = true) : oldest table ≠ none := by
  refine foldl_older_ne_none _ none hget hdone (.inr ?_)
  rw [List.mem_insertionSort, JsMap.mem_keys_iff, hget]
  rfl

theorem get_evict (table : JsMap Nat Entry) (idx : Nat) : (evict table).get idx = table.get idx ∨
    (evict table).get idx = none ∧ ∃ entry, table.get idx = some entry ∧ entry.done = true := by
  unfold evict
  split
  · split
    · exact .inl rfl
    · rename_i key hkey
      by_cases hidx : idx = key
      · subst hidx
        exact .inr ⟨JsMap.get_delete_self _ _, oldest_done hkey⟩
      · exact .inl (JsMap.get_delete_of_ne _ hidx)
  · exact .inl rfl

/-! ### One load for each chunk that is not done -/

/-- The chunk has an entry that is not done. -/
def State.Pending (s : State) (idx : Nat) : Prop := (s.waitingTable.get idx).map Entry.done = some false

instance (s : State) (idx : Nat) : Decidable (s.Pending idx) := inferInstanceAs (Decidable (_ = _))

def Load.Unfinished (idx : Nat) (load : Load) : Prop := load.idx = idx ∧ load.phase ≠ .loaded

instance (idx : Nat) : DecidablePred (Load.Unfinished idx) := fun _ => inferInstanceAs (Decidable (_ ∧ _))

/-- How many loads of the chunk have not completed successfully. -/
def State.unfinished (s : State) (idx : Nat) : Nat := s.loads.countP (Load.Unfinished idx)

/-- A load of the chunk that the cache or the network has still to answer. -/
def State.Outstanding (s : State) (idx : Nat) : Prop :=
  ∃ load ∈ s.loads, load.idx = idx ∧ (load.phase = .getting ∨ load.phase = .fetching)

structure Inv (s : State) : Prop where
  unfinished : ∀ idx, s.unfinished idx = if s.Pending idx then 1 else 0
  failed : ∀ load ∈ s.loads, load.phase = .failed → s.remoteError.isSome

variable {f : File} {s t : State} {load : Load} {i : Nat}

theorem Inv.initial : Inv .initial := by
  constructor <;> simp [State.initial, State.unfinished, State.Pending]

/-- A load that has not completed finds its entry. -/
theorem Inv.pending (hinv : Inv s) (hload : load ∈ s.loads) (hphase : load.phase ≠ .loaded) :
    s.Pending load.idx := by
  have hpos : 0 < s.unfinished load.idx := by
    rw [State.unfinished, List.countP_pos_iff]
    exact ⟨load, hload, by simpa [Load.Unfinished] using hphase⟩
  rw [hinv.unfinished] at hpos
  by_contra hpending
  rw [if_neg hpending] at hpos
  exact Nat.lt_irrefl _ hpos

theorem Inv.outstanding (hinv : Inv s) (herror : s.remoteError = none) (hpending : s.Pending idx) :
    s.Outstanding idx := by
  have hcount := hinv.unfinished idx
  rw [if_pos hpending, State.unfinished] at hcount
  obtain ⟨load, hload, hunfinished⟩ := List.countP_pos_iff.mp (by rw [hcount]; exact Nat.one_pos)
  obtain ⟨hidx, hphase⟩ : Load.Unfinished idx load := by simpa using hunfinished
  refine ⟨load, hload, hidx, ?_⟩
  cases hload' : load.phase with
  | getting => exact .inl rfl
  | fetching => exact .inr rfl
  | loaded => exact absurd hload' hphase
  | failed =>
      have hsome := hinv.failed load hload hload'
      rw [herror] at hsome
      cases hsome

/-! ### Reads -/

variable {buffer buffer' : Bytes} {offset length position : Nat} {now : Int} {result : Result}

theorem pending_set_self (h : t.waitingTable = s.waitingTable.set idx entry) :
    t.Pending idx ↔ entry.done = false := by
  rw [State.Pending, h, JsMap.get_set_self]
  simp

theorem pending_set_of_ne (h : t.waitingTable = s.waitingTable.set key entry) (hidx : idx ≠ key) :
    t.Pending idx ↔ s.Pending idx := by
  rw [State.Pending, h, JsMap.get_set_of_ne _ hidx]
  rfl

/-- A hit neither makes nor removes an entry that is not done. -/
theorem pending_hit (hget : s.waitingTable.get key = some entry) (hdone : entry.done = true)
    (ht : t.waitingTable = evict (s.waitingTable.set key { entry with lastUsed := now })) :
    t.Pending idx ↔ s.Pending idx := by
  have hset : (((s.waitingTable.set key { entry with lastUsed := now }).get idx).map Entry.done =
      some false ↔ s.Pending idx) := by
    rw [JsMap.get_set]
    split
    · rename_i hidx
      simp [State.Pending, hidx, hget, hdone]
    · rfl
  rw [State.Pending, ht, ← hset]
  rcases get_evict (s.waitingTable.set key { entry with lastUsed := now }) idx with h | ⟨h, entry', hentry, hdone'⟩
  · rw [h]
  · rw [h, hentry]
    simp [hdone']

theorem Inv.reads (hinv : Inv s) (h : Reads s buffer offset length position now result t) : Inv t := by
  cases h with
  | empty | failed | waiting => exact hinv
  | broken => exact ⟨hinv.unfinished, fun _ _ _ => rfl⟩
  | hit hlength herror entry res buffer' hget hdone hres hcopy =>
      refine ⟨fun idx => (hinv.unfinished idx).trans ?_, hinv.failed⟩
      exact if_congr (pending_hit hget hdone rfl).symm rfl rfl
  | miss hlength herror hget =>
      constructor
      · intro idx
        have hcount := hinv.unfinished idx
        rw [State.unfinished] at hcount ⊢
        rw [List.countP_append, hcount, List.countP_singleton]
        by_cases hidx : idx = position / CHUNK_MAX
        · subst hidx
          rw [if_neg (by simp [State.Pending, hget]), if_pos (by simp [Load.Unfinished]),
            if_pos ((pending_set_self rfl).mpr rfl)]
        · have hnew : ¬ decide (Load.Unfinished idx ⟨position / CHUNK_MAX, .getting⟩) = true := by
            simpa [Load.Unfinished] using Ne.symm hidx
          rw [if_neg hnew, Nat.add_zero]
          exact if_congr (pending_set_of_ne rfl hidx).symm rfl rfl
      · intro load hload hphase
        rw [List.mem_append, List.mem_singleton] at hload
        rcases hload with hload | rfl
        · exact hinv.failed load hload hphase
        · cases hphase

theorem Reads.pending (h : Reads s buffer offset length position now result t) (hpending : s.Pending idx) :
    t.Pending idx := by
  cases h with
  | empty | failed | waiting | broken => exact hpending
  | hit hlength herror entry res buffer' hget hdone hres hcopy =>
      exact (pending_hit hget hdone rfl).mpr hpending
  | miss hlength herror hget =>
      refine (pending_set_of_ne rfl ?_).mpr hpending
      rintro rfl
      simp [State.Pending, hget] at hpending

/-- A read that asks for a retry leaves a load of its chunk under way. -/
theorem Reads.outstanding (hinv : Inv s) (h : Reads s buffer offset length position now (.thrown 6) t) :
    t.Outstanding (position / CHUNK_MAX) := by
  cases h with
  | waiting hlength herror entry hget hdone =>
      exact hinv.outstanding herror (by simp [State.Pending, hget, hdone])
  | miss hlength herror hget => exact ⟨_, List.mem_append_right _ List.mem_cons_self, rfl, .inl rfl⟩

theorem Reads.of_failed (hlength : 0 < length) (herror : s.remoteError.isSome)
    (h : Reads s buffer offset length position now result t) : result = .thrown 28 := by
  cases h with
  | empty hzero => exact absurd hzero (Nat.ne_of_gt hlength)
  | failed => rfl
  | waiting _ hnone | broken _ hnone | hit _ hnone | miss _ hnone =>
      simp [hnone] at herror

/-! ### Completions -/

theorem setPhase_unfinished (hload : s.loads[i]? = some load) (phase : Phase) (idx : Nat) :
    (s.setPhase i load phase).unfinished idx + (if load.Unfinished idx then 1 else 0) =
      s.unfinished idx + if ({ load with phase } : Load).Unfinished idx then 1 else 0 := by
  obtain ⟨hi, rfl⟩ := List.getElem?_eq_some_iff.mp hload
  have hle := List.boole_getElem_le_countP (p := fun load => decide (Load.Unfinished idx load)) hi
  rw [State.unfinished, State.unfinished, State.setPhase, List.countP_set hi]
  simp only [decide_eq_true_eq] at hle ⊢
  omega

/-- A load that goes on, or fails, is as unfinished as before. -/
theorem setPhase_unfinished_eq (hload : s.loads[i]? = some load) (hphase : load.phase ≠ .loaded)
    {phase : Phase} (hphase' : phase ≠ .loaded) (idx : Nat) :
    (s.setPhase i load phase).unfinished idx = s.unfinished idx := by
  have hcount := setPhase_unfinished hload phase idx
  simp only [Load.Unfinished, ne_eq, hphase, hphase', not_false_eq_true, and_true] at hcount
  omega

theorem mem_setPhase {phase : Phase} {load' : Load} (h : load' ∈ (s.setPhase i load phase).loads) :
    load' ∈ s.loads ∨ load' = { load with phase } :=
  List.mem_or_eq_of_mem_set h

theorem Inv.setPhase (hinv : Inv s) (hload : s.loads[i]? = some load) (hphase : load.phase ≠ .loaded) :
    Inv (s.setPhase i load .fetching) := by
  constructor
  · intro idx
    rw [setPhase_unfinished_eq hload hphase (by simp)]
    exact hinv.unfinished idx
  · intro load' hload' hfailed
    rcases mem_setPhase hload' with hload' | rfl
    · exact hinv.failed load' hload' hfailed
    · cases hfailed

theorem Inv.reject (hinv : Inv s) (hload : s.loads[i]? = some load) (hphase : load.phase ≠ .loaded)
    (error : String) : Inv (s.reject i load error) := by
  constructor
  · intro idx
    exact (setPhase_unfinished_eq hload hphase (by simp) idx).trans (hinv.unfinished idx)
  · intro _ _ _
    rfl

/-- A completing load finds its entry. -/
theorem Inv.resolve_eq (hinv : Inv s) (hload : s.loads[i]? = some load) (hphase : load.phase ≠ .loaded)
    (bytes : Bytes) : ∃ entry, s.waitingTable.get load.idx = some entry ∧ entry.done = false ∧
      s.resolve i load bytes = { s.setPhase i load .loaded with
        waitingTable := s.waitingTable.set load.idx
          { entry with res := some bytes, done := true, length := bytes.length } } := by
  have hpending := hinv.pending (List.mem_of_getElem? hload) hphase
  rw [State.Pending, Option.map_eq_some_iff] at hpending
  obtain ⟨entry, hget, hdone⟩ := hpending
  exact ⟨entry, hget, hdone, by rw [State.resolve, hget]⟩

theorem Inv.resolve (hinv : Inv s) (hload : s.loads[i]? = some load) (hphase : load.phase ≠ .loaded)
    (bytes : Bytes) : Inv (s.resolve i load bytes) := by
  obtain ⟨entry, hget, hdone, heq⟩ := hinv.resolve_eq hload hphase bytes
  have hpending := hinv.pending (List.mem_of_getElem? hload) hphase
  rw [heq]
  constructor
  · intro idx
    have hcount := setPhase_unfinished hload .loaded idx
    rw [hinv.unfinished idx] at hcount
    refine Eq.trans (b := (s.setPhase i load .loaded).unfinished idx) rfl ?_
    by_cases hidx : idx = load.idx
    · subst hidx
      rw [if_neg (by rw [pending_set_self rfl]; simp)]
      simp only [Load.Unfinished, ne_eq, hphase, not_false_eq_true, and_self, if_true, not_true_eq_false,
        and_false, if_false, if_pos hpending] at hcount
      omega
    · simp only [Load.Unfinished, Ne.symm hidx, false_and, if_false, Nat.add_zero] at hcount
      rw [hcount]
      exact if_congr (pending_set_of_ne rfl hidx).symm rfl rfl
  · intro load' hload' hfailed
    rcases mem_setPhase hload' with hload' | rfl
    · exact hinv.failed load' hload' hfailed
    · cases hfailed

theorem Inv.step {e : Event} (hinv : Inv s) (hstep : (virtualFile f).step s e = some t) : Inv t := by
  cases e with
  | read buffer offset length position now =>
      cases hstep
      exact hinv.reads (read_reads s buffer offset length position now)
  | cacheResolved i data =>
      simp only [virtualFile, State.step] at hstep
      split at hstep
      · rename_i idx hload
        split at hstep
        · cases hstep
          exact hinv.resolve hload (by simp) _
        · cases hstep
          exact hinv.setPhase hload (by simp)
      · cases hstep
  | cacheRejected i error =>
      simp only [virtualFile, State.step] at hstep
      split at hstep
      · rename_i idx hload
        cases hstep
        exact hinv.reject hload (by simp) error
      · cases hstep
  | fetchResolved i bytes =>
      simp only [virtualFile, State.step] at hstep
      split at hstep
      · rename_i idx hload
        cases hstep
        have hput : Inv (s.put (f.key idx) bytes) := ⟨hinv.unfinished, hinv.failed⟩
        exact hput.resolve hload (by simp) bytes
      · cases hstep
  | fetchRejected i error =>
      simp only [virtualFile, State.step] at hstep
      split at hstep
      · rename_i idx hload
        cases hstep
        exact hinv.reject hload (by simp) error
      · cases hstep
  | preload slices ended =>
      cases hstep
      exact ⟨hinv.unfinished, hinv.failed⟩
  | reopen =>
      cases hstep
      exact ⟨Inv.initial.unfinished, Inv.initial.failed⟩

theorem inv_of_reachable (h : (virtualFile f).Reachable s) : Inv s :=
  h.keeps .initial fun _ _ _ => Inv.step

end LlmRuntime.VirtualFile

import LlmRuntime.VirtualFile.Reading
import Mathlib

/-!
# Short bodies

A key says how many bytes its chunk has. `fetchRange` looks at the status of a response and not at the
length of its body, so a body that is cut short is put, and read from, as it is. Nothing but such a body
comes between a key and the length of its value.
-/

namespace LlmRuntime.VirtualFile

open Transition List

/-- The cache answers with what was put. What a body has is up to the server. -/
def FromCache (f : File) (s : State) : Event → Prop
  | .cacheResolved i (some bytes) => ∀ load ∈ s.loads[i]?, (f.key load.idx, bytes) ∈ s.puts
  | _ => True

/-- The condition on a step: a body has as many bytes as were asked for. -/
def Whole (f : File) (s : State) : Event → Prop
  | .fetchResolved i bytes => ∀ load ∈ s.loads[i]?, (bytes.length : Int) = f.chunkSize load.idx
  | _ => True

instance (f : File) (s : State) : ∀ e, Decidable (FromCache f s e)
  | .cacheResolved i (some bytes) =>
      inferInstanceAs (Decidable (∀ load ∈ s.loads[i]?, (f.key load.idx, bytes) ∈ s.puts))
  | .cacheResolved _ none | .read .. | .cacheRejected .. | .fetchResolved .. | .fetchRejected .. | .preload ..
  | .reopen => instDecidableTrue

instance (f : File) (s : State) : ∀ e, Decidable (Whole f s e)
  | .fetchResolved i bytes =>
      inferInstanceAs (Decidable (∀ load ∈ s.loads[i]?, (bytes.length : Int) = f.chunkSize load.idx))
  | .read .. | .cacheResolved .. | .cacheRejected .. | .fetchRejected .. | .preload .. | .reopen =>
      instDecidableTrue

/-- Every value has the length its key names, and a read before the end of the file gives something. -/
structure Unbroken (f : File) (s : State) : Prop where
  stored : ∀ a b bytes, (chunkKey f.fileId a b, bytes) ∈ s.puts → (bytes.length : Int) = b - a
  served : ∀ buffer offset length position now n buffer', position < f.size → 1 ≤ length →
    (s.read buffer offset length position now).1 = .returned n buffer' → 1 ≤ n

/-- The body of the only chunk is cut short; the next read finds the end of the file too early. -/
def cutShort : List Event :=
  [.read [0] 0 1 0 10, .cacheResolved 0 none, .fetchResolved 0 [1, 2]]

theorem broken_of_cutShort : [1, 2] <+: [1, 2, (3 : UInt8)] ∧ ∃ s,
    (virtualFile ⟨"m", 3⟩).run .initial cutShort = some s ∧
      s.puts = [(chunkKey "m" 0 3, [1, 2])] ∧ (s.read [0] 0 1 2 11).1 = .returned 0 [0] ∧
      ¬ Unbroken ⟨"m", 3⟩ s := by
  refine ⟨by decide, _, rfl, by decide, by decide, fun hunbroken => ?_⟩
  have hstored := hunbroken.served [0] 0 1 2 11 0 [0] (by decide) (by decide) (by decide)
  cases hstored

variable {f : File} {s t : State} {idx : Nat}

/-- Where a chunk ends can be read off its key, too. -/
theorem chunkKey_inj_end {fileId : String} {a a' : Nat} {b b' : Int}
    (h : chunkKey fileId a b = chunkKey fileId a' b') : a = a' ∧ b = b' := by
  obtain rfl := chunkKey_inj h
  refine ⟨rfl, ?_⟩
  have htail := congrArg String.toList h
  rw [toList_chunkKey, toList_chunkKey, append_cancel_left_eq, append_cancel_left_eq, cons.injEq] at htail
  exact Int.repr_injective (String.toList_inj.mp htail.2)

/-- What the table serves has been put into the cache. -/
structure Backed (f : File) (s : State) : Prop where
  res : ∀ idx entry, s.waitingTable.get idx = some entry → entry.done = true →
    ∃ bytes, entry.res = some bytes ∧ entry.length = bytes.length ∧ (f.key idx, bytes) ∈ s.puts

theorem Backed.initial (f : File) : Backed f .initial := ⟨by simp [State.initial]⟩

theorem Backed.of_same (hbacked : Backed f s) (hputs : s.puts <+: t.puts)
    (hres : ∀ idx entry, t.waitingTable.get idx = some entry → entry.done = true →
      ∃ entry', s.waitingTable.get idx = some entry' ∧ entry'.done = true ∧ entry'.res = entry.res ∧
        entry'.length = entry.length) : Backed f t := by
  constructor
  intro idx entry hget hdone
  obtain ⟨entry', hget', hdone', hres', hlength'⟩ := hres idx entry hget hdone
  obtain ⟨bytes, hbytes, hlength, hmem⟩ := hbacked.res idx entry' hget' hdone'
  exact ⟨bytes, hres' ▸ hbytes, hlength' ▸ hlength, hputs.subset hmem⟩

theorem Backed.resolve (hbacked : Backed f s) (i : Nat) (load : Load) {bytes : Bytes}
    (hbytes : (f.key load.idx, bytes) ∈ s.puts) : Backed f (s.resolve i load bytes) := by
  unfold State.resolve
  split
  · exact ⟨hbacked.res⟩
  · rename_i entry hget
    refine ⟨fun idx entry' hget' hdone' => ?_⟩
    dsimp only at hget'
    rw [JsMap.get_set] at hget'
    split at hget'
    · rename_i hload
      cases hget'
      rw [hload]
      exact ⟨bytes, rfl, rfl, hbytes⟩
    · exact hbacked.res idx entry' hget' hdone'

theorem Backed.step {e : Event} (hbacked : Backed f s) (hcache : FromCache f s e)
    (hstep : (virtualFile f).step s e = some t) : Backed f t := by
  cases e with
  | read buffer offset length position now =>
      cases hstep
      have hreads := read_reads s buffer offset length position now
      generalize (s.read buffer offset length position now).2 = t at hreads
      refine hbacked.of_same ?_ fun _ _ hget hdone => hreads.served hget hdone
      rw [hreads.puts]
  | cacheResolved i data =>
      simp only [virtualFile, State.step] at hstep
      split at hstep
      · rename_i idx hload
        cases data with
        | some bytes =>
            cases hstep
            exact hbacked.resolve i ⟨idx, .getting⟩ (hcache ⟨idx, .getting⟩ hload)
        | none =>
            cases hstep
            exact ⟨hbacked.res⟩
      · cases hstep
  | fetchResolved i bytes =>
      simp only [virtualFile, State.step] at hstep
      split at hstep
      · rename_i idx hload
        cases hstep
        have hput : Backed f (s.put (f.key idx) bytes) :=
          hbacked.of_same (prefix_append _ _) fun _ entry hget hdone => ⟨entry, hget, hdone, rfl, rfl⟩
        exact hput.resolve i ⟨idx, .fetching⟩ (mem_append_right _ mem_cons_self)
      · cases hstep
  | cacheRejected i error | fetchRejected i error =>
      simp only [virtualFile, State.step] at hstep
      split at hstep
      · cases hstep
        exact ⟨hbacked.res⟩
      · cases hstep
  | preload slices ended =>
      cases hstep
      exact hbacked.of_same (prefix_append _ _) fun _ entry hget hdone => ⟨entry, hget, hdone, rfl, rfl⟩
  | reopen =>
      cases hstep
      exact ⟨by simp [State.initial]⟩

theorem resolve_puts (s : State) (i : Nat) (load : Load) (bytes : Bytes) :
    (s.resolve i load bytes).puts = s.puts := by
  unfold State.resolve
  split <;> rfl

/-- What a step puts. -/
theorem step_puts {e : Event} (hstep : (virtualFile f).step s e = some t) :
    (t.puts = s.puts ∧ Whole f s e) ∨
      (∃ slices ended, e = .preload slices ended ∧ t.puts = s.puts ++ fetchWholeModelToCache f.fileId slices ended) ∨
      ∃ i bytes load, e = .fetchResolved i bytes ∧ s.loads[i]? = some load ∧
        t.puts = s.puts ++ [(f.key load.idx, bytes)] := by
  cases e with
  | read buffer offset length position now =>
      cases hstep
      exact .inl ⟨(read_reads s buffer offset length position now).puts, trivial⟩
  | cacheResolved i data =>
      simp only [virtualFile, State.step] at hstep
      split at hstep
      · rename_i idx hload
        cases data with
        | some bytes =>
            cases hstep
            exact .inl ⟨resolve_puts s i _ bytes, trivial⟩
        | none =>
            cases hstep
            exact .inl ⟨rfl, trivial⟩
      · cases hstep
  | fetchResolved i bytes =>
      simp only [virtualFile, State.step] at hstep
      split at hstep
      · rename_i idx hload
        cases hstep
        exact .inr (.inr ⟨i, bytes, ⟨idx, .fetching⟩, rfl, hload, resolve_puts _ i _ bytes⟩)
      · cases hstep
  | cacheRejected i error | fetchRejected i error =>
      simp only [virtualFile, State.step] at hstep
      split at hstep
      · cases hstep
        exact .inl ⟨rfl, trivial⟩
      · cases hstep
  | preload slices ended =>
      cases hstep
      exact .inr (.inl ⟨slices, ended, rfl, rfl⟩)
  | reopen =>
      cases hstep
      exact .inl ⟨rfl, trivial⟩

/-- A preload puts values of the right length, whatever the stream gives. -/
theorem length_of_preload {slices : List Bytes} {ended : Bool} {fileId : String} {a : Nat} {b : Int}
    {bytes : Bytes} (hmem : (chunkKey fileId a b, bytes) ∈ fetchWholeModelToCache fileId slices ended) :
    (bytes.length : Int) = b - a := by
  have hblock : ∀ n, n ≤ blockCount CHUNK_MAX slices.flatten.length →
      (chunkKey fileId a b, bytes) ∈ (range n).map (blockPut fileId slices.flatten) →
      (bytes.length : Int) = b - a := by
    intro n hn hmem
    obtain ⟨k, hk, hput⟩ := mem_map.mp hmem
    rw [blockPut, Prod.mk.injEq] at hput
    obtain ⟨hkey, rfl⟩ := hput
    obtain ⟨rfl, rfl⟩ := chunkKey_inj_end hkey
    have hlt := (lt_blockCount_iff CHUNK_MAX_pos).mp (Nat.lt_of_lt_of_le (mem_range.mp hk) hn)
    have hpos := CHUNK_MAX_pos
    have hend : blockEnd slices.flatten.length k ≤ slices.flatten.length := Nat.min_le_right _ _
    rw [block, length_segment_of_le hend, blockEnd, chunkPosition]
    omega
  cases ended with
  | true =>
      rw [fetchWholeModelToCache_eq] at hmem
      exact hblock _ (Nat.le_refl _) hmem
  | false =>
      rw [fetchWholeModelToCache_failed] at hmem
      refine hblock _ ?_ hmem
      rw [blockCount]
      have hpos := CHUNK_MAX_pos
      exact Nat.div_le_div_right (by omega)

theorem served_of_stored (hbacked : Backed f s)
    (hstored : ∀ a b bytes, (chunkKey f.fileId a b, bytes) ∈ s.puts → (bytes.length : Int) = b - a) :
    Unbroken f s := by
  refine ⟨hstored, fun buffer offset length position now n buffer' hposition hlength hread => ?_⟩
  have hreads := read_reads s buffer offset length position now
  rw [hread] at hreads
  generalize (s.read buffer offset length position now).2 = t at hreads
  cases hreads with
  | empty hzero => exact absurd hzero (Nat.ne_of_gt hlength)
  | hit _ herror entry res _ hget hdone hres hcopy =>
      obtain ⟨bytes, -, hentry, hmem⟩ := hbacked.res _ entry hget hdone
      have hsize := hstored _ _ _ hmem
      rw [chunkEnd_eq] at hsize
      have hinner := position_add_mod position
      have hlt : position < blockEnd f.size (position / CHUNK_MAX) := (mem_block CHUNK_MAX_pos hposition).2
      omega

theorem unbroken_step {e : Event} (hbacked : Backed f s) (hs : Unbroken f s) (hcache : FromCache f s e)
    (hstep : (virtualFile f).step s e = some t) : Unbroken f t ↔ Whole f s e := by
  have hbacked' := hbacked.step hcache hstep
  rcases step_puts hstep with ⟨hputs, hwhole⟩ | ⟨slices, ended, rfl, hputs⟩ | ⟨i, bytes, load, rfl, hload, hputs⟩
  · refine iff_of_true (served_of_stored hbacked' ?_) hwhole
    rw [hputs]
    exact hs.stored
  · refine iff_of_true (served_of_stored hbacked' fun a b bytes hmem => ?_) trivial
    rw [hputs, mem_append] at hmem
    rcases hmem with hmem | hmem
    · exact hs.stored a b bytes hmem
    · exact length_of_preload hmem
  · have hsize : f.chunkSize load.idx = f.chunkEnd load.idx - chunkPosition load.idx := by
      rw [File.chunkEnd]
      omega
    constructor
    · intro hunbroken load' hload'
      obtain rfl : load = load' := Option.some.inj (hload.symm.trans hload')
      rw [hsize]
      exact hunbroken.stored _ _ bytes (by rw [hputs]; exact mem_append_right _ mem_cons_self)
    · intro hwhole
      refine served_of_stored hbacked' fun a b bytes' hmem => ?_
      rw [hputs, mem_append, mem_singleton, Prod.mk.injEq] at hmem
      rcases hmem with hmem | ⟨hkey, rfl⟩
      · exact hs.stored a b bytes' hmem
      · obtain ⟨rfl, rfl⟩ := chunkKey_inj_end hkey
        rw [hwhole load hload, hsize]

/-- **No short chunk is cached or served** in any state of a run if and only if every body has as many
bytes as were asked for. -/
theorem no_short_chunk (f : File) (es : List Event) (s : State)
    (hcache : (virtualFile f).Along (FromCache f) .initial es) (hrun : (virtualFile f).run .initial es = some s) :
    (virtualFile f).Along (Whole f) .initial es ↔ (virtualFile f).Throughout (Unbroken f) es := by
  refine along_iff_throughout_of (I := Backed f) (.initial f) ?_ (fun _ _ _ => Backed.step)
    (fun _ _ _ => unbroken_step) hcache hrun
  exact served_of_stored (.initial f) (by simp [virtualFile, State.initial])

/-- A session that fetches the chunk, and one that finds it in the cache. -/
def reused : List Event :=
  [.read [0] 0 1 2 10, .cacheResolved 0 none, .fetchResolved 0 [1, 2, 3], .reopen, .read [0] 0 1 2 20,
    .cacheResolved 0 (some [1, 2, 3])]

theorem no_short_chunk_reused : ∃ s, (virtualFile ⟨"m", 3⟩).run .initial reused = some s ∧
    Unbroken ⟨"m", 3⟩ s ∧ (s.read [0] 0 1 2 21).1 = .returned 1 [3] := by
  refine ⟨_, rfl, ?_, by decide⟩
  exact (no_short_chunk ⟨"m", 3⟩ reused _ (by decide) rfl).mp (by decide) reused [] _ (append_nil _).symm rfl

end LlmRuntime.VirtualFile

import LlmRuntime.VirtualFile.Preload

/-!
# What a read gives

As long as the network sends what it is asked for and the cache gives back what was put, every chunk in
the table and in the cache is a block of the model, and a read copies the model's bytes.
-/

namespace LlmRuntime.VirtualFile

open Transition List

/-- The network and the cache answer with the bytes of the model. For a chunk behind the end of the file
nothing is asked of them. -/
def Honest (f : File) (model : Bytes) (s : State) : Event → Prop
  | .cacheResolved i (some bytes) => ∀ load ∈ s.loads[i]?, (f.key load.idx, bytes) ∈ s.puts
  | .fetchResolved i bytes => ∀ load ∈ s.loads[i]?, chunkPosition load.idx < f.size →
      bytes = model.segment (chunkPosition load.idx) (f.chunkEnd load.idx).toNat
  | .preload slices ended => if ended then slices.flatten = model else slices.flatten <+: model
  | _ => True

instance (f : File) (model : Bytes) (s : State) (e : Event) : Decidable (Honest f model s e) := by
  unfold Honest
  split <;> infer_instance

/-- What is cached, and what is in the table, is of the model. -/
structure Exact (f : File) (model : Bytes) (s : State) : Prop where
  puts : ∀ idx bytes, chunkPosition idx < f.size → (f.key idx, bytes) ∈ s.puts → bytes = block model idx
  res : ∀ idx entry, chunkPosition idx < f.size → s.waitingTable.get idx = some entry → entry.done = true →
    entry.res = some (block model idx) ∧ entry.length = (block model idx).length

variable {f : File} {model : Bytes} {s t : State} {idx : Nat}

theorem Exact.initial (f : File) (model : Bytes) : Exact f model .initial := by
  constructor <;> simp [State.initial]

theorem mem_blockPuts {n : Nat} {bytes : Bytes}
    (hmem : (f.key idx, bytes) ∈ (range n).map (blockPut f.fileId model)) : bytes = block model idx := by
  obtain ⟨k, -, hk⟩ := mem_map.mp hmem
  rw [blockPut, Prod.mk.injEq, key_eq] at hk
  rw [← hk.2, chunkPosition_inj (chunkKey_inj hk.1)]

/-- Also a preload that fails puts blocks of the model only. -/
theorem mem_fetchWholeModelToCache {slices : List Bytes} {ended : Bool} {bytes : Bytes}
    (hslices : if ended then slices.flatten = model else slices.flatten <+: model)
    (hmem : (f.key idx, bytes) ∈ fetchWholeModelToCache f.fileId slices ended) : bytes = block model idx := by
  cases ended with
  | true =>
      rw [fetchWholeModelToCache_eq, show slices.flatten = model from hslices] at hmem
      exact mem_blockPuts hmem
  | false =>
      rw [fetchWholeModelToCache_failed, map_blockPut f.fileId hslices] at hmem
      exact mem_blockPuts hmem

theorem Exact.of_same (hexact : Exact f model s) (hputs : t.puts = s.puts)
    (hres : ∀ idx entry, t.waitingTable.get idx = some entry → entry.done = true →
      ∃ entry', s.waitingTable.get idx = some entry' ∧ entry'.done = true ∧ entry'.res = entry.res ∧
        entry'.length = entry.length) : Exact f model t := by
  constructor
  · rw [hputs]
    exact hexact.puts
  · intro idx entry hidx hget hdone
    obtain ⟨entry', hget', hdone', hres', hlength'⟩ := hres idx entry hget hdone
    rw [← hres', ← hlength']
    exact hexact.res idx entry' hidx hget' hdone'

/-- A read puts nothing. -/
theorem Reads.puts {buffer : Bytes} {offset length position : Nat} {now : Int} {result : Result}
    (h : Reads s buffer offset length position now result t) : t.puts = s.puts := by
  cases h <;> rfl

/-- What the table serves after a read, it served before. -/
theorem Reads.served {buffer : Bytes} {offset length position : Nat} {now : Int} {result : Result}
    (h : Reads s buffer offset length position now result t) {idx : Nat} {entry : Entry}
    (hget : t.waitingTable.get idx = some entry) (hdone : entry.done = true) :
    ∃ entry', s.waitingTable.get idx = some entry' ∧ entry'.done = true ∧ entry'.res = entry.res ∧
      entry'.length = entry.length := by
  cases h with
  | empty | failed | waiting | broken => exact ⟨entry, hget, hdone, rfl, rfl⟩
  | hit hlength herror entry' res buffer' hget' hdone' hres hcopy =>
      dsimp only at hget
      rcases get_evict (s.waitingTable.set (position / CHUNK_MAX) { entry' with lastUsed := now }) idx with
        h | ⟨h, -⟩
      · rw [h, JsMap.get_set] at hget
        split at hget
        · rename_i hidx
          cases hget
          exact ⟨entry', hidx ▸ hget', hdone', rfl, rfl⟩
        · exact ⟨entry, hget, hdone, rfl, rfl⟩
      · rw [h] at hget
        cases hget
  | miss hlength herror hget' =>
      dsimp only at hget
      rw [JsMap.get_set] at hget
      split at hget
      · cases hget
        cases hdone
      · exact ⟨entry, hget, hdone, rfl, rfl⟩

theorem Exact.reads {buffer : Bytes} {offset length position : Nat} {now : Int} {result : Result}
    (hexact : Exact f model s) (h : Reads s buffer offset length position now result t) : Exact f model t :=
  hexact.of_same h.puts fun _ _ hget hdone => h.served hget hdone

theorem Exact.resolve (hexact : Exact f model s) (i : Nat) (load : Load) {bytes : Bytes}
    (hbytes : chunkPosition load.idx < f.size → bytes = block model load.idx) :
    Exact f model (s.resolve i load bytes) := by
  unfold State.resolve
  split
  · exact ⟨hexact.puts, hexact.res⟩
  · rename_i entry hget
    refine ⟨hexact.puts, fun idx entry' hidx hget' hdone' => ?_⟩
    dsimp only at hget'
    rw [JsMap.get_set] at hget'
    split at hget'
    · rename_i hload
      cases hget'
      rw [hload] at hidx ⊢
      exact ⟨congrArg some (hbytes hidx), congrArg length (hbytes hidx)⟩
    · exact hexact.res idx entry' hidx hget' hdone'

theorem Exact.step {e : Event} (hsize : f.size = model.length) (hexact : Exact f model s)
    (hhonest : Honest f model s e) (hstep : (virtualFile f).step s e = some t) : Exact f model t := by
  cases e with
  | read buffer offset length position now =>
      cases hstep
      exact hexact.reads (read_reads s buffer offset length position now)
  | cacheResolved i data =>
      simp only [virtualFile, State.step] at hstep
      split at hstep
      · rename_i idx hload
        cases data with
        | some bytes =>
            cases hstep
            exact hexact.resolve i ⟨idx, .getting⟩ fun hidx =>
              hexact.puts idx bytes hidx (hhonest ⟨idx, .getting⟩ hload)
        | none =>
            cases hstep
            exact ⟨hexact.puts, hexact.res⟩
      · cases hstep
  | fetchResolved i bytes =>
      simp only [virtualFile, State.step] at hstep
      split at hstep
      · rename_i idx hload
        cases hstep
        have hbytes : chunkPosition idx < f.size → bytes = block model idx := by
          intro hidx
          rw [hhonest _ hload hidx, chunkEnd_eq, Int.toNat_natCast, block, hsize]
        have hput : Exact f model (s.put (f.key idx) bytes) := by
          refine ⟨fun idx' bytes' hidx' hmem => ?_, hexact.res⟩
          rw [State.put, mem_append, mem_singleton, Prod.mk.injEq] at hmem
          rcases hmem with hmem | ⟨hkey, rfl⟩
          · exact hexact.puts idx' bytes' hidx' hmem
          · obtain rfl := key_inj hkey
            exact hbytes hidx'
        exact hput.resolve i ⟨idx, .fetching⟩ hbytes
      · cases hstep
  | cacheRejected i error | fetchRejected i error =>
      simp only [virtualFile, State.step] at hstep
      split at hstep
      · cases hstep
        exact ⟨hexact.puts, hexact.res⟩
      · cases hstep
  | preload slices ended =>
      cases hstep
      refine ⟨fun idx bytes hidx hmem => ?_, hexact.res⟩
      rw [mem_append] at hmem
      rcases hmem with hmem | hmem
      · exact hexact.puts idx bytes hidx hmem
      · exact mem_fetchWholeModelToCache hhonest hmem
  | reopen =>
      cases hstep
      exact ⟨hexact.puts, by simp [State.initial]⟩

/-! ### One read -/

/-- The read returned `n` and left `buffer'` in the place of `buffer`. -/
structure ReadsModel (f : File) (model buffer : Bytes) (offset length position : Nat) (n : Int)
    (buffer' : Bytes) : Prop where
  bounds : 1 ≤ n ∧ n ≤ length
  /-- Up to the end of the chunk, cut at the end of the file. -/
  count : n = min (length : Int)
    ((min (chunkPosition (position / CHUNK_MAX) + CHUNK_MAX) f.size : Nat) - position)
  copied : buffer'.segment offset (offset + n.toNat) = model.segment position (position + n.toNat)
  fits : offset + n.toNat ≤ buffer.length
  elsewhere : ∀ i, i < offset ∨ offset + n.toNat ≤ i → buffer'[i]? = buffer[i]?

variable {buffer buffer' : Bytes} {offset length position : Nat} {now : Int} {n : Int}

/-- A stretch of a block is a stretch of the model. -/
theorem segment_block (hend : position + length ≤ blockEnd model.length (position / CHUNK_MAX)) :
    (block model (position / CHUNK_MAX)).segment (position % CHUNK_MAX) (position % CHUNK_MAX + length) =
      model.segment position (position + length) := by
  have hinner := position_add_mod position
  rw [block, segment_segment, hinner, ← Nat.add_assoc, hinner, Nat.min_eq_left hend]

/-- `copySize` of a read whose chunk starts at `a` and ends at `e`. -/
theorem copySize_eq {a e r : Nat} (hinner : a + r = position) (hlt : position < e) :
    min (length : Int) ((e - a : Nat) - (r : Nat)) = (min length (e - position) : Nat) := by
  omega

theorem Exact.read (hexact : Exact f model s) (hsize : f.size = model.length) (hposition : position < f.size)
    (hlength : 1 ≤ length)
    (hread : (s.read buffer offset length position now).1 = .returned n buffer') :
    ReadsModel f model buffer offset length position n buffer' := by
  have hreads := read_reads s buffer offset length position now
  rw [hread] at hreads
  generalize (s.read buffer offset length position now).2 = t at hreads
  have hinner := position_add_mod position
  have hlt : position < blockEnd model.length (position / CHUNK_MAX) :=
    (mem_block CHUNK_MAX_pos (hsize ▸ hposition)).2
  have hidx : chunkPosition (position / CHUNK_MAX) < f.size :=
    Nat.lt_of_le_of_lt (mem_block CHUNK_MAX_pos hposition).1 hposition
  have hwithin : blockEnd model.length (position / CHUNK_MAX) ≤ model.length := Nat.min_le_right _ _
  cases hreads with
  | empty hzero => exact absurd hzero (Nat.ne_of_gt hlength)
  | hit _ herror entry res _ hget hdone hres hcopy =>
      obtain ⟨hblock, hentry⟩ := hexact.res _ entry hidx hget hdone
      rw [hres, Option.some.injEq] at hblock
      rw [block, length_segment_of_le hwithin] at hentry
      rw [hentry, copySize_eq hinner hlt] at hcopy ⊢
      obtain ⟨k, hk⟩ : ∃ k, k = min length (blockEnd model.length (position / CHUNK_MAX) - position) :=
        ⟨_, rfl⟩
      rw [← hk] at hcopy ⊢
      have hle : position + k ≤ blockEnd model.length (position / CHUNK_MAX) := by omega
      rw [← Int.natCast_add, Int.toNat_natCast, hblock, segment_block hle] at hcopy
      have hsegment : (model.segment position (position + k)).length = k := by
        rw [length_segment_of_le (Nat.le_trans hle hwithin), Nat.add_sub_cancel_left]
      have hcopied := segment_overwrite hcopy
      have hfits := (overwrite_eq_some hcopy).1
      have helsewhere := fun i => getElem?_overwrite (i := i) hcopy
      rw [hsegment] at hcopied hfits
      simp only [hsegment] at helsewhere
      constructor
      · omega
      · rw [show min (chunkPosition (position / CHUNK_MAX) + CHUNK_MAX) f.size =
          blockEnd model.length (position / CHUNK_MAX) by rw [blockEnd, hsize]]
        omega
      · exact hcopied
      · exact hfits
      · exact helsewhere

/-! ### Reading on -/

/-- A caller that advances by what a read returns; `bytes` is what it has got since `start`. -/
structure Reader where
  state : State
  position : Nat
  bytes : Bytes

inductive ReaderEvent where
  /-- The caller's next read. One that throws is made again. -/
  | next (buffer : Bytes) (offset length : Nat) (now : Int)
  | other (event : Event)

def Reader.step (f : File) (r : Reader) : ReaderEvent → Option Reader
  | .next buffer offset length now =>
      if 1 ≤ length ∧ r.position < f.size then
        match r.state.read buffer offset length r.position now with
        | (.returned n buffer, state) =>
            some ⟨state, r.position + n.toNat, r.bytes ++ buffer.segment offset (offset + n.toNat)⟩
        | (.thrown _, state) => some { r with state }
      else none
  | .other e => (State.step f r.state e).map fun state => { r with state }

def reader (f : File) (start : Nat) : Transition Reader ReaderEvent where
  start := ⟨.initial, start, []⟩
  step := Reader.step f

def ReaderHonest (f : File) (model : Bytes) (r : Reader) : ReaderEvent → Prop
  | .next .. => True
  | .other e => Honest f model r.state e

instance (f : File) (model : Bytes) (r : Reader) (e : ReaderEvent) : Decidable (ReaderHonest f model r e) := by
  unfold ReaderHonest
  split <;> infer_instance

structure ReadOn (f : File) (model : Bytes) (start : Nat) (r : Reader) : Prop where
  exact : Exact f model r.state
  start_le : start ≤ r.position
  bytes : r.bytes = model.segment start r.position

theorem ReadOn.step {start : Nat} {r r' : Reader} {e : ReaderEvent} (hsize : f.size = model.length)
    (h : ReadOn f model start r) (hhonest : ReaderHonest f model r e)
    (hstep : (reader f start).step r e = some r') : ReadOn f model start r' := by
  cases e with
  | other e =>
      simp only [reader, Reader.step, Option.map_eq_some_iff] at hstep
      obtain ⟨t, ht, rfl⟩ := hstep
      exact ⟨h.exact.step hsize hhonest ht, h.start_le, h.bytes⟩
  | next buffer offset length now =>
      have hexact : Exact f model (r.state.read buffer offset length r.position now).2 :=
        h.exact.reads (read_reads r.state buffer offset length r.position now)
      simp only [reader, Reader.step] at hstep
      split at hstep
      · rename_i hok
        split at hstep
        · rename_i n buffer' t hread
          cases hstep
          rw [hread] at hexact
          have hmodel := h.exact.read hsize hok.2 hok.1 (congrArg Prod.fst hread)
          refine ⟨hexact, Nat.le_trans h.start_le (Nat.le_add_right _ _), ?_⟩
          rw [h.bytes, hmodel.copied, segment_append h.start_le (Nat.le_add_right _ _)]
        · rename_i errno t hread
          cases hstep
          rw [hread] at hexact
          exact ⟨hexact, h.start_le, h.bytes⟩
      · cases hstep

/-- **Reads give the model's bytes**, whatever was read, loaded and evicted before, and a caller that
advances by what it is given reads back the model. -/
theorem reads_model (f : File) (model : Bytes) (hsize : f.size = model.length) :
    (∀ es s, (virtualFile f).Along (Honest f model) .initial es → (virtualFile f).run .initial es = some s →
      ∀ buffer offset length position now n buffer', position < f.size → 1 ≤ length →
        (s.read buffer offset length position now).1 = .returned n buffer' →
          ReadsModel f model buffer offset length position n buffer') ∧
    ∀ start es r, (reader f start).Along (ReaderHonest f model) ⟨.initial, start, []⟩ es →
      (reader f start).run ⟨.initial, start, []⟩ es = some r →
        r.bytes = model.segment start r.position ∧ (start = 0 → r.position = f.size → r.bytes = model) := by
  constructor
  · intro es s halong hrun buffer offset length position now n buffer' hposition hlength hread
    have hexact : Exact f model s :=
      run_keeps_along (fun _ _ _ h => h.step hsize) (Exact.initial f model) halong hrun
    exact hexact.read hsize hposition hlength hread
  · intro start es r halong hrun
    have hstart : ReadOn f model start ⟨.initial, start, []⟩ :=
      ⟨Exact.initial f model, Nat.le_refl _, (segment_of_le (Nat.le_refl _)).symm⟩
    have hreadOn : ReadOn f model start r :=
      run_keeps_along (fun _ _ _ h => h.step hsize) hstart halong hrun
    refine ⟨hreadOn.bytes, ?_⟩
    rintro rfl hend
    rw [hreadOn.bytes, hend, hsize, segment_zero, take_length]

/-- A file of three bytes is loaded by a read in the middle. -/
def loadThree : List Event :=
  [.read [0, 0] 0 2 1 10, .cacheResolved 0 none, .fetchResolved 0 [1, 2, 3]]

def readThree : List ReaderEvent :=
  [.next [0, 0, 0] 1 2 10, .other (.cacheResolved 0 none), .other (.fetchResolved 0 [1, 2, 3]),
    .next [0, 0, 0] 1 2 11, .next [0, 0] 0 2 12]

theorem reads_model_three : ReadsModel ⟨"m", 3⟩ [1, 2, 3] [0, 0, 0] 1 2 1 2 [0, 2, 3] ∧
    ∃ r, (reader ⟨"m", 3⟩ 0).run ⟨.initial, 0, []⟩ readThree = some r ∧ r.bytes = [1, 2, 3] := by
  obtain ⟨hread, hreader⟩ := reads_model ⟨"m", 3⟩ [1, 2, 3] rfl
  constructor
  · obtain ⟨s, hs, hresult⟩ : ∃ s, (virtualFile ⟨"m", 3⟩).run .initial loadThree = some s ∧
        (s.read [0, 0, 0] 1 2 1 11).1 = .returned 2 [0, 2, 3] := ⟨_, rfl, by decide⟩
    exact hread loadThree s (by decide) hs _ _ _ _ _ _ _ (by decide) (by decide) hresult
  · obtain ⟨r, hr, hend⟩ : ∃ r, (reader ⟨"m", 3⟩ 0).run ⟨.initial, 0, []⟩ readThree = some r ∧
        r.position = 3 := ⟨_, rfl, by decide⟩
    exact ⟨r, hr, (hreader 0 readThree r (by decide) hr).2 rfl hend⟩

end LlmRuntime.VirtualFile

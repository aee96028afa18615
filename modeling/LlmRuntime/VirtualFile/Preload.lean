import LlmRuntime.VirtualFile.Table

/-!
# The preload

However the stream is sliced, `fetchWholeModelToCache` puts the blocks of the model, each under the key
by which `read` asks for it. After it the cache answers every load of a chunk of the file.
-/

namespace LlmRuntime.VirtualFile

open Transition List

/-! ### Keys -/

theorem toList_chunkKey (fileId : String) (a : Nat) (b : Int) : (chunkKey fileId a b).toList =
    ("chunk:" ++ fileId ++ ":").toList ++ (Nat.toDigits 10 a ++ '-' :: (toString b).toList) := by
  simp [chunkKey, String.toList_append]

/-- The start of a chunk can be read off its key. -/
theorem chunkKey_inj {fileId : String} {a a' : Nat} {b b' : Int}
    (h : chunkKey fileId a b = chunkKey fileId a' b') : a = a' := by
  have htail := congrArg String.toList h
  rw [toList_chunkKey, toList_chunkKey, append_cancel_left_eq] at htail
  have hdigits : ∀ n : Nat, ∀ rest : List Char,
      (Nat.toDigits 10 n ++ '-' :: rest).takeWhile Char.isDigit = Nat.toDigits 10 n := by
    intro n rest
    rw [takeWhile_append_of_pos fun c hc => Nat.isDigit_of_mem_toDigits (by decide) (by decide) hc,
      takeWhile_cons_of_neg (by decide), append_nil]
  have hsame := congrArg (takeWhile Char.isDigit) htail
  rw [hdigits, hdigits] at hsame
  rw [← Nat.ofDigitChars_ten_toDigits (n := a), hsame, Nat.ofDigitChars_ten_toDigits]

variable {f : File} {model bytes seen value : Bytes} {idx idx' k : Nat}

theorem chunkPosition_inj (h : chunkPosition idx = chunkPosition idx') : idx = idx' :=
  Nat.eq_of_mul_eq_mul_right CHUNK_MAX_pos h

theorem key_inj (h : f.key idx = f.key idx') : idx = idx' := chunkPosition_inj (chunkKey_inj h)

/-- Where block `k` of a file of the given size ends. -/
def blockEnd (size k : Nat) : Nat := min (chunkPosition k + CHUNK_MAX) size

theorem chunkEnd_eq (f : File) (idx : Nat) : f.chunkEnd idx = blockEnd f.size idx := by
  rw [File.chunkEnd, File.chunkSize, blockEnd]
  omega

theorem key_eq (f : File) (idx : Nat) :
    f.key idx = chunkKey f.fileId (chunkPosition idx) (blockEnd f.size idx : Nat) := by
  rw [File.key, chunkEnd_eq]

/-- The bytes of a chunk. -/
def block (model : Bytes) (k : Nat) : Bytes := model.segment (chunkPosition k) (blockEnd model.length k)

/-- What is put for block `k`. -/
def blockPut (fileId : String) (model : Bytes) (k : Nat) : String × Bytes :=
  (chunkKey fileId (chunkPosition k) (blockEnd model.length k : Nat), block model k)

/-- A block that is full is the same in every longer file. -/
theorem blockPut_of_isPrefix (fileId : String) (h : seen <+: model)
    (hfull : chunkPosition k + CHUNK_MAX ≤ seen.length) :
    blockPut fileId model k = blockPut fileId seen k := by
  have hle := h.length_le
  have hend : blockEnd seen.length k = chunkPosition k + CHUNK_MAX := Nat.min_eq_left hfull
  have hend' : blockEnd model.length k = chunkPosition k + CHUNK_MAX :=
    Nat.min_eq_left (Nat.le_trans hfull hle)
  rw [blockPut, blockPut, block, block, hend, hend', segment_of_isPrefix h hfull]

/-! ### The stream -/

/-- The variables after the bytes `seen`. -/
structure After (fileId : String) (seen : Bytes) (p : Preload) : Prop where
  position : p.chunkPosition = chunkPosition (seen.length / CHUNK_MAX)
  length : p.chunkLength = seen.length % CHUNK_MAX
  chunk : p.chunk.take p.chunkLength = seen.drop (chunkPosition (seen.length / CHUNK_MAX))
  puts : p.puts = (range (seen.length / CHUNK_MAX)).map (blockPut fileId seen)

variable {fileId : String} {p : Preload} {slices : List Bytes}

theorem After.start (fileId : String) : After fileId [] .start := by
  constructor <;> simp [Preload.start, chunkPosition]

theorem position_add_mod (n : Nat) : chunkPosition (n / CHUNK_MAX) + n % CHUNK_MAX = n := by
  rw [chunkPosition, Nat.mul_comm]
  exact Nat.div_add_mod n CHUNK_MAX

/-- The full blocks stay what they are when more bytes come. -/
theorem map_blockPut (fileId : String) (h : seen <+: model) :
    (range (seen.length / CHUNK_MAX)).map (blockPut fileId seen) =
      (range (seen.length / CHUNK_MAX)).map (blockPut fileId model) := by
  apply map_congr_left
  intro k hk
  rw [mem_range] at hk
  have hmul := Nat.mul_le_mul_right CHUNK_MAX hk
  have hdiv := Nat.div_mul_le_self seen.length CHUNK_MAX
  rw [Nat.succ_mul] at hmul
  exact (blockPut_of_isPrefix fileId h (Nat.le_trans hmul hdiv)).symm

theorem After.copy (h : After fileId seen p) (value : Bytes) :
    After fileId (seen ++ value.take (p.copyLength value)) (p.copy fileId value) := by
  have hlt := p.chunkLength_lt
  have hle := p.copyLength_le value
  have hsplit := position_add_mod seen.length
  have hposition : chunkPosition (seen.length / CHUNK_MAX) ≤ seen.length := by omega
  rw [← h.length] at hsplit
  have hcopy : (value.take (p.copyLength value)).length = p.copyLength value := by
    rw [length_take]
    exact Nat.min_eq_left (Nat.min_le_left _ _)
  have hlonger : seen <+: seen ++ value.take (p.copyLength value) := prefix_append _ _
  have htotal : (seen ++ value.take (p.copyLength value)).length =
      chunkPosition (seen.length / CHUNK_MAX) + (p.chunkLength + p.copyLength value) := by
    rw [length_append, hcopy]
    omega
  -- what the chunk holds after the copy
  have hfilled : (p.filled value).take (p.chunkLength + p.copyLength value) =
      (seen ++ value.take (p.copyLength value)).drop (chunkPosition (seen.length / CHUNK_MAX)) := by
    have hlength : (p.chunk.take p.chunkLength ++ value.take (p.copyLength value)).length =
        p.chunkLength + p.copyLength value := by
      rw [length_append, length_take, p.length_chunk, Nat.min_eq_left (Nat.le_of_lt hlt), hcopy]
    rw [Preload.filled, ← hlength, take_left, h.chunk, drop_append_of_le_length hposition]
  unfold Preload.copy
  split
  · rename_i hfull
    have hdiv : (seen ++ value.take (p.copyLength value)).length / CHUNK_MAX =
        seen.length / CHUNK_MAX + 1 := by
      rw [htotal, hfull, chunkPosition, Nat.add_div_right _ CHUNK_MAX_pos,
        Nat.mul_div_cancel _ CHUNK_MAX_pos]
    constructor
    · rw [hdiv, h.position, chunkPosition, chunkPosition, Nat.succ_mul]
    · rw [htotal, hfull, chunkPosition, Nat.add_mod_right, Nat.mul_mod_left]
    · rw [hdiv, take_zero, drop_eq_nil_of_le]
      rw [htotal, hfull, chunkPosition, chunkPosition, Nat.succ_mul]
    · rw [hdiv, range_succ, map_append, ← map_blockPut fileId hlonger, h.puts, map_singleton]
      have hend : blockEnd (seen ++ value.take (p.copyLength value)).length (seen.length / CHUNK_MAX) =
          chunkPosition (seen.length / CHUNK_MAX) + CHUNK_MAX := by
        rw [blockEnd, htotal, hfull, Nat.min_self]
      have hall : (seen ++ value.take (p.copyLength value)).take
          (chunkPosition (seen.length / CHUNK_MAX) + CHUNK_MAX) = seen ++ value.take (p.copyLength value) := by
        rw [take_of_length_le]
        rw [htotal, hfull]
      rw [blockPut, block, hend, List.segment, hall, ← hfilled, hfull, take_of_length_le, h.position]
      rw [p.length_filled]
  · rename_i hpart
    have hroom : p.chunkLength + p.copyLength value < CHUNK_MAX := Nat.lt_of_le_of_ne hle hpart
    have hdiv : (seen ++ value.take (p.copyLength value)).length / CHUNK_MAX = seen.length / CHUNK_MAX := by
      rw [htotal, chunkPosition, Nat.add_comm, Nat.add_mul_div_right _ _ CHUNK_MAX_pos,
        Nat.div_eq_of_lt hroom, Nat.zero_add]
    constructor
    · rw [hdiv, h.position]
    · have hmod : (seen ++ value.take (p.copyLength value)).length % CHUNK_MAX =
          p.chunkLength + p.copyLength value := by
        rw [htotal, chunkPosition, Nat.mul_add_mod_self_right, Nat.mod_eq_of_lt hroom]
      exact hmod.symm
    · rw [hdiv, hfilled]
    · rw [hdiv, h.puts, map_blockPut fileId hlonger]

theorem After.slice (h : After fileId seen p) (value : Bytes) :
    After fileId (seen ++ value) (p.slice fileId value) := by
  induction p, value using Preload.slice.induct fileId generalizing seen with
  | case1 p =>
      rw [Preload.slice, append_nil]
      exact h
  | case2 p byte rest ih =>
      have hnext := ih (h.copy (byte :: rest))
      rw [append_assoc, take_append_drop] at hnext
      rw [Preload.slice]
      exact hnext

theorem After.stream (h : After fileId seen p) (slices : List Bytes) :
    After fileId (seen ++ slices.flatten) (slices.foldl (Preload.slice fileId) p) := by
  induction slices generalizing seen p with
  | nil =>
      rw [flatten_nil, append_nil]
      exact h
  | cons value slices ih =>
      rw [flatten_cons, ← append_assoc, foldl_cons]
      exact ih (h.slice value)

theorem blockCount_eq (n : Nat) :
    blockCount CHUNK_MAX n = n / CHUNK_MAX + if n % CHUNK_MAX > 0 then 1 else 0 := by
  have hpos := CHUNK_MAX_pos
  have hsplit := Nat.div_add_mod n CHUNK_MAX
  have hmod := Nat.mod_lt n CHUNK_MAX_pos
  rw [Nat.mul_comm] at hsplit
  rw [blockCount]
  apply Nat.div_eq_of_lt_le
  · rw [Nat.add_mul]
    split <;> omega
  · rw [Nat.add_mul, Nat.add_mul]
    split <;> omega

theorem After.flush (h : After fileId seen p) :
    p.flush fileId = (range (blockCount CHUNK_MAX seen.length)).map (blockPut fileId seen) := by
  have hsplit := position_add_mod seen.length
  have hmod := Nat.mod_lt seen.length CHUNK_MAX_pos
  rw [Preload.flush, blockCount_eq, ← h.length, h.puts]
  split
  · rename_i hpos
    have hend : blockEnd seen.length (seen.length / CHUNK_MAX) = seen.length := by
      rw [blockEnd]
      omega
    rw [range_succ, map_append, map_singleton, blockPut, block, hend,
      List.segment, take_length, h.position, h.chunk]
    rw [← h.length] at hsplit
    rw [hsplit]
  · rw [Nat.add_zero]

/-- **What the preload puts**: the blocks of the model, in order. -/
theorem fetchWholeModelToCache_eq (fileId : String) (slices : List Bytes) :
    fetchWholeModelToCache fileId slices true =
      (range (blockCount CHUNK_MAX slices.flatten.length)).map (blockPut fileId slices.flatten) := by
  have hafter := (After.start fileId).stream slices
  rw [nil_append] at hafter
  rw [fetchWholeModelToCache, if_pos rfl, hafter.flush]

/-- A stream that fails leaves full blocks of what came. -/
theorem fetchWholeModelToCache_failed (fileId : String) (slices : List Bytes) :
    fetchWholeModelToCache fileId slices false =
      (range (slices.flatten.length / CHUNK_MAX)).map (blockPut fileId slices.flatten) := by
  have hafter := (After.start fileId).stream slices
  rw [nil_append] at hafter
  rw [fetchWholeModelToCache, if_neg Bool.false_ne_true, hafter.puts]

/-! ### What the preload is worth -/

/-- The puts of a preload, for a reader of the file. -/
structure Preloaded (f : File) (model : Bytes) (puts : List (String × Bytes)) : Prop where
  count : puts.length = (model.length + CHUNK_MAX - 1) / CHUNK_MAX
  entry : ∀ i, i < puts.length →
    puts[i]? = some (chunkKey f.fileId (chunkPosition i) (blockEnd model.length i : Nat),
      model.segment (chunkPosition i) (blockEnd model.length i))
  nonempty : ∀ i, i < puts.length → chunkPosition i < blockEnd model.length i
  partition : ∀ p < model.length, ∃! i, i < puts.length ∧ chunkPosition i ≤ p ∧ p < blockEnd model.length i
  reader : ∀ p < model.length, f.key (p / CHUNK_MAX) ∈ puts.map Prod.fst

theorem preloaded (f : File) (slices : List Bytes) (hsize : f.size = slices.flatten.length) :
    Preloaded f slices.flatten (fetchWholeModelToCache f.fileId slices true) := by
  rw [fetchWholeModelToCache_eq]
  generalize slices.flatten = model at hsize
  have hlength : ((range (blockCount CHUNK_MAX model.length)).map (blockPut f.fileId model)).length =
      blockCount CHUNK_MAX model.length := by
    rw [length_map, length_range]
  constructor
  · rw [hlength, blockCount]
  · intro i hi
    rw [hlength] at hi
    rw [getElem?_map, getElem?_range hi]
    rfl
  · intro i hi
    rw [hlength, lt_blockCount_iff CHUNK_MAX_pos] at hi
    have hpos := CHUNK_MAX_pos
    rw [blockEnd, chunkPosition]
    omega
  · intro p hp
    rw [hlength]
    exact existsUnique_block CHUNK_MAX_pos hp
  · intro p hp
    have hblock := mem_block CHUNK_MAX_pos hp
    rw [map_map, mem_map]
    refine ⟨p / CHUNK_MAX, ?_, ?_⟩
    · rw [mem_range, lt_blockCount_iff CHUNK_MAX_pos]
      exact Nat.lt_of_le_of_lt hblock.1 hp
    · rw [key_eq, hsize]
      rfl

/-- The cache finds what has been put. -/
def Working (f : File) (s : State) : Event → Prop
  | .cacheResolved i none => ∀ load, s.loads[i]? = some load → f.key load.idx ∉ s.puts.map Prod.fst
  | _ => True

/-- Every chunk of the file is in the cache, and no load of one has gone on to the network. -/
structure Cached (f : File) (s : State) : Prop where
  puts : ∀ idx, chunkPosition idx < f.size → f.key idx ∈ s.puts.map Prod.fst
  loads : ∀ load ∈ s.loads, load.phase = .fetching → f.size ≤ chunkPosition load.idx

variable {s t : State}

theorem Cached.setPhase (hcached : Cached f s) {i : Nat} {load : Load} {phase : Phase}
    (hphase : phase = .fetching → f.size ≤ chunkPosition load.idx) : Cached f (s.setPhase i load phase) := by
  refine ⟨hcached.puts, fun load' hload' hfetching => ?_⟩
  rcases mem_setPhase hload' with hload' | rfl
  · exact hcached.loads load' hload' hfetching
  · exact hphase hfetching

theorem Cached.of_same (hcached : Cached f s) (hputs : s.puts <+: t.puts) (hloads : t.loads = s.loads) :
    Cached f t := by
  constructor
  · intro idx hidx
    exact (hputs.map Prod.fst).subset (hcached.puts idx hidx)
  · rw [hloads]
    exact hcached.loads

theorem Cached.resolve (hcached : Cached f s) (i : Nat) (load : Load) (bytes : Bytes) :
    Cached f (s.resolve i load bytes) := by
  unfold State.resolve State.reject
  split
  · have hphase : Cached f (s.setPhase i load .failed) := hcached.setPhase (by simp)
    exact hphase.of_same prefix_rfl rfl
  · exact (hcached.setPhase (by simp)).of_same prefix_rfl rfl

theorem Cached.reads {buffer : Bytes} {offset length position : Nat} {now : Int} {result : Result}
    (hcached : Cached f s) (h : Reads s buffer offset length position now result t) : Cached f t := by
  cases h with
  | empty | failed | waiting => exact hcached
  | broken | hit => exact hcached.of_same prefix_rfl rfl
  | miss =>
      refine ⟨hcached.puts, fun load hload hfetching => ?_⟩
      rw [mem_append, mem_singleton] at hload
      rcases hload with hload | rfl
      · exact hcached.loads load hload hfetching
      · cases hfetching

theorem Cached.step {e : Event} (hcached : Cached f s) (hworking : Working f s e)
    (hstep : (virtualFile f).step s e = some t) : Cached f t := by
  cases e with
  | read buffer offset length position now =>
      cases hstep
      exact hcached.reads (read_reads s buffer offset length position now)
  | cacheResolved i data =>
      simp only [virtualFile, State.step] at hstep
      split at hstep
      · rename_i idx hload
        cases data with
        | some bytes =>
            cases hstep
            exact hcached.resolve i _ bytes
        | none =>
            cases hstep
            refine hcached.setPhase fun _ => ?_
            by_contra hidx
            exact hworking _ hload (hcached.puts idx (Nat.lt_of_not_le hidx))
      · cases hstep
  | fetchResolved i bytes =>
      simp only [virtualFile, State.step] at hstep
      split at hstep
      · rename_i idx hload
        cases hstep
        have hput : Cached f (s.put (f.key idx) bytes) := hcached.of_same (prefix_append _ _) rfl
        exact hput.resolve i _ bytes
      · cases hstep
  | cacheRejected i error | fetchRejected i error =>
      simp only [virtualFile, State.step] at hstep
      split at hstep
      · cases hstep
        exact (hcached.setPhase (by simp)).of_same prefix_rfl rfl
      · cases hstep
  | preload slices ended =>
      cases hstep
      exact hcached.of_same (prefix_append _ _) rfl
  | reopen =>
      cases hstep
      exact ⟨hcached.puts, by simp [State.initial]⟩

/-- **Writer and reader agree.** After a preload that has ended, the puts are the blocks of the model,
each under the key of every read into it, and with a cache that finds what was put no load of a chunk of
the file goes on to the network. -/
theorem preload_agrees (f : File) (slices : List Bytes) (hsize : f.size = slices.flatten.length) :
    Preloaded f slices.flatten (fetchWholeModelToCache f.fileId slices true) ∧
      ∀ before es s,
        (virtualFile f).Along (Working f)
          { State.initial with puts := before ++ fetchWholeModelToCache f.fileId slices true } es →
        (virtualFile f).run
          { State.initial with puts := before ++ fetchWholeModelToCache f.fileId slices true } es = some s →
        ∀ load ∈ s.loads, load.phase = .fetching → f.size ≤ chunkPosition load.idx := by
  have hpreloaded := preloaded f slices hsize
  refine ⟨hpreloaded, fun before es s halong hrun => ?_⟩
  have hstart : Cached f { State.initial with puts := before ++ fetchWholeModelToCache f.fileId slices true } := by
    refine ⟨fun idx hidx => ?_, by simp [State.initial]⟩
    have hkey := hpreloaded.reader (chunkPosition idx) (hsize ▸ hidx)
    rw [chunkPosition, Nat.mul_div_cancel _ CHUNK_MAX_pos] at hkey
    rw [map_append]
    exact mem_append_right _ hkey
  have hcached : Cached f s := run_keeps_along (fun _ _ _ h => h.step) hstart halong hrun
  exact hcached.loads

/-- A read whose chunk the cache has, and its retry. -/
def cachedRead : List Event :=
  [.read [0, 0] 0 2 1 10, .cacheResolved 0 (some [1, 2, 3]), .read [0, 0] 0 2 1 11]

theorem preload_agrees_cachedRead : ∃ s, (virtualFile ⟨"m", 3⟩).run
      { State.initial with puts := [] ++ fetchWholeModelToCache "m" [[1, 2], [], [3]] true } cachedRead =
        some s ∧
    Preloaded ⟨"m", 3⟩ [1, 2, 3] (fetchWholeModelToCache "m" [[1, 2], [], [3]] true) ∧
      ∀ load ∈ s.loads, load.phase = .fetching → 3 ≤ chunkPosition load.idx := by
  obtain ⟨hpreloaded, hruns⟩ := preload_agrees ⟨"m", 3⟩ [[1, 2], [], [3]] rfl
  refine ⟨_, rfl, hpreloaded, hruns [] cachedRead _ ?_ rfl⟩
  exact ⟨trivial, fun _ _ => ⟨trivial, fun _ _ => ⟨trivial, fun _ _ => trivial⟩⟩⟩

end LlmRuntime.VirtualFile

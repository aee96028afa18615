import LlmRuntime.VirtualFile.Opening
import LlmRuntime.VirtualFile.Short

/-!
# Tabs that share a cache

The chunk cache outlives pages and serves all tabs, whatever they open: other models, a model that has been
replaced under its URL, a download that broke off. A read still gives the bytes of the model that its tab
has opened. `contents` says which bytes an identity stands for, and all that is asked of servers, files and
the cache is that they answer accordingly.
-/

namespace LlmRuntime.VirtualFile

open Transition List

/-! ### Keys of several files -/

/-- File and start of a chunk can be read off its key. -/
theorem chunkKey_inj_fileId {fileId fileId' : String} {a a' : Nat} {b b' : Int}
    (hlength : fileId.length = fileId'.length) (h : chunkKey fileId a b = chunkKey fileId' a' b') :
    fileId = fileId' ∧ a = a' := by
  have hlist := congrArg String.toList h
  rw [toList_chunkKey, toList_chunkKey] at hlist
  have hids := append_inj_left hlist (by simp [String.length_toList, hlength])
  rw [String.toList_append, String.toList_append, String.toList_append, String.toList_append,
    append_cancel_right_eq, append_cancel_left_eq] at hids
  have hfileId : fileId = fileId' := String.ext hids
  rw [hfileId] at h
  exact ⟨hfileId, chunkKey_inj h⟩

/-- What is assumed of the digest: hexadecimal digits of 256 bits, and no two models with the same one. -/
structure Distinguishes (digestString : String → String) (contents : String → Bytes) : Prop where
  length : ∀ identity, (digestString identity).length = 64
  contents_eq : ∀ a b, digestString a = digestString b → contents a = contents b

section

variable (digestString : String → String) (contents : String → Bytes)

/-- The file that a tab has opened under an identity. -/
def modelFile (identity : String) : File := fileOf digestString identity (contents identity).length

/-- Every chunk in the cache is one of the model that its key names. -/
def Agrees (cache : Cache) : Prop :=
  ∀ identity idx bytes, chunkPosition idx < (contents identity).length →
    ((modelFile digestString contents identity).key idx, bytes) ∈ cache → bytes = block (contents identity) idx

/-- An answer that gives what the identity stands for. -/
def Conforms (s : Tabs) (e : Nat × TabEvent) : Prop :=
  match s.stage e.1, e.2 with
  | .closed, .openFile name content lastModified =>
      content = contents (fileIdentity name content.length lastModified)
  | .heading modelUrl, .headed (.ok head) => isOk head.status → ∀ rawLength ∈ head.rawLength,
      number rawLength = some (contents (urlIdentity modelUrl rawLength head)).length
  | .preloading identity _ slices, .sliced (.ok (some slice)) => (slices ++ [slice]).flatten <+: contents identity
  | .preloading identity _ slices, .sliced (.ok none) => slices.flatten = contents identity
  | .opened identity size _ node, .cacheResolved i (some bytes) => ∀ load ∈ node.loads[i]?,
      ((fileOf digestString identity size).key load.idx, bytes) ∈ s.cache
  | .opened identity size (.ranges _) node, .fetched i (.ok (status, body)) => ∀ load ∈ node.loads[i]?,
      status = 206 → chunkPosition load.idx < size → body = (contents identity).segment
        (chunkPosition load.idx) ((fileOf digestString identity size).chunkEnd load.idx).toNat
  | _, _ => True

/-- The cache finds what a finished download has put. -/
def Finds (s : Tabs) (e : Nat × TabEvent) : Prop :=
  match s.stage e.1, e.2 with
  | .opened identity size .stored node, .cacheResolved i none => ∀ load ∈ node.loads[i]?,
      (fileOf digestString identity size).key load.idx ∉ s.cache.map Prod.fst
  | _, _ => True

end

variable {digestString : String → String} {contents : String → Bytes} {cache cache' puts : Cache}
  {identity : String} {size idx : Nat}

theorem Agrees.nil : Agrees digestString contents [] := by
  intro identity idx bytes hidx hmem
  cases hmem

theorem modelFile_size (identity : String) :
    (modelFile digestString contents identity).size = (contents identity).length := rfl

/-- Chunks of two models have one key only if the models are the same. -/
theorem modelFile_key_inj (hdigest : Distinguishes digestString contents) {identity' : String} {idx' : Nat}
    (h : (modelFile digestString contents identity).key idx =
      (modelFile digestString contents identity').key idx') :
    contents identity = contents identity' ∧ idx = idx' := by
  have hlength : (digestString identity).length = (digestString identity').length := by
    rw [hdigest.length, hdigest.length]
  obtain ⟨hfileId, hposition⟩ := chunkKey_inj_fileId hlength h
  exact ⟨hdigest.contents_eq _ _ hfileId, chunkPosition_inj hposition⟩

/-- Chunks of a model may be put. -/
theorem Agrees.append (hdigest : Distinguishes digestString contents)
    (hagrees : Agrees digestString contents cache)
    (hputs : ∀ key bytes, (key, bytes) ∈ puts → ∃ identity idx,
      key = (modelFile digestString contents identity).key idx ∧
        (chunkPosition idx < (contents identity).length → bytes = block (contents identity) idx)) :
    Agrees digestString contents (cache ++ puts) := by
  intro identity idx bytes hidx hmem
  rw [mem_append] at hmem
  rcases hmem with hmem | hmem
  · exact hagrees identity idx bytes hidx hmem
  · obtain ⟨identity', idx', hkey, hbytes⟩ := hputs _ _ hmem
    obtain ⟨hcontents, rfl⟩ := modelFile_key_inj hdigest hkey
    rw [hcontents] at hidx ⊢
    exact hbytes hidx

/-! ### The download -/

/-- What has been put stays put when the stream goes on. -/
theorem prefix_fetchWholeModelToCache (fileId : String) (slices more : List Bytes) (ended : Bool) :
    fetchWholeModelToCache fileId slices false <+: fetchWholeModelToCache fileId (slices ++ more) ended := by
  have hflatten : slices.flatten <+: (slices ++ more).flatten := by
    rw [flatten_append]
    exact prefix_append _ _
  have hmap : ∀ n, slices.flatten.length / CHUNK_MAX ≤ n →
      (range (slices.flatten.length / CHUNK_MAX)).map (blockPut fileId slices.flatten) <+:
        (range n).map (blockPut fileId (slices ++ more).flatten) := by
    intro n hn
    rw [map_blockPut fileId hflatten]
    obtain ⟨k, rfl⟩ := Nat.exists_eq_add_of_le hn
    rw [range_add, map_append]
    exact prefix_append _ _
  have hdiv := Nat.div_le_div_right (c := CHUNK_MAX) hflatten.length_le
  rw [fetchWholeModelToCache_failed]
  cases ended with
  | true =>
      rw [fetchWholeModelToCache_eq]
      apply hmap
      rw [blockCount_eq]
      exact Nat.le_add_right_of_le hdiv
  | false =>
      rw [fetchWholeModelToCache_failed]
      exact hmap _ hdiv

theorem append_newPuts (fileId : String) (slices more : List Bytes) (ended : Bool) :
    fetchWholeModelToCache fileId slices false ++ newPuts fileId slices (slices ++ more) ended =
      fetchWholeModelToCache fileId (slices ++ more) ended := by
  rw [newPuts, ← prefix_iff_eq_append]
  exact prefix_fetchWholeModelToCache fileId slices more ended

/-- All that the download has put so far is in the cache. -/
theorem subset_newPuts {slices more : List Bytes} {ended : Bool} {fileId : String}
    (h : fetchWholeModelToCache fileId slices false ⊆ cache) :
    fetchWholeModelToCache fileId (slices ++ more) ended ⊆
      cache ++ newPuts fileId slices (slices ++ more) ended := by
  rw [← append_newPuts]
  intro put hput
  rw [mem_append] at hput ⊢
  exact hput.imp_left fun hput => h hput

/-- Also a download that breaks off puts blocks of the model only. -/
theorem exists_blockPut {fileId : String} {model : Bytes} {slices : List Bytes} {ended : Bool}
    (hslices : if ended then slices.flatten = model else slices.flatten <+: model) {put : String × Bytes}
    (hmem : put ∈ fetchWholeModelToCache fileId slices ended) : ∃ k, blockPut fileId model k = put := by
  cases ended with
  | true =>
      rw [fetchWholeModelToCache_eq, show slices.flatten = model from hslices] at hmem
      obtain ⟨k, -, hk⟩ := mem_map.mp hmem
      exact ⟨k, hk⟩
  | false =>
      rw [fetchWholeModelToCache_failed, map_blockPut fileId hslices] at hmem
      obtain ⟨k, -, hk⟩ := mem_map.mp hmem
      exact ⟨k, hk⟩

theorem agrees_newPuts (hdigest : Distinguishes digestString contents)
    (hagrees : Agrees digestString contents cache) {before slices : List Bytes} {ended : Bool}
    (hslices : if ended then slices.flatten = contents identity else slices.flatten <+: contents identity) :
    Agrees digestString contents (cache ++ newPuts (digestString identity) before slices ended) := by
  apply hagrees.append hdigest
  intro key bytes hmem
  rw [newPuts] at hmem
  obtain ⟨k, hk⟩ := exists_blockPut hslices (mem_of_mem_drop hmem)
  rw [blockPut, Prod.mk.injEq] at hk
  refine ⟨identity, k, ?_, fun _ => hk.2.symm⟩
  rw [key_eq, ← hk.1]
  rfl

/-! ### A stage -/

/-- A tab knows the size of its model, its table is right, and after a download the cache has every chunk. -/
def TabStage.Holds (digestString : String → String) (contents : String → Bytes) (cache : Cache) :
    TabStage → Prop
  | .probing _ identity size => size = (contents identity).length
  | .downloading _ identity size => size = (contents identity).length
  | .preloading identity size slices => size = (contents identity).length ∧
      slices.flatten <+: contents identity ∧
        fetchWholeModelToCache (digestString identity) slices false ⊆ cache
  | .opened identity size origin node => size = (contents identity).length ∧
      Exact (modelFile digestString contents identity) (contents identity) { node with puts := [] } ∧
        match origin with
        | .file content => content = contents identity
        | .ranges _ => True
        | .stored => ∀ idx, chunkPosition idx < (contents identity).length →
            (modelFile digestString contents identity).key idx ∈ cache.map Prod.fst
  | .closed => True
  | .heading _ => True
  | .failed _ => True

variable {stage stage' : TabStage} {origin : Origin} {node : State} {e : Event}

theorem TabStage.Holds.mono (h : stage.Holds digestString contents cache) (hcache : cache <+: cache') :
    stage.Holds digestString contents cache' := by
  cases stage with
  | preloading identity size slices => exact ⟨h.1, h.2.1, fun put hput => hcache.subset (h.2.2 hput)⟩
  | opened identity size origin node =>
      refine ⟨h.1, h.2.1, ?_⟩
      cases origin with
      | stored => exact fun idx hidx => (hcache.map Prod.fst).subset (h.2.2 idx hidx)
      | file | ranges => exact h.2.2
  | closed | heading | probing | downloading | failed => exact h

/-- What a step of a tab keeps. -/
structure Advances (digestString : String → String) (contents : String → Bytes) (cache : Cache)
    (stage : TabStage) (cache' : Cache) : Prop where
  holds : stage.Holds digestString contents cache'
  prefix_cache : cache <+: cache'
  agrees : Agrees digestString contents cache'

theorem exact_opened (hagrees : Agrees digestString contents cache)
    (hexact : Exact (modelFile digestString contents identity) (contents identity) { node with puts := [] }) :
    Exact (modelFile digestString contents identity) (contents identity) { node with puts := cache } :=
  ⟨fun idx bytes hidx hmem => hagrees identity idx bytes hidx hmem, hexact.res⟩

theorem advances_node (hdigest : Distinguishes digestString contents)
    (hagrees : Agrees digestString contents cache)
    (hholds : (TabStage.opened identity size origin node).Holds digestString contents cache)
    (hhonest : Honest (modelFile digestString contents identity) (contents identity) { node with puts := cache } e)
    (hpreload : ∀ slices ended, e ≠ .preload slices ended)
    (hstep : nodeStep digestString identity size origin node cache e = some (stage', cache')) :
    Advances digestString contents cache stage' cache' := by
  obtain ⟨rfl, hexact, horigin⟩ := hholds
  rw [nodeStep, Option.map_eq_some_iff] at hstep
  obtain ⟨t, ht, hopened⟩ := hstep
  rw [Prod.mk.injEq] at hopened
  obtain ⟨rfl, rfl⟩ := hopened
  have hnext : Exact (modelFile digestString contents identity) (contents identity) t :=
    (exact_opened hagrees hexact).step (modelFile_size identity) hhonest ht
  have hgrows : cache <+: t.puts ∧ Agrees digestString contents t.puts := by
    rcases step_puts ht with ⟨hputs, -⟩ | ⟨slices, ended, rfl, -⟩ | ⟨i, bytes, load, rfl, hload, hputs⟩
    · rw [hputs]
      exact ⟨prefix_rfl, hagrees⟩
    · exact absurd rfl (hpreload slices ended)
    · rw [hputs]
      refine ⟨prefix_append _ _, hagrees.append hdigest fun key value hmem => ?_⟩
      rw [mem_singleton, Prod.mk.injEq] at hmem
      refine ⟨identity, load.idx, hmem.1, fun hidx => ?_⟩
      rw [hmem.2, hhonest load hload hidx, chunkEnd_eq, Int.toNat_natCast, block, modelFile_size]
  have hopened :
      (TabStage.opened identity (contents identity).length origin t).Holds digestString contents cache :=
    ⟨rfl, ⟨by simp, hnext.res⟩, horigin⟩
  exact ⟨hopened.mono hgrows.1, hgrows.1, hgrows.2⟩

theorem holds_initial {origin : Origin} (hsize : size = (contents identity).length)
    (horigin : match origin with
      | .file content => content = contents identity
      | .ranges _ => True
      | .stored => ∀ idx, chunkPosition idx < (contents identity).length →
          (modelFile digestString contents identity).key idx ∈ cache.map Prod.fst) :
    (TabStage.opened identity size origin .initial).Holds digestString contents cache :=
  ⟨hsize, .initial _ _, horigin⟩

theorem holds_headStage {modelUrl : String} {head : HeadAnswer}
    (hconforms : isOk head.status → ∀ rawLength ∈ head.rawLength,
      number rawLength = some (contents (urlIdentity modelUrl rawLength head)).length) :
    (headStage modelUrl head).Holds digestString contents cache := by
  unfold headStage
  split
  · trivial
  · rename_i hok
    split
    · trivial
    · rename_i rawLength hraw
      split
      · trivial
      · rename_i size hnumber
        split
        · trivial
        · have hlength := hconforms (by simpa using hok) rawLength hraw
          rw [hnumber, Option.some.injEq] at hlength
          exact hlength

/-- What a load is given, in the terms of the node. -/
theorem honest_settle (cache : Cache) (origin : Origin) (node : State) (i : Nat)
    (answer : Except String (Nat × Bytes))
    (horigin : ∀ content, origin = .file content → content = contents identity)
    (hconforms : ∀ status body modelUrl, origin = .ranges modelUrl → answer = .ok (status, body) →
      ∀ load ∈ node.loads[i]?, status = 206 → chunkPosition load.idx < (contents identity).length →
        body = (contents identity).segment (chunkPosition load.idx)
          ((modelFile digestString contents identity).chunkEnd load.idx).toNat) :
    Honest (modelFile digestString contents identity) (contents identity) { node with puts := cache }
        (settle (modelFile digestString contents identity) origin node i answer) ∧
      ∀ slices ended, settle (modelFile digestString contents identity) origin node i answer ≠
        .preload slices ended := by
  simp only [settle]
  constructor
  · split
    · rename_i bytes hfetch
      intro load hload hidx
      replace hload : node.loads[i]? = some load := hload
      rw [hload, Option.elim_some] at hfetch
      cases origin with
      | stored => cases hfetch
      | file content =>
          cases answer with
          | error => cases hfetch
          | ok answer =>
              obtain rfl := horigin content rfl
              exact (Except.ok.inj hfetch).symm
      | ranges modelUrl =>
          cases answer with
          | error => cases hfetch
          | ok answer =>
              simp only [Origin.fetchRange] at hfetch
              split at hfetch
              · rename_i hstatus
                rw [← Except.ok.inj hfetch]
                exact hconforms answer.1 answer.2 modelUrl rfl rfl load hload hstatus hidx
              · cases hfetch
    · trivial
  · intro slices ended
    split <;> simp

theorem TabStage.advances {s : Tabs} {tab : Nat} {event : TabEvent}
    (hdigest : Distinguishes digestString contents) (hagrees : Agrees digestString contents s.cache)
    (hholds : (s.stage tab).Holds digestString contents s.cache)
    (hconforms : Conforms digestString contents s (tab, event))
    (hstep : (s.stage tab).step digestString s.cache event = some (stage', cache')) :
    Advances digestString contents s.cache stage' cache' := by
  have hstay : stage'.Holds digestString contents s.cache → cache' = s.cache →
      Advances digestString contents s.cache stage' cache' := by
    rintro hholds' rfl
    exact ⟨hholds', prefix_rfl, hagrees⟩
  simp only [Conforms] at hconforms
  generalize hstage : s.stage tab = stage at hholds hconforms hstep
  unfold TabStage.step at hstep
  split at hstep
  · -- openFile
    split at hstep
    · cases hstep
      exact hstay trivial rfl
    · cases hstep
      have hcontent : _ = contents _ := hconforms
      exact hstay (holds_initial (congrArg length hcontent) hcontent) rfl
  · split at hstep <;> (cases hstep; exact hstay trivial rfl)
  · cases hstep
    exact hstay trivial rfl
  · cases hstep
    exact hstay (holds_headStage hconforms) rfl
  · cases hstep
    exact hstay trivial rfl
  · split at hstep
    · cases hstep
      exact hstay (holds_initial hholds trivial) rfl
    · cases hstep
      exact hstay hholds rfl
  · cases hstep
    exact hstay trivial rfl
  · split at hstep
    · cases hstep
      refine hstay ⟨hholds, nil_prefix, ?_⟩ rfl
      intro put hput
      rw [fetchWholeModelToCache_failed] at hput
      simp at hput
    · cases hstep
      exact hstay trivial rfl
  · cases hstep
    exact hstay trivial rfl
  · -- a slice
    cases hstep
    obtain ⟨hsize, -, hsubset⟩ := hholds
    exact ⟨⟨hsize, hconforms, subset_newPuts hsubset⟩, prefix_append _ _,
      agrees_newPuts hdigest hagrees hconforms⟩
  · -- the end of the download
    rename_i identity size slices
    cases hstep
    obtain ⟨hsize, -, hsubset⟩ := hholds
    have hall : slices.flatten = contents identity := hconforms
    have hstored : fetchWholeModelToCache (digestString identity) (slices ++ []) true ⊆
        s.cache ++ newPuts (digestString identity) slices (slices ++ []) true := subset_newPuts hsubset
    rw [append_nil] at hstored
    refine ⟨holds_initial hsize fun idx hidx => ?_, prefix_append _ _, agrees_newPuts hdigest hagrees hall⟩
    apply map_subset Prod.fst hstored
    have hkey := (preloaded (modelFile digestString contents identity) slices
      (by rw [modelFile_size, hall])).reader (chunkPosition idx) (by rwa [hall])
    rwa [chunkPosition, Nat.mul_div_cancel _ CHUNK_MAX_pos] at hkey
  · refine advances_node hdigest hagrees hholds ?_ (by simp) hstep
    trivial
  · -- an answer of the cache
    rename_i identity size origin node load data
    refine advances_node hdigest hagrees hholds ?_ (by simp) hstep
    obtain ⟨rfl, -, -⟩ := hholds
    cases data with
    | none => trivial
    | some bytes => exact hconforms
  · refine advances_node hdigest hagrees hholds ?_ (by simp) hstep
    trivial
  · -- an answer of `fetchRange`
    rename_i identity size origin node load answer
    obtain ⟨rfl, hexact, horigin⟩ := hholds
    have hsettle := honest_settle s.cache origin node load answer
      (by rintro content rfl; exact horigin) (by rintro status body modelUrl rfl rfl; exact hconforms)
    exact advances_node hdigest hagrees ⟨rfl, hexact, horigin⟩ hsettle.1 hsettle.2 hstep
  · cases hstep
    exact hstay trivial rfl
  · cases hstep

/-! ### All tabs -/

structure Tabs.Hold (digestString : String → String) (contents : String → Bytes) (s : Tabs) : Prop where
  agrees : Agrees digestString contents s.cache
  stages : ∀ tab, (s.stage tab).Holds digestString contents s.cache

variable {s t : Tabs}

theorem Tabs.Hold.start : (tabs digestString).start.Hold digestString contents :=
  ⟨.nil, fun _ => trivial⟩

/-- One tab takes the step. -/
theorem exists_stage {e : Nat × TabEvent} (hstep : (tabs digestString).step s e = some t) :
    ∃ stage', (s.stage e.1).step digestString s.cache e.2 = some (stage', t.cache) ∧
      t.stage = Function.update s.stage e.1 stage' := by
  simp only [tabs, Tabs.step, Option.map_eq_some_iff] at hstep
  obtain ⟨⟨stage', cache'⟩, hstage, rfl⟩ := hstep
  exact ⟨stage', hstage, rfl⟩

theorem Tabs.Hold.step {e : Nat × TabEvent} (hdigest : Distinguishes digestString contents)
    (hhold : s.Hold digestString contents) (hconforms : Conforms digestString contents s e)
    (hstep : (tabs digestString).step s e = some t) : t.Hold digestString contents := by
  obtain ⟨stage', hstage, hupdate⟩ := exists_stage hstep
  have hadvances := TabStage.advances hdigest hhold.agrees (hhold.stages e.1) hconforms hstage
  refine ⟨hadvances.agrees, fun tab => ?_⟩
  rw [hupdate]
  by_cases htab : tab = e.1
  · rw [htab, Function.update_self]
    exact hadvances.holds
  · rw [Function.update_of_ne htab]
    exact (hhold.stages tab).mono hadvances.prefix_cache

/-- Whether a read succeeds does not depend on the cache. -/
theorem read_puts (node : State) (buffer : Bytes) (offset length position : Nat) (now : Int) :
    ({ node with puts := [] }.read buffer offset length position now).1 =
      (node.read buffer offset length position now).1 := by
  simp only [State.read, State.fail]
  split
  · rfl
  · split
    · rfl
    · split
      · split
        · rfl
        · split
          · rfl
          · split <;> rfl
      · rfl

/-! ### After a download -/

/-- No load of a chunk of the file has missed the cache. -/
def TabStage.Stocked : TabStage → Prop
  | .opened _ size .stored node => ∀ load ∈ node.loads, load.phase = .fetching → size ≤ chunkPosition load.idx
  | _ => True

theorem stocked_node (hholds : (TabStage.opened identity size origin node).Holds digestString contents cache)
    (hstocked : (TabStage.opened identity size origin node).Stocked)
    (hworking : origin = .stored → Working (fileOf digestString identity size) { node with puts := cache } e)
    (hstep : nodeStep digestString identity size origin node cache e = some (stage', cache')) :
    stage'.Stocked := by
  rw [nodeStep, Option.map_eq_some_iff] at hstep
  obtain ⟨t, ht, hopened⟩ := hstep
  rw [Prod.mk.injEq] at hopened
  obtain ⟨rfl, rfl⟩ := hopened
  cases origin with
  | file | ranges => trivial
  | stored =>
      obtain ⟨rfl, -, hkeys⟩ := hholds
      have hcached : Cached (modelFile digestString contents identity) { node with puts := cache } :=
        ⟨hkeys, hstocked⟩
      have hnext : Cached (modelFile digestString contents identity) t := hcached.step (hworking rfl) ht
      exact hnext.loads

theorem stocked_headStage (modelUrl : String) (head : HeadAnswer) : (headStage modelUrl head).Stocked := by
  unfold headStage
  split
  · trivial
  · split
    · trivial
    · split
      · trivial
      · split <;> trivial

theorem TabStage.stocked {tab : Nat} {event : TabEvent}
    (hholds : (s.stage tab).Holds digestString contents s.cache) (hstocked : (s.stage tab).Stocked)
    (hfinds : Finds digestString s (tab, event))
    (hstep : (s.stage tab).step digestString s.cache event = some (stage', cache')) : stage'.Stocked := by
  simp only [Finds] at hfinds
  generalize hstage : s.stage tab = stage at hholds hstocked hfinds hstep
  unfold TabStage.step at hstep
  split at hstep
  · split at hstep <;> (cases hstep; trivial)
  · split at hstep <;> (cases hstep; trivial)
  · cases hstep
    trivial
  · cases hstep
    exact stocked_headStage _ _
  · cases hstep
    trivial
  · split at hstep <;> (cases hstep; trivial)
  · cases hstep
    trivial
  · split at hstep <;> (cases hstep; trivial)
  · cases hstep
    trivial
  · cases hstep
    trivial
  · cases hstep
    exact fun load hload => by cases hload
  · refine stocked_node hholds hstocked (fun _ => ?_) hstep
    trivial
  · -- an answer of the cache
    rename_i identity size origin node load data
    refine stocked_node hholds hstocked (fun horigin => ?_) hstep
    cases horigin
    cases data with
    | some bytes => trivial
    | none => exact hfinds
  · refine stocked_node hholds hstocked (fun _ => ?_) hstep
    trivial
  · rename_i identity size origin node load answer
    refine stocked_node hholds hstocked (fun horigin => ?_) hstep
    unfold settle
    dsimp only
    split <;> trivial
  · cases hstep
    trivial
  · cases hstep

structure Tabs.Stocked (digestString : String → String) (contents : String → Bytes) (s : Tabs) : Prop where
  hold : s.Hold digestString contents
  stages : ∀ tab, (s.stage tab).Stocked

theorem Tabs.Stocked.step {e : Nat × TabEvent} (hdigest : Distinguishes digestString contents)
    (hstocked : s.Stocked digestString contents)
    (hgiven : Conforms digestString contents s e ∧ Finds digestString s e)
    (hstep : (tabs digestString).step s e = some t) : t.Stocked digestString contents := by
  refine ⟨hstocked.hold.step hdigest hgiven.1 hstep, fun tab => ?_⟩
  obtain ⟨stage', hstage, hupdate⟩ := exists_stage hstep
  rw [hupdate]
  by_cases htab : tab = e.1
  · rw [htab, Function.update_self]
    exact TabStage.stocked (hstocked.hold.stages e.1) (hstocked.stages e.1) hgiven.2 hstage
  · rw [Function.update_of_ne htab]
    exact hstocked.stages tab

/-- **No tab reads another model.** In every run of any number of tabs over one cache, what a read returns
is of the model that its tab has opened. After a download no load of a chunk of the file misses the cache,
if the cache finds what was put. -/
theorem tabs_read (digestString : String → String) (contents : String → Bytes)
    (hdigest : Distinguishes digestString contents) (es : List (Nat × TabEvent)) (s : Tabs)
    (halong : (tabs digestString).Along (Conforms digestString contents) (tabs digestString).start es)
    (hrun : (tabs digestString).run (tabs digestString).start es = some s) :
    (∀ tab identity size origin node, s.stage tab = .opened identity size origin node →
      ∀ buffer offset length position now n buffer', position < size → 1 ≤ length →
        (node.read buffer offset length position now).1 = .returned n buffer' →
          ReadsModel (fileOf digestString identity size) (contents identity) buffer offset length position n
            buffer') ∧
    ((tabs digestString).Along (Finds digestString) (tabs digestString).start es →
      ∀ tab identity size node, s.stage tab = .opened identity size .stored node →
        ∀ load ∈ node.loads, load.phase = .fetching → size ≤ chunkPosition load.idx) := by
  constructor
  · intro tab identity size origin node hstage buffer offset length position now n buffer' hposition hlength
      hread
    have hhold : s.Hold digestString contents :=
      run_keeps_along (fun _ _ _ h => h.step hdigest) .start halong hrun
    have hholds := hhold.stages tab
    rw [hstage] at hholds
    obtain ⟨rfl, hexact, -⟩ := hholds
    rw [← read_puts] at hread
    exact hexact.read (modelFile_size identity) hposition hlength hread
  · intro hfinds tab identity size node hstage
    have hstart : (tabs digestString).start.Stocked digestString contents := ⟨.start, fun _ => trivial⟩
    have hstocked : s.Stocked digestString contents :=
      run_keeps_along (fun _ _ _ h => h.step hdigest) hstart (halong.and hfinds) hrun
    have hloads := hstocked.stages tab
    rw [hstage] at hloads
    exact hloads

/-- One tab loads a file of three bytes, then another one opens it too and finds it in the cache. -/
def twoTabs : List (Nat × TabEvent) :=
  [(0, .openFile "m" [1, 2, 3] 5), (0, .read [0, 0] 0 2 1 10), (0, .cacheResolved 0 none),
    (0, .fetched 0 (.ok (0, []))), (1, .openFile "m" [1, 2, 3] 5), (1, .read [0, 0] 0 2 1 11),
    (1, .cacheResolved 0 (some [1, 2, 3])), (0, .reload)]

/-- The SHA-256 of the file's identity. -/
def digestOfM (_ : String) : String := "ffebf8164828d759c68c3910172f415f26d84b4f4aef0aa46ebed3ee2a73b80c"

theorem distinguishes_m : Distinguishes digestOfM fun _ => [1, 2, 3] := by
  have hlength : (digestOfM "").length = 64 := by decide
  exact ⟨fun _ => hlength, fun _ _ _ => rfl⟩

theorem along_twoTabs :
    (tabs digestOfM).Along (Conforms digestOfM fun _ => [1, 2, 3]) (tabs digestOfM).start twoTabs := by
  -- the file is opened, and its chunk is not in the cache yet
  refine ⟨rfl, fun t ht => ?_⟩
  cases ht
  refine ⟨trivial, fun t ht => ?_⟩
  cases ht
  refine ⟨trivial, fun t ht => ?_⟩
  cases ht
  refine ⟨trivial, fun t ht => ?_⟩
  cases ht
  refine ⟨rfl, fun t ht => ?_⟩
  cases ht
  refine ⟨trivial, fun t ht => ?_⟩
  cases ht
  refine ⟨?_, fun t ht => ?_⟩
  · intro load hload
    cases hload
    exact List.mem_singleton.mpr rfl
  · cases ht
    exact ⟨trivial, fun _ _ => trivial⟩

theorem tabs_read_twoTabs : ∃ s node, (tabs digestOfM).run (tabs digestOfM).start twoTabs = some s ∧
    s.stage 1 = .opened (fileIdentity "m" 3 5) 3 (.file [1, 2, 3]) node ∧
      ReadsModel (fileOf digestOfM (fileIdentity "m" 3 5) 3) [1, 2, 3] [0, 0] 0 2 1 2 [2, 3] := by
  have hall := tabs_read digestOfM (fun _ => [1, 2, 3]) distinguishes_m twoTabs _ along_twoTabs rfl
  exact ⟨_, _, rfl, rfl, hall.1 1 _ 3 _ _ rfl [0, 0] 0 2 1 12 2 [2, 3] (by decide) (by decide) (by decide)⟩

end LlmRuntime.VirtualFile

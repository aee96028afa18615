import LlmRuntime.Serving.Ranges
import LlmRuntime.VirtualFile.PastEnd
import LlmRuntime.VirtualFile.Sharing

/-!
# The adapter and the development server

`prepareModel` against `serve-runtime.py`, in any number of tabs. The probe finds that the server honours
ranges, so the model is never downloaded as a whole, and every request for a chunk is answered with the
chunk: nothing ever makes the virtual file unreadable.
-/

namespace LlmRuntime.Serving

open VirtualFile Transition

/-! ### The answer to a HEAD request -/

def Head.headers : Head → List (String × String)
  | .answered response => response.headers
  | .stream _ headers _ _ => headers

/-- `headers.get(name)`, where the case of a header's name does not matter. -/
def header (name : String) (headers : List (String × String)) : Option String :=
  (headers.find? fun h => h.1.toList.map Char.toLower = name.toList).map Prod.snd

/-- `do_HEAD` is `send_head` without the body. -/
def headAnswer (file : ServedFile) (env : Environment) : HeadAnswer :=
  let head := sendHead file env none
  { status := head.status
    rawLength := (header "content-length" head.headers).map String.toList
    etag := header "etag" head.headers
    lastModified := header "last-modified" head.headers }

/-- What `http.server` does with a file that can be read. -/
structure Environment.Sends (env : Environment) (file : ServedFile) : Prop where
  opens : env.opens = true
  status_eq : env.base.status = 200
  length_eq : header "content-length" env.base.headers = some (toString file.content.length)

/-- `Number` reads the digits of a length back. -/
theorem number_toDigits {n : Nat} (h : n ≤ 2 ^ 53) : number (Nat.toDigits 10 n) = some n := by
  have hround : Binary64.round false (n : Nat) = .finite false n (.natCast h) := Binary64.ofInt_natCast h
  rw [number, Nat.ofDigitChars_ten_toDigits, hround]
  simp

section

variable (digestString : String → String) (contents : String → Bytes) (site : String → ServedFile)
  (env : String → Environment)

def rawLengthOf (modelUrl : String) : List Char := Nat.toDigits 10 (site modelUrl).content.length

/-- The identity of what is served under a URL. -/
def siteIdentity (modelUrl : String) : String :=
  urlIdentity modelUrl (rawLengthOf site modelUrl) (headAnswer (site modelUrl) (env modelUrl))

/-- The answer to the request for a chunk. -/
def chunkAnswer (modelUrl : String) (file : File) (idx : Nat) : Response :=
  get (site modelUrl) (env modelUrl) (some (rangeHeader (chunkPosition idx) (file.chunkEnd idx).toNat))

/-- The server answers every request, files can be read, the cache gives back what was put, and reads are
of the file and have room. -/
def ServedBy (s : Tabs) (e : Nat × TabEvent) : Prop :=
  match s.stage e.1, e.2 with
  | .closed, .openFile name content lastModified =>
      content = contents (fileIdentity name content.length lastModified)
  | .heading modelUrl, .headed answer => answer = .ok (headAnswer (site modelUrl) (env modelUrl))
  | .probing modelUrl _ _, .probed answer =>
      answer = .ok (get (site modelUrl) (env modelUrl) (some (rangeHeader 0 2))).status
  | .opened _ size _ _, .read buffer offset length position _ =>
      position < size ∧ offset + length ≤ buffer.length
  | .opened identity size _ node, .cacheResolved i (some bytes) => ∀ load ∈ node.loads[i]?,
      ((fileOf digestString identity size).key load.idx, bytes) ∈ s.cache
  | .opened _ _ _ _, .cacheRejected _ _ => False
  | .opened identity size (.ranges modelUrl) node, .fetched i answer => ∀ load ∈ node.loads[i]?,
      answer = .ok
        ((chunkAnswer site env modelUrl (fileOf digestString identity size) load.idx).status,
          (chunkAnswer site env modelUrl (fileOf digestString identity size) load.idx).body)
  | .opened _ _ (.file _) _, .fetched _ answer => answer.isOk
  | _, _ => True

/-- What the identities stand for, and the file that each URL names is served. -/
structure Served : Prop where
  digest : Distinguishes digestString contents
  contents_eq : ∀ modelUrl, contents (siteIdentity site env modelUrl) = (site modelUrl).content
  sends : ∀ modelUrl, (env modelUrl).Sends (site modelUrl)
  length_le : ∀ modelUrl, (site modelUrl).content.length ≤ 2 ^ 53

end

variable {digestString : String → String} {contents : String → Bytes} {site : String → ServedFile}
  {env : String → Environment} {cache cache' puts : Cache} {identity modelUrl : String} {size idx : Nat}

theorem headAnswer_status {file : ServedFile} {env : Environment} (hsends : env.Sends file) :
    isOk (headAnswer file env).status ∧
      (headAnswer file env).rawLength = some (Nat.toDigits 10 file.content.length) := by
  constructor
  · show isOk env.base.status
    rw [hsends.status_eq]
    rfl
  · show (header "content-length" env.base.headers).map String.toList = _
    rw [hsends.length_eq]
    simp

/-- The probe asks for two bytes, of which a file of one byte has one. -/
theorem probe_status {file : ServedFile} {env : Environment} (hopens : env.opens = true)
    (hne : 0 < file.content.length) : (get file env (some (rangeHeader 0 2))).status = 206 := by
  have hzero : Numeral (Nat.toDigits 10 0) := numeral_toDigits (by decide)
  have hone : Numeral (Nat.toDigits 10 1) := numeral_toDigits (by decide)
  have hparse := parseByteRange_closed hzero hone (by rw [decimal_toDigits, decimal_toDigits]; omega)
    file.content.length
  rw [decimal_toDigits, decimal_toDigits, if_neg (Nat.not_le.mpr hne)] at hparse
  exact (get_range hopens hparse).status_eq

/-! ### The cache -/

/-- Nothing of the model is behind its end. -/
theorem block_of_le {model : Bytes} (h : model.length ≤ chunkPosition idx) : block model idx = [] := by
  have hend : blockEnd model.length idx ≤ model.length := Nat.min_le_right _ _
  exact List.segment_of_le (Nat.le_trans hend h)

/-- The cache agrees also where a file has ended. -/
def AgreesWhole (digestString : String → String) (contents : String → Bytes) (cache : Cache) : Prop :=
  ∀ identity idx bytes, ((modelFile digestString contents identity).key idx, bytes) ∈ cache →
    bytes = block (contents identity) idx

theorem AgreesWhole.put (hdigest : Distinguishes digestString contents)
    (hagrees : AgreesWhole digestString contents cache) (identity : String) (idx : Nat) :
    AgreesWhole digestString contents
      (cache ++ [((modelFile digestString contents identity).key idx, block (contents identity) idx)]) := by
  intro identity' idx' bytes hmem
  rw [List.mem_append, List.mem_singleton, Prod.mk.injEq] at hmem
  rcases hmem with hmem | ⟨hkey, rfl⟩
  · exact hagrees identity' idx' bytes hmem
  · obtain ⟨hcontents, rfl⟩ := modelFile_key_inj hdigest hkey
    rw [hcontents]

variable {kind : SourceKind} {node t : State} {origin : Origin} {e : Event}

/-- Other tabs may fill the cache. -/
theorem sound_cache (hagrees : AgreesWhole digestString contents cache')
    (h : Sound (modelFile digestString contents identity) (contents identity) kind { node with puts := cache }) :
    Sound (modelFile digestString contents identity) (contents identity) kind { node with puts := cache' } where
  inv := ⟨h.inv.unfinished, h.inv.failed⟩
  exact := ⟨fun idx bytes _ hmem => hagrees identity idx bytes hmem, h.exact.res⟩
  tail := ⟨h.tail.remoteError, h.tail.loads,
    fun idx bytes hidx hmem => (hagrees identity idx bytes hmem).trans (block_of_le hidx), h.tail.res⟩

theorem sound_initial (hagrees : AgreesWhole digestString contents cache) (kind : SourceKind) :
    Sound (modelFile digestString contents identity) (contents identity) kind
      { State.initial with puts := cache } := by
  have hempty : Sound (modelFile digestString contents identity) (contents identity) kind
      { State.initial with puts := [] } := .initial _ _ kind
  exact sound_cache hagrees hempty

/-! ### A stage -/

def kindOf : Origin → SourceKind
  | .file _ => .file
  | .ranges _ => .url
  | .stored => .url

/-- A tab that has failed had nothing to open. -/
def Refused (error : String) : Prop :=
  error = "model file is empty" ∨ error = "model URL is empty" ∨ error = "invalid model Content-Length: 0"

/-- A tab never downloads, and its virtual file can be read. -/
def Sure (digestString : String → String) (contents : String → Bytes) (site : String → ServedFile)
    (env : String → Environment) (cache : Cache) : TabStage → Prop
  | .closed => True
  | .heading _ => True
  | .probing modelUrl identity size => identity = siteIdentity site env modelUrl ∧
      size = (contents identity).length ∧ 0 < size
  | .downloading _ _ _ => False
  | .preloading _ _ _ => False
  | .opened identity size origin node => size = (contents identity).length ∧
      Sound (modelFile digestString contents identity) (contents identity) (kindOf origin)
        { node with puts := cache } ∧
        match origin with
        | .file content => content = contents identity
        | .ranges modelUrl => (site modelUrl).content = contents identity
        | .stored => False
  | .failed error => Refused error

variable {stage stage' : TabStage}

theorem Sure.mono (hagrees : AgreesWhole digestString contents cache')
    (h : Sure digestString contents site env cache stage) : Sure digestString contents site env cache' stage := by
  cases stage with
  | opened identity size origin node => exact ⟨h.1, sound_cache hagrees h.2.1, h.2.2⟩
  | closed | heading | probing | downloading | preloading | failed => exact h

theorem sure_node (hdigest : Distinguishes digestString contents)
    (hagrees : AgreesWhole digestString contents cache)
    (hsure : Sure digestString contents site env cache (.opened identity size origin node))
    (hanswered : Answered (modelFile digestString contents identity) (contents identity) (kindOf origin)
      { node with puts := cache } e)
    (hreads : ReadsAt (fun position => position < (contents identity).length) e)
    (hpreload : ∀ slices ended, e ≠ .preload slices ended)
    (hstep : nodeStep digestString identity size origin node cache e = some (stage', cache')) :
    Sure digestString contents site env cache' stage' ∧ AgreesWhole digestString contents cache' := by
  obtain ⟨rfl, hsound, horigin⟩ := hsure
  rw [nodeStep, Option.map_eq_some_iff] at hstep
  obtain ⟨t, ht, hopened⟩ := hstep
  rw [Prod.mk.injEq] at hopened
  obtain ⟨rfl, rfl⟩ := hopened
  have hallowed : ReadsAt (fun q => q < (modelFile digestString contents identity).size ∨
      AtEnd (modelFile digestString contents identity) (kindOf origin) q) e := by
    cases e with
    | read => exact .inl hreads
    | cacheResolved | cacheRejected | fetchResolved | fetchRejected | preload | reopen => trivial
  have hnext := hsound.step (modelFile_size identity) hanswered hallowed ht
  refine ⟨⟨rfl, hnext, horigin⟩, ?_⟩
  rcases step_puts ht with ⟨hputs, -⟩ | ⟨slices, ended, rfl, -⟩ | ⟨i, bytes, load, rfl, hload, hputs⟩
  · rw [hputs]
    exact hagrees
  · exact absurd rfl (hpreload slices ended)
  · have hbytes : bytes = block (contents identity) load.idx := by
      have hanswer := hanswered load hload
      split at hanswer
      · rw [hanswer, chunkEnd_eq, Int.toNat_natCast, block, modelFile_size]
      · rename_i hidx
        rw [hanswer.2, block_of_le (Nat.not_lt.mp hidx)]
    rw [hputs, hbytes]
    exact hagrees.put hdigest identity load.idx

theorem settle_eq {file : File} {i : Nat} {load : Load} {answer : Except String (Nat × Bytes)} {bytes : Bytes}
    (hload : node.loads[i]? = some load)
    (hfetch : origin.fetchRange (chunkPosition load.idx) (file.chunkEnd load.idx).toNat answer = .ok bytes) :
    settle file origin node i answer = .fetchResolved i bytes := by
  simp only [settle, hload, Option.elim_some, hfetch]

/-- What a tab is served for a chunk. -/
theorem answered_settle {i : Nat} {answer : Except String (Nat × Bytes)}
    (hserved : Served digestString contents site env)
    (hanswer : match origin with
      | .file _ => answer.isOk
      | .ranges modelUrl => ∀ load ∈ node.loads[i]?, answer = .ok
          ((chunkAnswer site env modelUrl (modelFile digestString contents identity) load.idx).status,
            (chunkAnswer site env modelUrl (modelFile digestString contents identity) load.idx).body)
      | .stored => True)
    (hsure : Sure digestString contents site env cache
      (.opened identity (contents identity).length origin node)) :
    Answered (modelFile digestString contents identity) (contents identity) (kindOf origin)
      { node with puts := cache } (settle (modelFile digestString contents identity) origin node i answer) := by
  obtain ⟨-, hsound, horigin⟩ := hsure
  rcases Option.eq_none_or_eq_some node.loads[i]? with hload | ⟨load, hload⟩
  · simp only [settle]
    split <;> simp [Answered, hload]
  · have hend : ((modelFile digestString contents identity).chunkEnd load.idx).toNat =
        blockEnd (contents identity).length load.idx := by
      rw [chunkEnd_eq, Int.toNat_natCast, modelFile_size]
    -- it is enough that `fetchRange` gives the chunk, and for a file also behind the end
    have hchunk : ∀ bytes, bytes = block (contents identity) load.idx →
        (chunkPosition load.idx < (contents identity).length ∨ kindOf origin = .file) →
        Answered (modelFile digestString contents identity) (contents identity) (kindOf origin)
          { node with puts := cache } (.fetchResolved i bytes) := by
      intro bytes hbytes hidx load' hload'
      obtain rfl : load = load' := Option.some.inj (hload.symm.trans hload')
      split
      · rw [hbytes, hend, block]
      · rename_i hbehind
        exact ⟨hidx.resolve_left hbehind, hbytes.trans (block_of_le (Nat.not_lt.mp hbehind))⟩
    cases origin with
    | stored => exact horigin.elim
    | file content =>
        obtain ⟨given, rfl⟩ : ∃ given, answer = .ok given := by
          cases answer with
          | ok given => exact ⟨given, rfl⟩
          | error => cases hanswer
        have hcontent : content = contents identity := horigin
        rw [settle_eq hload rfl]
        apply hchunk
        · rw [hcontent, hend, block]
        · exact .inr rfl
    | ranges modelUrl =>
        have hsite : (site modelUrl).content = contents identity := horigin
        have hidx : chunkPosition load.idx < (contents identity).length := by
          by_contra hidx
          have hfile := hsound.tail.loads load (List.mem_of_getElem? hload) (Nat.not_lt.mp hidx)
          cases hfile
        have hlt : chunkPosition load.idx < blockEnd (contents identity).length load.idx := by
          have hpos := CHUNK_MAX_pos
          rw [blockEnd]
          omega
        have hle : blockEnd (contents identity).length load.idx ≤ (site modelUrl).content.length := by
          rw [hsite]
          exact Nat.min_le_right _ _
        have hget := get_rangeHeader (hserved.sends modelUrl).opens hlt hle
        have hfetch : (Origin.ranges modelUrl).fetchRange (chunkPosition load.idx)
            ((modelFile digestString contents identity).chunkEnd load.idx).toNat answer =
              .ok (block (contents identity) load.idx) := by
          rw [hanswer load hload, chunkAnswer, hend, Origin.fetchRange, if_pos hget.1, hget.2.1, hsite, block]
        rw [settle_eq hload hfetch]
        exact hchunk _ rfl (.inl hidx)

/-- The size that the header names is that of the file, and an empty file is refused. -/
theorem sure_headStage (hserved : Served digestString contents site env) (modelUrl : String) :
    Sure digestString contents site env cache
      (headStage modelUrl (headAnswer (site modelUrl) (env modelUrl))) := by
  obtain ⟨hok, hraw⟩ := headAnswer_status (hserved.sends modelUrl)
  simp only [headStage, hok, hraw, not_true_eq_false, if_false, number_toDigits (hserved.length_le modelUrl)]
  split
  · rename_i hzero
    refine .inr (.inr ?_)
    rw [hzero]
    decide
  · rename_i hne
    have hcontents := hserved.contents_eq modelUrl
    exact ⟨rfl, (congrArg List.length hcontents).symm, Nat.pos_of_ne_zero hne⟩

theorem sure_step {s : Tabs} {tab : Nat} {event : TabEvent} (hserved : Served digestString contents site env)
    (hagrees : AgreesWhole digestString contents s.cache)
    (hsure : Sure digestString contents site env s.cache (s.stage tab))
    (hanswer : ServedBy digestString contents site env s (tab, event))
    (hstep : (s.stage tab).step digestString s.cache event = some (stage', cache')) :
    Sure digestString contents site env cache' stage' ∧ AgreesWhole digestString contents cache' := by
  have hstay : Sure digestString contents site env s.cache stage' → cache' = s.cache →
      Sure digestString contents site env cache' stage' ∧ AgreesWhole digestString contents cache' := by
    rintro hsure' rfl
    exact ⟨hsure', hagrees⟩
  simp only [ServedBy] at hanswer
  generalize hstage : s.stage tab = stage at hsure hanswer hstep
  unfold TabStage.step at hstep
  split at hstep
  · -- openFile
    split at hstep
    · cases hstep
      exact hstay (.inl rfl) rfl
    · cases hstep
      have hcontent : _ = contents _ := hanswer
      have hlength := congrArg List.length hcontent
      refine hstay ⟨hlength, ?_, hcontent⟩ rfl
      exact sound_initial hagrees _
  · split at hstep
    · cases hstep
      exact hstay (.inr (.inl rfl)) rfl
    · cases hstep
      exact hstay trivial rfl
  · cases hanswer
  · rename_i modelUrl head
    cases hstep
    obtain rfl : head = _ := Except.ok.inj hanswer
    exact hstay (sure_headStage hserved modelUrl) rfl
  · cases hanswer
  · -- the answer to the probe
    rename_i modelUrl identity size status
    obtain rfl : status = _ := Except.ok.inj hanswer
    obtain ⟨rfl, rfl, hne⟩ := hsure
    rw [hserved.contents_eq] at hne
    rw [if_pos (probe_status (hserved.sends modelUrl).opens hne)] at hstep
    cases hstep
    exact hstay ⟨rfl, sound_initial hagrees _, (hserved.contents_eq modelUrl).symm⟩ rfl
  · cases hsure
  · cases hsure
  · cases hsure
  · cases hsure
  · cases hsure
  · -- a read
    obtain ⟨rfl, -⟩ := id hsure
    refine sure_node hserved.digest hagrees hsure ?_ ?_ (by simp) hstep
    · exact hanswer.2
    · exact hanswer.1
  · -- an answer of the cache
    rename_i identity size origin node load data
    obtain ⟨rfl, -⟩ := id hsure
    refine sure_node hserved.digest hagrees hsure ?_ ?_ (by simp) hstep
    · cases data with
      | none => trivial
      | some bytes => exact hanswer
    · trivial
  · cases hanswer
  · -- an answer of `fetchRange`
    rename_i identity size origin node load answer
    obtain ⟨rfl, hsound, horigin⟩ := id hsure
    refine sure_node hserved.digest hagrees hsure (answered_settle hserved ?_ hsure) ?_ ?_ hstep
    · cases origin with
      | file | ranges => exact hanswer
      | stored => trivial
    · unfold settle
      dsimp only
      split <;> trivial
    · intro slices ended
      unfold settle
      dsimp only
      split <;> simp
  · cases hstep
    exact hstay trivial rfl
  · cases hstep

/-! ### All tabs -/

/-- What holds between two events. -/
structure AllSure (digestString : String → String) (contents : String → Bytes) (site : String → ServedFile)
    (env : String → Environment) (s : Tabs) : Prop where
  agrees : AgreesWhole digestString contents s.cache
  stages : ∀ tab, Sure digestString contents site env s.cache (s.stage tab)

theorem AllSure.start : AllSure digestString contents site env (tabs digestString).start where
  agrees identity idx bytes hmem := by cases hmem
  stages _ := trivial

theorem AllSure.step {s t : Tabs} {e : Nat × TabEvent} (hserved : Served digestString contents site env)
    (hall : AllSure digestString contents site env s) (hanswer : ServedBy digestString contents site env s e)
    (hstep : (tabs digestString).step s e = some t) : AllSure digestString contents site env t := by
  obtain ⟨stage', hstage, hupdate⟩ := exists_stage hstep
  obtain ⟨hsure, hagrees⟩ := sure_step hserved hall.agrees (hall.stages e.1) hanswer hstage
  refine ⟨hagrees, fun tab => ?_⟩
  rw [hupdate]
  by_cases htab : tab = e.1
  · rw [htab, Function.update_self]
    exact hsure
  · rw [Function.update_of_ne htab]
    exact (hall.stages tab).mono hagrees

/-- What a tab with an open model can rely on. -/
structure Readable (f : File) (model : Bytes) (node : State) : Prop where
  remoteError : node.remoteError = none
  read : ∀ buffer offset length position now, position < f.size → 1 ≤ length →
    offset + length ≤ buffer.length → (node.read buffer offset length position now).1 = .thrown 6 ∨
      ∃ n buffer', (node.read buffer offset length position now).1 = .returned n buffer' ∧
        ReadsModel f model buffer offset length position n buffer'

theorem readable {kind : SourceKind}
    (h : Sound (modelFile digestString contents identity) (contents identity) kind { node with puts := cache }) :
    Readable (modelFile digestString contents identity) (contents identity) node where
  remoteError := h.tail.remoteError
  read buffer offset length position now hposition hlength hfits := by
    have heq : (({ node with puts := cache } : State).read buffer offset length position now).1 =
        (node.read buffer offset length position now).1 := by
      rw [← read_puts, ← read_puts node]
    have hnot : (node.read buffer offset length position now).1 ≠ .thrown 28 := by
      rw [← heq]
      exact h.not_thrown hfits
    have hmodel : ∀ n buffer', (node.read buffer offset length position now).1 = .returned n buffer' →
        ReadsModel (modelFile digestString contents identity) (contents identity) buffer offset length
          position n buffer' := by
      intro n buffer' hread
      rw [← heq] at hread
      exact h.exact.read (modelFile_size identity) hposition hlength hread
    have hreads := read_reads node buffer offset length position now
    generalize (node.read buffer offset length position now).2 = t at hreads
    generalize (node.read buffer offset length position now).1 = result at hreads hnot hmodel
    cases hreads with
    | empty hzero => omega
    | failed | broken => exact absurd rfl hnot
    | waiting | miss => exact .inl rfl
    | hit => exact .inr ⟨_, _, rfl, hmodel _ _ rfl⟩

/-- **The adapter works against the server.** In every run of any number of tabs whose requests the server
answers, no tab downloads a model, none fails but for want of a model, and the files that are open can be
read throughout: a read is told to retry or gives the bytes that are served. -/
theorem tabs_served (digestString : String → String) (contents : String → Bytes)
    (site : String → ServedFile) (env : String → Environment)
    (hserved : Served digestString contents site env) (es : List (Nat × TabEvent)) (s : Tabs)
    (halong : (tabs digestString).Along (ServedBy digestString contents site env) (tabs digestString).start es)
    (hrun : (tabs digestString).run (tabs digestString).start es = some s) (tab : Nat) :
    (∀ modelUrl identity size, s.stage tab ≠ .downloading modelUrl identity size) ∧
    (∀ identity size slices, s.stage tab ≠ .preloading identity size slices) ∧
    (∀ error, s.stage tab = .failed error → Refused error) ∧
    ∀ identity size origin node, s.stage tab = .opened identity size origin node →
      Readable (fileOf digestString identity size) (contents identity) node ∧
        origin ≠ .stored ∧
          ∀ modelUrl, origin = .ranges modelUrl → contents identity = (site modelUrl).content := by
  have hall : AllSure digestString contents site env s :=
    run_keeps_along (fun _ _ _ h => h.step hserved) .start halong hrun
  have hsure := hall.stages tab
  refine ⟨fun modelUrl identity size hstage => ?_, fun identity size slices hstage => ?_,
    fun error hstage => ?_, fun identity size origin node hstage => ?_⟩
  · rw [hstage] at hsure
    exact hsure
  · rw [hstage] at hsure
    exact hsure
  · rw [hstage] at hsure
    exact hsure
  · rw [hstage] at hsure
    obtain ⟨rfl, hsound, horigin⟩ := hsure
    refine ⟨readable hsound, ?_, ?_⟩
    · rintro rfl
      exact horigin
    · rintro modelUrl rfl
      exact horigin.symm

/-- The SHA-256 of the identity of the mounted model. -/
def digestOfMount (_ : String) : String := "c1563bd7768068f0d86677c46580ae97641adaa46f840282a0585184b0139d21"

theorem served_fourBytes :
    Served digestOfMount (fun _ => fourBytes.content) (fun _ => fourBytes) fun _ => plain where
  digest :=
    have hlength : (digestOfMount "").length = 64 := by decide
    ⟨fun _ => hlength, fun _ _ _ => rfl⟩
  contents_eq _ := rfl
  sends _ := ⟨rfl, rfl, by decide⟩
  length_le _ := by decide

/-- The model is opened, and a read loads its only chunk. -/
def opening : List (Nat × TabEvent) :=
  [(0, .openUrl "/model.gguf"), (0, .headed (.ok (headAnswer fourBytes plain)))]

def reading : List (Nat × TabEvent) :=
  [(0, .probed (.ok 206)), (0, .read [0, 0] 0 2 1 10), (0, .cacheResolved 0 none),
    (0, .fetched 0 (.ok (206, [71, 71, 85, 70])))]

def identityOfMount : String := siteIdentity (fun _ => fourBytes) (fun _ => plain) "/model.gguf"

/-- After the `HEAD` request. -/
def probingMount : Tabs :=
  ⟨Function.update (Function.update (fun _ => .closed) 0 (.heading "/model.gguf")) 0
    (.probing "/model.gguf" identityOfMount 4), []⟩

theorem run_opening : (tabs digestOfMount).run (tabs digestOfMount).start opening = some probingMount := by
  have hnumber : number (Nat.toDigits 10 fourBytes.content.length) = some 4 := number_toDigits (by decide)
  have hhead : headStage "/model.gguf" (headAnswer fourBytes plain) =
      .probing "/model.gguf" identityOfMount 4 := by
    obtain ⟨hok, hraw⟩ := headAnswer_status (served_fourBytes.sends "/model.gguf")
    simp only [headStage, hok, hraw, hnumber, not_true_eq_false, if_false]
    rfl
  refine run_cons.mpr ⟨_, rfl, run_singleton.mpr ?_⟩
  show some (Tabs.mk (Function.update _ 0 (headStage "/model.gguf" (headAnswer fourBytes plain))) []) = _
  rw [hhead]
  rfl

theorem along_opening : (tabs digestOfMount).Along
    (ServedBy digestOfMount (fun _ => fourBytes.content) (fun _ => fourBytes) fun _ => plain)
      (tabs digestOfMount).start opening := by
  refine ⟨trivial, fun t ht => ?_⟩
  cases ht
  exact ⟨rfl, fun _ _ => trivial⟩

theorem along_reading : (tabs digestOfMount).Along
    (ServedBy digestOfMount (fun _ => fourBytes.content) (fun _ => fourBytes) fun _ => plain)
      probingMount reading := by
  have hprobe : (get fourBytes plain (some (rangeHeader 0 2))).status = 206 := probe_status rfl (by decide)
  have hchunk : (get fourBytes plain (some (rangeHeader 0 4))).status = 206 ∧
      (get fourBytes plain (some (rangeHeader 0 4))).body = fourBytes.content.segment 0 4 ∧ _ :=
    get_rangeHeader rfl (by decide) (by decide)
  refine ⟨congrArg Except.ok hprobe.symm, fun t ht => ?_⟩
  cases ht
  refine ⟨⟨by decide, by decide⟩, fun t ht => ?_⟩
  cases ht
  refine ⟨trivial, fun t ht => ?_⟩
  cases ht
  refine ⟨?_, fun _ _ => trivial⟩
  intro load hload
  cases hload
  exact congrArg Except.ok (Prod.ext hchunk.1.symm hchunk.2.1.symm)

theorem tabs_served_mounted : ∃ s node,
    (tabs digestOfMount).run (tabs digestOfMount).start (opening ++ reading) = some s ∧
      s.stage 0 = .opened identityOfMount 4 (.ranges "/model.gguf") node ∧
        Readable (fileOf digestOfMount identityOfMount 4) fourBytes.content node := by
  obtain ⟨s, hs, node, hnode⟩ : ∃ s, (tabs digestOfMount).run probingMount reading = some s ∧
      ∃ node, s.stage 0 = .opened identityOfMount 4 (.ranges "/model.gguf") node := ⟨_, rfl, _, rfl⟩
  have hrun := run_append.mpr ⟨_, run_opening, hs⟩
  have hall := tabs_served digestOfMount (fun _ => fourBytes.content) (fun _ => fourBytes) (fun _ => plain)
    served_fourBytes (opening ++ reading) s
    ((along_append run_opening).mpr ⟨along_opening, along_reading⟩) hrun 0
  exact ⟨s, node, hrun, hnode, (hall.2.2.2 _ _ _ _ hnode).1⟩

end LlmRuntime.Serving

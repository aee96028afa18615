import Mathlib.Data.List.TakeWhile
import LlmRuntime.Gguf.Lockstep
import LlmRuntime.Probe.Agreement
import LlmRuntime.Probe.Report
import LlmRuntime.Serving.Ranges

/-!
# Probing what is served

`scripts/probe-gguf-header.mjs` against `scripts/serve-runtime.py`. The probe only asks for ranges that have
a first byte and can be written in a few digits; to these the server answers as a server of ranges should,
and what the probe makes of the headers is what the server meant. So both sources go through a model in
lockstep, and a model that is served is described as the file is.
-/

namespace LlmRuntime.Serving

open Gguf Probe

/-! ### The headers of an answer -/

/-- `Number(text)`, of digits that a double can tell from others; other text is not sent. -/
def numberField (text : List Char) : Field :=
  if text ≠ [] ∧ text.all Char.isDigit then .number (Nat.ofDigitChars 10 text 0) else .other

/-- `range.split("/")[1]` -/
def afterSlash (text : List Char) : List Char :=
  ((text.dropWhile (· ≠ '/')).drop 1).takeWhile (· ≠ '/')

/-- `headers.get(name)`, in the spelling of the server, which makes no difference to `fetch`. -/
def headerOf (response : Response) (name : String) : Option String :=
  (response.headers.find? (·.1 = name)).map Prod.snd

def contentRangeField (response : Response) : Field :=
  match headerOf response "Content-Range" with
  | none => .absent
  | some value => numberField (afterSlash value.toList)

def contentLengthField (response : Response) : Field :=
  match headerOf response "Content-Length" with
  | none => .absent
  | some value => numberField value.toList

/-- `bytes=${from}-${target - 1}` -/
def probeHeader (first last : Nat) : List Char := BYTES ++ (Nat.toDigits 10 first ++ '-' :: Nat.toDigits 10 last)

/-- An answer as `fetch` hands it over: the body comes in any chunks. -/
structure Carries (r : Probe.Response) (response : Response) : Prop where
  status : r.status = response.status
  contentRange : r.contentRange = contentRangeField response
  contentLength : r.contentLength = contentLengthField response
  body : r.body.flatten = response.body
  unbroken : r.broken = none

/-- The probe's requests are answered by `serve-runtime.py`. -/
def Answers (server : Server) (file : ServedFile) (env : Environment) : Prop :=
  ∀ i first last, ∃ r, server.fetch i first last = .ok r ∧
    Carries r (get file env (some (probeHeader first last)))

variable {file : ServedFile} {env : Environment} {first last : Nat}

theorem numberField_toDigits (n : Nat) : numberField (Nat.toDigits 10 n) = .number n := by
  have hall : (Nat.toDigits 10 n).all Char.isDigit = true := by
    rw [List.all_eq_true]
    exact fun c hc => Nat.isDigit_of_mem_toDigits (by decide) (by decide) hc
  rw [numberField, if_pos ⟨Nat.toDigits_ne_nil, hall⟩, Nat.ofDigitChars_ten_toDigits]

/-- The size stands after the only slash. -/
theorem afterSlash_contentRange (start stop size : Nat) :
    afterSlash s!"bytes {start}-{stop}/{size}".toList = Nat.toDigits 10 size := by
  have hdigits : ∀ n : Nat, ∀ c ∈ Nat.toDigits 10 n, (decide (c ≠ '/')) = true := by
    intro n c hc
    apply decide_eq_true
    intro hslash
    have hdigit : c.isDigit = true := Nat.isDigit_of_mem_toDigits (by decide) (by decide) hc
    rw [hslash] at hdigit
    exact absurd hdigit (by decide)
  have htext : s!"bytes {start}-{stop}/{size}".toList =
      "bytes ".toList ++ (Nat.toDigits 10 start ++ "-".toList ++ Nat.toDigits 10 stop) ++
        '/' :: Nat.toDigits 10 size := by
    simp [String.toList_append]
    rfl
  have hbytes : ("bytes ".toList.all fun c => decide (c ≠ '/')) = true := by decide
  have hdash : ("-".toList.all fun c => decide (c ≠ '/')) = true := by decide
  have hbefore : ∀ c ∈ "bytes ".toList ++ (Nat.toDigits 10 start ++ "-".toList ++ Nat.toDigits 10 stop),
      (decide (c ≠ '/')) = true := by
    intro c hc
    rw [List.mem_append, List.mem_append, List.mem_append] at hc
    rcases hc with hc | (hc | hc) | hc
    · exact List.all_eq_true.mp hbytes c hc
    · exact hdigits start c hc
    · exact List.all_eq_true.mp hdash c hc
    · exact hdigits stop c hc
  have htake : (Nat.toDigits 10 size).takeWhile (· ≠ '/') = Nat.toDigits 10 size := by
    rw [List.takeWhile_eq_self_iff]
    exact hdigits size
  rw [htext, afterSlash, List.dropWhile_append_of_pos hbefore, List.dropWhile_cons_of_neg (by decide),
    List.drop_one, List.tail_cons, htake]

/-! ### What the server answers -/

/-- The probe reads the size of the file off the answer. -/
theorem contentRangeField_serves {response : Response} {content : List UInt8} {start stop : Nat}
    (h : response.Serves content start stop) : contentRangeField response = .number content.length := by
  have hheader : headerOf response "Content-Range" = some s!"bytes {start}-{stop}/{content.length}" := by
    rw [headerOf, ← List.head?_filter, h.range_eq]
    rfl
  rw [contentRangeField, hheader]
  dsimp only
  rw [afterSlash_contentRange, numberField_toDigits]

theorem parse_probeHeader (hle : first ≤ last) (hlast : last < 2 ^ 63) (size : Nat) :
    parseByteRange (probeHeader first last) size =
      if size ≤ first then .unsatisfiable else .range first ((min last (size - 1) : Nat) : Int) := by
  have hparse := parseByteRange_closed (numeral_toDigits (n := first) (by omega)) (numeral_toDigits hlast)
    (by rw [decimal_toDigits, decimal_toDigits]; exact hle) size
  rw [decimal_toDigits, decimal_toDigits] at hparse
  exact hparse

theorem get_probeHeader (hopens : env.opens = true) (hle : first ≤ last) (hlast : last < 2 ^ 63)
    (hfirst : first < file.content.length) :
    (get file env (some (probeHeader first last))).status = 206 ∧
      (get file env (some (probeHeader first last))).body = file.content.segment first (last + 1) ∧
      contentRangeField (get file env (some (probeHeader first last))) = .number file.content.length := by
  have hparse := parse_probeHeader hle hlast file.content.length
  rw [if_neg (Nat.not_le.mpr hfirst)] at hparse
  have hserves := get_range hopens hparse
  refine ⟨hserves.status_eq, ?_, contentRangeField_serves hserves⟩
  rw [hserves.body_eq]
  by_cases hshort : last ≤ file.content.length - 1
  · rw [Nat.min_eq_left hshort]
  · rw [Nat.min_eq_right (by omega), Nat.sub_add_cancel (by omega), List.segment, List.segment,
      List.take_length, List.take_of_length_le (by omega)]

/-! ### What the probe asks -/

/-- The same answers to all requests that have a first byte, and not too many digits. -/
def SameAnswers (server server' : Server) : Prop :=
  ∀ i first last, first ≤ last → last < 2 ^ 63 → server.fetch i first last = server'.fetch i first last

variable {server server' : Server}

/-- The target is not far: what has been read fits into an array. -/
theorem target_lt {s : HttpSource} {stop : Nat} (hmax : stop ≤ MAX_READ) :
    (HttpSource.target s stop).toNat < 2 ^ 63 := by
  have hbytes : s.bytes.length < 2 ^ 53 :=
    Nat.lt_of_le_of_lt (Nat.le_trans (Nat.le_add_left _ _) s.bytes.within) s.bytes.indexable
  have hlimit : MAX_READ < 2 ^ 53 := by decide
  have hfirst : FIRST_READ < 2 ^ 53 := by decide
  rw [HttpSource.target]
  split <;> omega

theorem readOn_congr (hsame : SameAnswers server server') (url : String) {s : HttpSource} {target : Nat}
    (hlength : s.bytes.length < target) (htarget : target < 2 ^ 63) :
    HttpSource.readOn url server target s = HttpSource.readOn url server' target s := by
  have hfetch : HttpSource.fetchRange url server target s = HttpSource.fetchRange url server' target s := by
    rw [HttpSource.fetchRange, HttpSource.fetchRange, hsame s.requests _ _ (by omega) (by omega)]
  rw [HttpSource.readOn, HttpSource.readOn, hfetch]

theorem ensure_congr (hsame : SameAnswers server server') (url : String) :
    HttpSource.ensure url server = HttpSource.ensure url server' := by
  funext stop s
  by_cases hreads : s.bytes.length < stop ∧ stop ≤ MAX_READ ∧ ¬ HttpSource.target s stop < stop
  · obtain ⟨hlength, hmax, htarget⟩ := hreads
    rw [HttpSource.ensure_eq url server hlength hmax htarget, HttpSource.ensure_eq url server' hlength hmax htarget,
      readOn_congr hsame url (by omega) (target_lt hmax)]
  · rw [HttpSource.ensure, HttpSource.ensure, EStateM.bind_get, EStateM.bind_get]
    split
    · rfl
    · split
      · rfl
      · split
        · rfl
        · exact absurd ⟨by omega, by omega, by assumption⟩ hreads

/-- A server that gives the file's bytes for whatever it is asked. -/
def honest (file : Probe.File) : Server where
  fetch _ first last := .ok
    { status := 206
      statusText := "Partial Content"
      contentRange := .number file.content.length
      contentLength := .absent
      body := [file.content.segment first (last + 1)]
      broken := none }

/-- The server, and the honest one for requests that the probe does not make. -/
def completed (server : Server) (file : Probe.File) : Server where
  fetch i first last :=
    if first ≤ last ∧ last < 2 ^ 63 then server.fetch i first last else (honest file).fetch i first last

theorem sameAnswers_completed (server : Server) (file : Probe.File) :
    SameAnswers server (completed server file) := by
  intro i first last hle hlast
  rw [completed]
  dsimp only
  rw [if_pos ⟨hle, hlast⟩]

theorem completed_honours (hsafe : isSafeInteger file.content.length) (hopens : env.opens = true)
    (hanswers : Answers server file env) :
    (completed server ⟨file.content, hsafe⟩).HonoursRanges ⟨file.content, hsafe⟩ := by
  intro i first last
  rw [completed]
  dsimp only
  by_cases hasked : first ≤ last ∧ last < 2 ^ 63
  · rw [if_pos hasked]
    obtain ⟨r, hfetch, hcarries⟩ := hanswers i first last
    refine ⟨r, hfetch, ?_⟩
    by_cases hfirst : first < file.content.length
    · obtain ⟨hstatus, hbody, hrange⟩ := get_probeHeader hopens hasked.1 hasked.2 hfirst
      refine .inl ⟨?_, hcarries.unbroken, ?_, .inl ?_⟩
      · rw [hcarries.status, hstatus]
      · rw [hcarries.body, hbody]
      · rw [hcarries.contentRange, hrange]
    · have hparse := parse_probeHeader hasked.1 hasked.2 file.content.length
      rw [if_pos (Nat.not_lt.mp hfirst)] at hparse
      have hstatus := status_unsatisfiable env hparse
      refine .inr ⟨Nat.not_lt.mp hfirst, ?_, ?_⟩
      · rw [hcarries.status, hstatus]
        decide
      · rw [hcarries.status, hstatus]
        decide
  · rw [if_neg hasked]
    refine ⟨_, rfl, .inl ⟨rfl, rfl, ?_, .inl rfl⟩⟩
    rw [List.flatten_singleton]

/-! ### Both sources together -/

/-- What both sources have read, and how often they have asked. -/
structure Together (file : Probe.File) (s : HttpSource) (t : FileSource) : Prop where
  bytes : s.bytes.toList = t.bytes.toList
  requests : s.requests = t.requests
  ranging : HttpSource.Ranging file s

/-- With the size known or not, the same part of the file is asked for. -/
theorem take_target {content : List UInt8} {s : HttpSource} {stop : Nat}
    (hsize : s.size = none ∨ s.size = some (content.length : Int)) :
    content.take (HttpSource.target s stop).toNat =
      content.take (min (max (max stop FIRST_READ) (s.bytes.length * 2)) content.length) := by
  rw [HttpSource.target]
  rcases hsize with hsize | hsize
  · rw [hsize]
    dsimp only
    rw [Int.toNat_natCast, List.take_eq_take_iff]
    omega
  · rw [hsize]
    dsimp only
    congr 1
    omega

theorem ensure_target (url : String) {file : Probe.File} (hserver : server.HonoursRanges file) {s : HttpSource}
    {stop : Nat} (hs : HttpSource.Ranging file s) (hlength : s.bytes.length < stop) (hmax : stop ≤ MAX_READ)
    (hstop : stop ≤ file.content.length) :
    ∃ s', HttpSource.ensure url server stop s = .ok s'.bytes s' ∧ HttpSource.Ranging file s' ∧
      s'.requests = s.requests + 1 ∧
      s'.bytes.toList =
        file.content.take (min (max (max stop FIRST_READ) (s.bytes.length * 2)) file.content.length) := by
  have htarget : ¬ HttpSource.target s stop < stop := by
    intro hlt
    have hshort := HttpSource.target_lt_iff hs.size_eq hlt
    omega
  have heq := HttpSource.ensure_eq url server hlength hmax htarget
  rcases HttpSource.readOn_ranging url hserver hs (t := (HttpSource.target s stop).toNat) (by omega) with
    ⟨hbeyond, -⟩ | ⟨s', hread, hs', hbytes, hrequests, -⟩
  · omega
  · rw [take_target hs.size_eq] at hbytes
    have hwindow : stop ≤ s'.bytes.length := by
      rw [← s'.bytes.length_toList, hbytes, List.length_take]
      omega
    rw [hread] at heq
    dsimp only at heq
    rw [if_neg (Nat.not_lt.mpr hwindow)] at heq
    exact ⟨s', heq, hs', hrequests, hbytes⟩

/-- A call beyond the file or the limit fails over both. -/
theorem ensure_beyond (url path : String) {file : Probe.File} (hserver : server.HonoursRanges file)
    (disk : Nat → Nat → List (List UInt8)) {s : HttpSource} {t : FileSource} {stop : Nat} (h : Together file s t) (hlength : s.bytes.length < stop)
    (hbeyond : MAX_READ < stop ∨ file.content.length < stop) :
    (∃ e s', HttpSource.ensure url server stop s = .error e s') ∧
      ∃ e t', FileSource.ensure path file.content.length disk stop t = .error e t' := by
  have hlength' : t.bytes.length = s.bytes.length := by
    rw [← t.bytes.length_toList, ← h.bytes, s.bytes.length_toList]
  constructor
  · by_cases hmax : MAX_READ < stop
    · obtain ⟨e, herror⟩ := HttpSource.ensure_of_max url server hlength hmax
      exact ⟨e, s, herror⟩
    · rcases (HttpSource.windowed_ranging url hserver).ensure_cases stop s h.ranging with
        ⟨-, herror⟩ | ⟨s', -, hs', hstop, -⟩
      · exact herror
      · have hle := hs'.isPrefix.length_le
        rw [s'.bytes.length_toList] at hle
        omega
  · rw [FileSource.ensure, EStateM.bind_get, if_neg (by omega)]
    by_cases hmax : MAX_READ < stop
    · rw [if_pos hmax]
      exact ⟨_, _, rfl⟩
    · rw [if_neg hmax]
      dsimp only
      rw [if_pos (by omega)]
      exact ⟨_, _, rfl⟩

theorem lockstep_together (url path : String) {file : Probe.File} (hserver : server.HonoursRanges file)
    {disk : Nat → Nat → List (List UInt8)} (hdisk : Reads disk file) :
    (HttpSource.source url server).Lockstep (FileSource.source path file.content.length disk)
      (Together file) := by
  intro stop s t h
  have ht : t.bytes.toList <+: file.content := h.bytes ▸ h.ranging.isPrefix
  have hlength' : t.bytes.length = s.bytes.length := by
    rw [← t.bytes.length_toList, ← h.bytes, s.bytes.length_toList]
  rw [HttpSource.source, FileSource.source]
  dsimp only
  by_cases hlength : stop ≤ s.bytes.length
  · left
    refine ⟨s.bytes, t.bytes, s, t, HttpSource.ensure_of_le hlength, ?_, h.bytes, hlength, h⟩
    rw [FileSource.ensure, EStateM.bind_get, if_pos (by omega)]
    rfl
  have hlength := Nat.not_le.mp hlength
  by_cases hwithin : stop ≤ MAX_READ ∧ stop ≤ file.content.length
  · left
    obtain ⟨hmax, hstop⟩ := hwithin
    obtain ⟨s', hensure, hs', hrequests, hbytes⟩ := ensure_target url hserver h.ranging hlength hmax hstop
    obtain ⟨t', hensure', hrequests', hbytes'⟩ :=
      FileSource.ensure_reads path hdisk ht (by omega) hmax hstop
    rw [hlength'] at hbytes'
    have hsame : s'.bytes.toList = t'.bytes.toList := hbytes.trans hbytes'.symm
    refine ⟨s'.bytes, t'.bytes, s', t', hensure, hensure', hsame, ?_, hsame, ?_, hs'⟩
    · rw [← s'.bytes.length_toList, hbytes, List.length_take]
      omega
    · rw [hrequests, hrequests', h.requests]
  · right
    exact ensure_beyond url path hserver disk h hlength (by omega)

/-- What the probe prints of a header that it has read. -/
def printed {ν : Type} (printing : Printing ν) (h : Header ν) (bytes : Uint8Array) (requests : Nat) :
    Except String String :=
  report printing h (summarise printing h bytes.length requests)

/-- **Probing what is served.** Over HTTP from `serve-runtime.py` the probe does as on the file itself: it
fails over both, or it reads the same header, having fetched the same bytes in as many requests, so that
its reports are the same. -/
theorem probe_served (file : ServedFile) (env : Environment) (hsafe : isSafeInteger file.content.length)
    (hopens : env.opens = true) (server : Server) (hanswers : Answers server file env)
    (disk : Nat → Nat → List (List UInt8)) (hdisk : Reads disk ⟨file.content, hsafe⟩) (url path : String)
    (decode : List UInt8 → String) (ν : Type) (doubles : Doubles ν) :
    (∃ h s t, readGgufHeader decode (HttpSource.source url server) doubles HttpSource.initial = .ok h s ∧
      readGgufHeader decode (FileSource.source path file.content.length disk) doubles
        FileSource.initial = .ok h t ∧
      s.bytes.toList = t.bytes.toList ∧ s.requests = t.requests ∧
        ∀ printing, printed printing h s.bytes s.requests = printed printing h t.bytes t.requests) ∨
    ((∃ e s, readGgufHeader decode (HttpSource.source url server) doubles HttpSource.initial = .error e s) ∧
      ∃ e t, readGgufHeader decode (FileSource.source path file.content.length disk) doubles
        FileSource.initial = .error e t) := by
  have hsource : HttpSource.source url server =
      HttpSource.source url (completed server ⟨file.content, hsafe⟩) := by
    rw [HttpSource.source, HttpSource.source,
      ensure_congr (sameAnswers_completed server ⟨file.content, hsafe⟩) url]
  have hhonours := completed_honours hsafe hopens hanswers
  have hstart : Together ⟨file.content, hsafe⟩ HttpSource.initial FileSource.initial :=
    ⟨rfl, rfl, HttpSource.ranging_initial _⟩
  rw [hsource]
  rcases readGgufHeader_lockstep (lockstep_together url path hhonours hdisk) decode doubles hstart with
    ⟨h, s, t, hrun, hrun', htogether⟩ | herror
  · refine .inl ⟨h, s, t, hrun, hrun', htogether.bytes, htogether.requests, fun printing => ?_⟩
    rw [printed, printed, htogether.requests, ← s.bytes.length_toList, htogether.bytes,
      t.bytes.length_toList]
  · exact .inr herror

/-- Every body in one chunk. -/
def overHttp (file : ServedFile) (env : Environment) : Server where
  fetch _ first last :=
    let response := get file env (some (probeHeader first last))
    .ok
      { status := response.status
        statusText := ""
        contentRange := contentRangeField response
        contentLength := contentLengthField response
        body := [response.body]
        broken := none }

theorem answers_overHttp (file : ServedFile) (env : Environment) : Answers (overHttp file env) file env := by
  intro i first last
  refine ⟨_, rfl, rfl, rfl, rfl, ?_, rfl⟩
  exact List.flatten_singleton

/-- A file on disk reads as the header that it begins with. -/
theorem disk_reads {file : File} {disk : Nat → Nat → List (List UInt8)} (hdisk : Reads disk file) (path : String)
    {ν : Type} (doubles : Doubles ν) (h : Format.Header) (hfile : h.encode <+: file.content)
    (hlimit : h.encode.length ≤ MAX_READ) :
    ∃ t, readGgufHeader textDecoder (FileSource.source path file.content.length disk) doubles FileSource.initial =
      .ok (h.meaning doubles) t := by
  obtain ⟨bytes, -, hbytes⟩ := uint8Array_of_safe file.size_safe
  rw [← hbytes] at hfile
  obtain ⟨s', hrun⟩ := wholeFile_reads doubles h hfile
  have hprefix : bytes.toList.take (h.meaning doubles).descriptorsEnd <+: file.content := by
    rw [hbytes]
    exact List.take_prefix _ _
  obtain ⟨t, hread, -⟩ := readGgufHeader_follows (delivers_wholeFile bytes) (FileSource.windowed path hdisk).delivers
    trivial (t := FileSource.initial) List.nil_prefix hrun hfile.length_le hlimit hprefix
  exact ⟨t, hread⟩

def servedHeader : ServedFile := ⟨smallHeader.encode ++ List.replicate 8 0, by decide +kernel⟩

theorem servedHeader_prefix : smallHeader.encode <+: servedHeader.content := List.prefix_append _ _

theorem probe_served_header : ∃ s t, readGgufHeader textDecoder (HttpSource.source "http://127.0.0.1:8888/model.gguf"
      (overHttp servedHeader plain)) wholeDoubles HttpSource.initial = .ok (smallHeader.meaning wholeDoubles) s ∧
    readGgufHeader textDecoder (FileSource.source "model.gguf" servedHeader.content.length
      fun first last => [servedHeader.content.segment first (last + 1)]) wholeDoubles FileSource.initial =
        .ok (smallHeader.meaning wholeDoubles) t ∧ s.bytes.toList = t.bytes.toList ∧ s.requests = t.requests := by
  have hsafe : isSafeInteger servedHeader.content.length := by decide +kernel
  have hdisk : Reads (fun first last => [servedHeader.content.segment first (last + 1)])
      ⟨servedHeader.content, hsafe⟩ := by
    intro first last
    rw [List.flatten_singleton]
  obtain ⟨t, hlocal⟩ := disk_reads hdisk "model.gguf" wholeDoubles smallHeader servedHeader_prefix (by decide +kernel)
  rcases probe_served servedHeader plain hsafe rfl _ (answers_overHttp servedHeader plain) _ hdisk
      "http://127.0.0.1:8888/model.gguf" "model.gguf" textDecoder Nat wholeDoubles with
    ⟨h, s, t', hrun, hrun', hbytes, hrequests, -⟩ | ⟨-, e, t', herror⟩
  · cases hlocal.symm.trans hrun'
    exact ⟨s, t, hrun, hrun', hbytes, hrequests⟩
  · cases hlocal.symm.trans herror

end LlmRuntime.Serving

import LlmRuntime.Gguf.Alignment

/-!
# Whose address it is

`getStats()` leaves out the address of a candidate that is an mDNS name. `describeStatCandidate` of
`scripts/lan-probe.js` looks for it among the candidates that were signalled, which `describeSignaled` reads
off their attributes or, where these are missing, off the SDP line. Where several look like the one in
question no address is given.
-/

namespace LlmRuntime.LanProbe

abbrev Text := List Char

/-! ### Reading a candidate -/

def nonEmpty (value : Option Text) : Option Text := value.filter fun text => text ≠ []

/-- `/\.local$/i` -/
def isMdnsName : Option Text → Bool
  | none => false
  | some address => ".local".toList.isSuffixOf (address.map Char.toLower)

/-- The value of a number, if it is finite. -/
def finiteValue : Binary64 → Option ℚ
  | .finite negative magnitude _ => some (if negative then -magnitude else magnitude)
  | _ => none

/-- `numOrNull` of a word of a line. -/
def numOrNull (text : Text) : Option ℚ :=
  if text = [] then none else finiteValue (Gguf.number (.string (String.ofList text)))

/-- `numOrNull` of an attribute, which is a number or missing. -/
def numberOf (value : Option Nat) : Option ℚ := value.map fun n => (n : ℚ)

/-- `line.split(/\s+/)`: of the empty pieces only a first and a last one are kept. -/
def splitSpaces (line : Text) : List Text :=
  match line.splitOnP Gguf.isStrWhiteSpace with
  | [] => []
  | [piece] => [piece]
  | first :: rest => first :: (rest.dropLast.filter (fun piece => piece ≠ []) ++ rest.getLast?.toList)

/-- An `RTCIceCandidate`, or what PeerJS hands to `addIceCandidate()`. -/
structure Signal where
  candidate : Text
  foundation : Option Text
  priority : Option Nat
  address : Option Text
  port : Option Nat
  protocol : Option Text
  type : Option Text

structure Signaled where
  atMs : Nat
  candidate : Text
  type : Option Text
  address : Option Text
  port : Option ℚ
  protocol : Option Text
  foundation : Option Text
  priority : Option ℚ
  isMdns : Bool
  deriving DecidableEq

/-- `replace(/^candidate:/, "")` -/
def withoutLabel (word : Text) : Text :=
  if "candidate:".toList.isPrefixOf word then word.drop "candidate:".length else word

/-- `toLowerCase()` as far as ASCII goes: the letters of a protocol are. -/
def toLowerCase (word : Text) : Text := word.map Char.toLower

def describeSignaled (atMs : Nat) (candidate : Signal) : Signaled :=
  let p := splitSpaces candidate.candidate
  let address := (nonEmpty candidate.address).or p[4]?
  { atMs := atMs
    candidate := candidate.candidate
    type := (nonEmpty candidate.type).or (if p[6]? = some "typ".toList then p[7]? else none)
    address := address
    port := (numberOf candidate.port).or (p[5]?.bind numOrNull)
    protocol := (nonEmpty candidate.protocol).or (p[2]?.map toLowerCase)
    foundation := (nonEmpty candidate.foundation).or (nonEmpty (p[0]?.map withoutLabel))
    priority := (numberOf candidate.priority).or (p[3]?.bind numOrNull)
    isMdns := isMdnsName address }

/-! ### Looking for an address -/

/-- An `RTCIceCandidateStats`. -/
structure Stat where
  type : Text
  isRemote : Option Bool
  address : Option Text
  ip : Option Text
  port : Option Nat
  protocol : Option Text
  candidateType : Option Text
  foundation : Option Text
  priority : Option Nat

def STRONG_KEY : String := "foundation+protocol+port+type+priority"

def WEAK_KEY : String := "protocol+port+type"

def sameBase (signaled : Signaled) (stat : Stat) : Bool :=
  signaled.port = numberOf stat.port && signaled.protocol = nonEmpty stat.protocol &&
    signaled.type = nonEmpty stat.candidateType

/-- The entries that agree in everything, where the stat carries everything. -/
def strongMatches (pool : List Signaled) (stat : Stat) : List Signaled :=
  match nonEmpty stat.foundation, numberOf stat.priority with
  | some foundation, some priority =>
      pool.filter fun c => sameBase c stat && c.foundation = some foundation && c.priority = some priority
  | _, _ => []

def matchSignaled (pool : List Signaled) (stat : Stat) : List Signaled × Option String :=
  let strong := strongMatches pool stat
  if strong.length > 0 then (strong, some STRONG_KEY)
  else
    let weak := pool.filter fun c => sameBase c stat
    (weak, if weak.length > 0 then some WEAK_KEY else none)

/-- `rec`, as far as candidates go. -/
structure Pools where
  candidates : List Signaled
  remoteCandidates : List Signaled

structure Described where
  type : Option Text
  address : Option Text
  addressSource : Option String
  addressRedactedByStats : Bool
  matchedOn : Option String
  candidateMatches : Option Nat
  port : Option ℚ
  protocol : Option Text
  foundation : Option Text
  priority : Option ℚ
  isMdns : Bool

def Stat.direct (stat : Stat) : Option Text := (nonEmpty stat.address).or (nonEmpty stat.ip)

def Stat.remote (stat : Stat) : Bool := stat.isRemote.getD (stat.type = "remote-candidate".toList)

def Pools.of (rec : Pools) (stat : Stat) : List Signaled :=
  if stat.remote then rec.remoteCandidates else rec.candidates

/-- `address`, `addressSource`, `matchedOn` and `candidateMatches`. -/
def findAddress (stat : Stat) (rec : Pools) : Option Text × Option String × Option String × Option Nat :=
  match stat.direct with
  | some direct => (some direct, some "stats", none, none)
  | none =>
      let found := matchSignaled (rec.of stat) stat
      match found.1 with
      | [] => (none, none, none, some 0)
      | [only] => (only.address, some "signaled", found.2, some 1)
      | _ => (none, some "ambiguous-signaled", found.2, some found.1.length)

def describeStatCandidate (stat : Stat) (rec : Pools) : Described :=
  let found := findAddress stat rec
  { type := nonEmpty stat.candidateType
    address := found.1
    addressSource := found.2.1
    addressRedactedByStats := stat.direct.isNone
    matchedOn := found.2.2.1
    candidateMatches := found.2.2.2
    port := numberOf stat.port
    protocol := nonEmpty stat.protocol
    foundation := nonEmpty stat.foundation
    priority := numberOf stat.priority
    isMdns := isMdnsName found.1 }

/-- What the wrapped connection notes: an `icecandidate` event, or a call of `addIceCandidate()`. -/
inductive Signalling where
  | icecandidate (candidate : Option Signal)
  | addIceCandidate (candidate : Option Signal)

def Pools.note (rec : Pools) : Nat × Signalling → Pools
  | (atMs, .icecandidate (some candidate)) =>
      { rec with candidates := rec.candidates ++ [describeSignaled atMs candidate] }
  | (_, .icecandidate none) => rec
  | (atMs, .addIceCandidate (some candidate)) =>
      if candidate.candidate = [] then rec
      else { rec with remoteCandidates := rec.remoteCandidates ++ [describeSignaled atMs candidate] }
  | (_, .addIceCandidate none) => rec

/-! ### What a candidate is -/

/-- The words of an SDP candidate line. -/
structure Candidate where
  foundation : Text
  component : Text
  protocol : Text
  priority : Text
  address : Text
  port : Text
  type : Text
  extra : List Text

def Candidate.words (c : Candidate) : List Text :=
  ["candidate:".toList ++ c.foundation, c.component, c.protocol, c.priority, c.address, c.port, "typ".toList,
    c.type] ++ c.extra

def spaced : List Text → Text
  | [] => []
  | [word] => word
  | word :: rest => word ++ ' ' :: spaced rest

def IsWord (word : Text) : Prop := word ≠ [] ∧ ∀ c ∈ word, Gguf.isStrWhiteSpace c = false

structure Candidate.Written (c : Candidate) : Prop where
  words : ∀ word ∈ c.words, IsWord word
  foundation : c.foundation ≠ []

/-- What is signalled is this candidate: its line, and each attribute right or missing. -/
structure Signal.Of (c : Candidate) (x : Signal) : Prop where
  candidate : x.candidate = spaced c.words
  foundation : ∀ text ∈ nonEmpty x.foundation, text = c.foundation
  priority : ∀ n ∈ numberOf x.priority, numOrNull c.priority = some n
  address : ∀ text ∈ nonEmpty x.address, text = c.address
  port : ∀ n ∈ numberOf x.port, numOrNull c.port = some n
  protocol : ∀ text ∈ nonEmpty x.protocol, text = toLowerCase c.protocol
  type : ∀ text ∈ nonEmpty x.type, text = c.type

/-- The stat is this candidate's: an address, a foundation and a priority may be missing. -/
structure Stat.Of (c : Candidate) (stat : Stat) : Prop where
  address : ∀ text ∈ stat.direct, text = c.address
  port : numberOf stat.port = numOrNull c.port
  protocol : nonEmpty stat.protocol = some (toLowerCase c.protocol)
  candidateType : nonEmpty stat.candidateType = some c.type
  foundation : ∀ text ∈ nonEmpty stat.foundation, text = c.foundation
  priority : ∀ n ∈ numberOf stat.priority, numOrNull c.priority = some n

def Candidate.described (c : Candidate) (atMs : Nat) : Signaled where
  atMs := atMs
  candidate := spaced c.words
  type := some c.type
  address := some c.address
  port := numOrNull c.port
  protocol := some (toLowerCase c.protocol)
  foundation := some c.foundation
  priority := numOrNull c.priority
  isMdns := isMdnsName (some c.address)

variable {c : Candidate} {x : Signal} {stat : Stat} {pool : List Signaled} {atMs : Nat}

/-! ### Lines and their words -/

theorem splitOnP_spaced {words : List Text} (hne : words ≠ []) (hwords : ∀ word ∈ words, IsWord word) :
    (spaced words).splitOnP Gguf.isStrWhiteSpace = words := by
  induction words with
  | nil => exact absurd rfl hne
  | cons word rest ih =>
      have hword := hwords word List.mem_cons_self
      cases rest with
      | nil => exact List.splitOnP_eq_singleton hword.2
      | cons next rest =>
          have hrest := ih (List.cons_ne_nil next rest) fun w hmem => hwords w (List.mem_cons_of_mem _ hmem)
          rw [spaced, List.splitOnP_append_cons _ _ (by decide), List.splitOnP_eq_singleton hword.2, hrest]
          · rfl
          · exact fun h => absurd h (List.cons_ne_nil next rest)

theorem splitSpaces_spaced {words : List Text} (hne : words ≠ []) (hwords : ∀ word ∈ words, IsWord word) :
    splitSpaces (spaced words) = words := by
  rw [splitSpaces, splitOnP_spaced hne hwords]
  cases words with
  | nil => rfl
  | cons first rest =>
      cases rest with
      | nil => rfl
      | cons next rest =>
          have hkept : (next :: rest).dropLast.filter (fun piece => piece ≠ []) = (next :: rest).dropLast := by
            rw [List.filter_eq_self]
            intro word hmem
            exact decide_eq_true (hwords word (List.mem_cons_of_mem _ (List.mem_of_mem_dropLast hmem))).1
          dsimp only
          rw [hkept, List.getLast?_eq_some_getLast (List.cons_ne_nil next rest), Option.toList_some,
            List.dropLast_append_getLast]

theorem or_eq {α : Type} {value : Option α} {a : Option α} (h : ∀ b ∈ value, a = some b) : value.or a = a := by
  cases value with
  | none => rfl
  | some b => exact (h b rfl).symm

theorem or_some_eq {α : Type} {value : Option α} {a : α} (h : ∀ b ∈ value, b = a) : value.or (some a) = some a :=
  or_eq fun b hmem => congrArg some (h b hmem).symm

theorem nonEmpty_of_ne {text : Text} (h : text ≠ []) : nonEmpty (some text) = some text := by
  rw [nonEmpty, Option.filter_some, if_pos (decide_eq_true h)]

theorem withoutLabel_append (text : Text) : withoutLabel ("candidate:".toList ++ text) = text := rfl

/-- **A candidate is described by its line as by its attributes.** -/
theorem describeSignaled_of (hc : c.Written) (hx : x.Of c) (atMs : Nat) :
    describeSignaled atMs x = c.described atMs := by
  have hwords : splitSpaces x.candidate = c.words := by
    rw [hx.candidate]
    exact splitSpaces_spaced (List.cons_ne_nil _ _) hc.words
  have haddress := or_some_eq hx.address
  have htype := or_some_eq hx.type
  have hprotocol := or_some_eq hx.protocol
  have hfoundation := or_some_eq hx.foundation
  have hport := or_eq hx.port
  have hpriority := or_eq hx.priority
  rw [describeSignaled, hwords, hx.candidate]
  show Signaled.mk atMs _ ((nonEmpty x.type).or (some c.type)) ((nonEmpty x.address).or (some c.address))
    ((numberOf x.port).or (numOrNull c.port)) ((nonEmpty x.protocol).or (some (toLowerCase c.protocol)))
    ((nonEmpty x.foundation).or (nonEmpty (some (withoutLabel ("candidate:".toList ++ c.foundation)))))
    ((numberOf x.priority).or (numOrNull c.priority)) (isMdnsName ((nonEmpty x.address).or (some c.address))) = _
  rw [withoutLabel_append, nonEmpty_of_ne hc.foundation, haddress, htype, hprotocol, hfoundation, hport, hpriority]
  rfl

/-! ### The candidate in question is among them -/

/-- Nothing that the stat carries says that it is another candidate. -/
def looksLike (stat : Stat) (signaled : Signaled) : Bool :=
  match nonEmpty stat.foundation, numberOf stat.priority with
  | some foundation, some priority =>
      sameBase signaled stat && signaled.foundation = some foundation && signaled.priority = some priority
  | _, _ => sameBase signaled stat

theorem looksLike_described (hstat : stat.Of c) (atMs : Nat) : looksLike stat (c.described atMs) = true := by
  have hbase : sameBase (c.described atMs) stat = true := by
    rw [sameBase, hstat.port, hstat.protocol, hstat.candidateType]
    simp [Candidate.described]
  unfold looksLike
  split
  · rename_i foundation priority hfoundation hpriority
    have hright : foundation = c.foundation := hstat.foundation foundation hfoundation
    have hnumber : numOrNull c.priority = some priority := hstat.priority priority hpriority
    rw [hbase, hright]
    simp [Candidate.described, hnumber]
  · exact hbase

/-- Where one entry looks like the stat, those that do are the ones that match. -/
theorem matchSignaled_eq {signaled : Signaled} (hmem : signaled ∈ pool) (hlooks : looksLike stat signaled = true) :
    (matchSignaled pool stat).1 = pool.filter (looksLike stat) := by
  have hpos : 0 < (pool.filter (looksLike stat)).length :=
    List.length_pos_of_mem (List.mem_filter.mpr ⟨hmem, hlooks⟩)
  have hnone : ([] : List Signaled).length > 0 ↔ False := by simp
  unfold matchSignaled strongMatches
  unfold looksLike at hpos ⊢
  dsimp only
  split
  · rename_i foundation priority hfoundation hpriority
    simp only [hfoundation, hpriority] at hpos
    exact congrArg Prod.fst (if_pos hpos)
  · rw [if_neg hnone.mp]

theorem mem_note {rec : Pools} {signaled : Signaled} (h : signaled ∈ rec.of stat) (e : Nat × Signalling) :
    signaled ∈ (rec.note e).of stat := by
  obtain ⟨atMs, event⟩ := e
  unfold Pools.of at h ⊢
  cases event with
  | icecandidate candidate =>
      cases candidate with
      | none => exact h
      | some candidate =>
          split at h
          · rwa [if_pos ‹_›]
          · rw [if_neg ‹_›]
            exact List.mem_append_left _ h
  | addIceCandidate candidate =>
      cases candidate with
      | none => exact h
      | some candidate =>
          unfold Pools.note
          dsimp only
          split at h
          · rw [if_pos ‹_›]
            split
            · exact h
            · exact List.mem_append_left _ h
          · rw [if_neg ‹_›]
            split <;> exact h

theorem mem_foldl_note {signaled : Signaled} (es : List (Nat × Signalling)) {rec : Pools}
    (h : signaled ∈ rec.of stat) : signaled ∈ (es.foldl Pools.note rec).of stat := by
  induction es generalizing rec with
  | nil => exact h
  | cons e es ih => exact ih (mem_note h e)

/-- How the candidate of the stat is signalled. -/
def Stat.signalling (stat : Stat) (x : Signal) : Signalling :=
  if stat.remote then .addIceCandidate (some x) else .icecandidate (some x)

theorem mem_note_self (hx : x.Of c) (rec : Pools) :
    describeSignaled atMs x ∈ (rec.note (atMs, stat.signalling x)).of stat := by
  have hline : x.candidate ≠ [] := by
    rw [hx.candidate]
    exact List.cons_ne_nil _ _
  unfold Stat.signalling Pools.of
  split
  · unfold Pools.note
    dsimp only
    rw [if_neg hline]
    exact List.mem_append_right _ List.mem_cons_self
  · exact List.mem_append_right _ List.mem_cons_self

theorem mem_of_signalled (hx : x.Of c) {es : List (Nat × Signalling)} (hmem : (atMs, stat.signalling x) ∈ es)
    (rec : Pools) : describeSignaled atMs x ∈ (es.foldl Pools.note rec).of stat := by
  obtain ⟨before, after, rfl⟩ := List.append_of_mem hmem
  rw [List.foldl_append, List.foldl_cons]
  exact mem_foldl_note after (mem_note_self hx _)

/-- What is signalled on the connection. -/
def pools (es : List (Nat × Signalling)) : Pools := es.foldl Pools.note ⟨[], []⟩

/-- The candidates that the stat may be about, as far as it says. -/
def lookalikes (es : List (Nat × Signalling)) (stat : Stat) : List Signaled :=
  ((pools es).of stat).filter (looksLike stat)

theorem findAddress_redacted {rec : Pools} {matched : List Signaled} (hdirect : stat.direct = none)
    (hmatched : (matchSignaled (rec.of stat) stat).1 = matched) (hne : matched ≠ []) :
    (findAddress stat rec).1 = (if matched.length = 1 then matched.head?.bind Signaled.address else none) ∧
      (findAddress stat rec).2.1 = some (if matched.length = 1 then "signaled" else "ambiguous-signaled") ∧
      (findAddress stat rec).2.2.2 = some matched.length := by
  unfold findAddress
  rw [hdirect]
  dsimp only
  rw [hmatched]
  cases matched with
  | nil => exact absurd rfl hne
  | cons first rest =>
      cases rest with
      | nil => exact ⟨rfl, rfl, rfl⟩
      | cons second rest =>
          have hmany : ¬(first :: second :: rest).length = 1 := by simp
          rw [if_neg hmany, if_neg hmany]
          exact ⟨rfl, rfl, rfl⟩

theorem findAddress_direct {direct : Text} (h : stat.direct = some direct) (rec : Pools) :
    findAddress stat rec = (some direct, some "stats", none, none) := by
  rw [findAddress, h]

theorem described_mem (hc : c.Written) (hx : x.Of c) {es : List (Nat × Signalling)}
    (hsignalled : (atMs, stat.signalling x) ∈ es) : c.described atMs ∈ (pools es).of stat := by
  rw [← describeSignaled_of hc hx]
  exact mem_of_signalled hx hsignalled _

/-- A redacted stat: its candidate is among those that look like it, and known where it is alone there. -/
theorem findAddress_lookalikes {es : List (Nat × Signalling)} (hmem : c.described atMs ∈ (pools es).of stat)
    (hstat : stat.Of c) (hdirect : stat.direct = none) :
    1 ≤ (lookalikes es stat).length ∧
      (findAddress stat (pools es)).2.2.2 = some (lookalikes es stat).length ∧
      (findAddress stat (pools es)).1 = (if (lookalikes es stat).length = 1 then some c.address else none) ∧
      (findAddress stat (pools es)).2.1 =
        some (if (lookalikes es stat).length = 1 then "signaled" else "ambiguous-signaled") := by
  have hlooks := looksLike_described hstat atMs
  have hthere : c.described atMs ∈ lookalikes es stat := List.mem_filter.mpr ⟨hmem, hlooks⟩
  obtain ⟨haddress, hsource, hcount⟩ :=
    findAddress_redacted hdirect (matchSignaled_eq hmem hlooks) (List.ne_nil_of_mem hthere)
  refine ⟨List.length_pos_of_mem hthere, hcount, haddress.trans (ite_congr rfl (fun hone => ?_) fun _ => rfl),
    hsource⟩
  -- the only one that looks like the candidate is the candidate
  obtain ⟨only, honly⟩ := List.length_eq_one_iff.mp hone
  have hsame : c.described atMs = only := by
    rw [honly] at hthere
    exact List.mem_singleton.mp hthere
  show (lookalikes es stat).head?.bind Signaled.address = _
  rw [honly, ← hsame]
  rfl

theorem findAddress_known (hstat : stat.Of c) (hdirect : stat.direct ≠ none) (rec : Pools) :
    findAddress stat rec = (some c.address, some "stats", none, none) := by
  obtain ⟨direct, hsome⟩ := Option.ne_none_iff_exists'.mp hdirect
  have hright : direct = c.address := hstat.address direct hsome
  rw [findAddress_direct hsome, hright]

theorem describeStatCandidate_address (hc : c.Written) (hx : x.Of c) (hstat : stat.Of c)
    {es : List (Nat × Signalling)} (hsignalled : (atMs, stat.signalling x) ∈ es) :
    ∀ address ∈ (describeStatCandidate stat (pools es)).address, address = c.address := by
  intro address hmem
  change (findAddress stat (pools es)).1 = some address at hmem
  by_cases hdirect : stat.direct = none
  · rw [(findAddress_lookalikes (described_mem hc hx hsignalled) hstat hdirect).2.2.1] at hmem
    split at hmem
    · exact (Option.some.inj hmem).symm
    · cases hmem
  · rw [findAddress_known hstat hdirect] at hmem
    exact (Option.some.inj hmem).symm

/-- **No address is given to a candidate that is not its own**, however the candidate was signalled. -/
theorem address_right (c : Candidate) (x : Signal) (stat : Stat) (es : List (Nat × Signalling)) (atMs : Nat)
    (hc : c.Written) (hx : x.Of c) (hstat : stat.Of c) (hsignalled : (atMs, stat.signalling x) ∈ es) :
    let d := describeStatCandidate stat (pools es)
    let n := (lookalikes es stat).length
    describeSignaled atMs x = c.described atMs ∧
    (stat.direct = none → 1 ≤ n ∧ d.candidateMatches = some n ∧
      d.address = (if n = 1 then some c.address else none) ∧
      d.addressSource = some (if n = 1 then "signaled" else "ambiguous-signaled")) ∧
    (stat.direct ≠ none → d.address = some c.address ∧ d.addressSource = some "stats") := by
  intro d n
  refine ⟨describeSignaled_of hc hx atMs, ?_, ?_⟩
  · exact findAddress_lookalikes (described_mem hc hx hsignalled) hstat
  · intro hdirect
    have hfound := findAddress_known hstat hdirect (pools es)
    exact ⟨congrArg Prod.fst hfound, congrArg (fun found => found.2.1) hfound⟩

/-- A host candidate under an mDNS name. -/
def mdnsHost (foundation : String) : Candidate where
  foundation := foundation.toList
  component := "1".toList
  protocol := "UDP".toList
  priority := "2113937151".toList
  address := "7f3a.local".toList
  port := "54321".toList
  type := "host".toList
  extra := []

/-- As PeerJS hands it to `addIceCandidate()`. -/
def lineOnly (c : Candidate) : Signal where
  candidate := spaced c.words
  foundation := none
  priority := none
  address := none
  port := none
  protocol := none
  type := none

def mdnsStat : Stat where
  type := "remote-candidate".toList
  isRemote := some true
  address := some []
  ip := none
  port := some 54321
  protocol := some "udp".toList
  candidateType := some "host".toList
  foundation := some "1".toList
  priority := some 2113937151

theorem written_of_all (hwords : (c.words.all fun word => !word.isEmpty && word.all fun letter =>
    !Gguf.isStrWhiteSpace letter) = true) (hfoundation : c.foundation ≠ []) : c.Written := by
  refine ⟨fun word hmem => ?_, hfoundation⟩
  have hword := List.all_eq_true.mp hwords word hmem
  rw [Bool.and_eq_true, Bool.not_eq_true', List.isEmpty_eq_false_iff, List.all_eq_true] at hword
  exact ⟨hword.1, fun letter hletter => by simpa using hword.2 letter hletter⟩

theorem lineOnly_of (c : Candidate) : (lineOnly c).Of c where
  candidate := rfl
  foundation _ h := absurd h (Option.not_mem_none _)
  priority _ h := absurd h (Option.not_mem_none _)
  address _ h := absurd h (Option.not_mem_none _)
  port _ h := absurd h (Option.not_mem_none _)
  protocol _ h := absurd h (Option.not_mem_none _)
  type _ h := absurd h (Option.not_mem_none _)

def twoSignalled : List (Nat × Signalling) :=
  [(3, .addIceCandidate (some (lineOnly (mdnsHost "2")))), (5, .addIceCandidate (some (lineOnly (mdnsHost "1"))))]

/-- Of two candidates with the same port the one with the foundation of the stat is meant. -/
theorem address_right_mdns :
    (describeStatCandidate mdnsStat (pools twoSignalled)).address = some "7f3a.local".toList := by
  have hdirect : mdnsStat.direct = none := rfl
  have hstat : mdnsStat.Of (mdnsHost "1") := by
    refine ⟨?_, ?_, rfl, rfl, ?_, ?_⟩
    · rw [hdirect]
      exact fun text h => absurd h (Option.not_mem_none text)
    · decide +kernel
    · exact fun text h => (Option.some.inj h).symm
    · intro n h
      have hpriority : numOrNull (mdnsHost "1").priority = numberOf mdnsStat.priority := by decide +kernel
      rw [hpriority]
      exact h
  have hright := (address_right (mdnsHost "1") (lineOnly (mdnsHost "1")) mdnsStat twoSignalled 5
    (written_of_all (by decide) (by decide)) (lineOnly_of _) hstat
    (List.mem_cons_of_mem _ List.mem_cons_self)).2.1 hdirect
  have hone : (lookalikes twoSignalled mdnsStat).length = 1 := by decide +kernel
  rw [hright.2.2.1, if_pos hone]
  rfl

end LlmRuntime.LanProbe

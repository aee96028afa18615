import LlmRuntime.LanProbe.Model
import LlmRuntime.LanProbe.Addresses

/-!
# The pair that is in use

`digestStats` of `scripts/lan-probe.js`: the candidate pairs of a stats report with their two candidates, and
which of them is in use. The browser says so in a `transport`; where it does not, the first pair that is
nominated and has succeeded is taken.
-/

namespace LlmRuntime.LanProbe

/-- An object of a stats report, whatever its type. -/
structure Stats extends Stat where
  id : String
  selectedCandidatePairId : Option String
  state : Option String
  nominated : Option Bool
  localCandidateId : Option String
  remoteCandidateId : Option String

/-- An `RTCStatsReport`, which is a map from ids. -/
structure StatsReport where
  stats : List Stats
  nodup_id : (stats.map Stats.id).Nodup

def TRANSPORT : String := "transport.selectedCandidatePairId"

def FALLBACK : String := "fallback(nominated+succeeded)"

def Stats.isPair (s : Stats) : Bool := s.type = "candidate-pair".toList

namespace StatsReport

def byId (report : StatsReport) (id : String) : Option Stats := report.stats.find? fun s => s.id = id

/-- Of several transports the last one counts. -/
def selectedId (report : StatsReport) : Option String :=
  (report.stats.filterMap fun s =>
    if s.type = "transport".toList then s.selectedCandidatePairId.filter fun id => id ≠ "" else none).getLast?

/-- `describeStatCandidate(byId.get(id), rec)` -/
def describe (report : StatsReport) (rec : Pools) (id : Option String) : Option Described :=
  (id.bind report.byId).map fun s => describeStatCandidate s.toStat rec

def pairOf (report : StatsReport) (rec : Pools) (s : Stats) : Pair Described where
  id := s.id
  state := s.state.filter fun state => state ≠ ""
  nominated := s.nominated.getD false
  selected := report.selectedId = some s.id
  localCandidate := report.describe rec s.localCandidateId
  remoteCandidate := report.describe rec s.remoteCandidateId

end StatsReport

variable {κ : Type}

def Pair.works (pair : Pair κ) : Bool := pair.state = some "succeeded" && pair.nominated

/-- `find`, and the mark on what is found. -/
def markFirst : List (Pair κ) → List (Pair κ) × Option (Pair κ)
  | [] => ([], none)
  | pair :: rest =>
      if pair.works then ({ pair with selected := true } :: rest, some { pair with selected := true })
      else (pair :: (markFirst rest).1, (markFirst rest).2)

def StatsReport.pairs (report : StatsReport) (rec : Pools) : List (Pair Described) :=
  (report.stats.filter Stats.isPair).map (report.pairOf rec)

def digestStats (report : StatsReport) (rec : Pools) : Digest Described :=
  let pairs := report.pairs rec
  match pairs.find? Pair.selected with
  | some selected => ⟨pairs, some selected, some TRANSPORT⟩
  | none =>
      let marked := markFirst pairs
      ⟨marked.1, marked.2, marked.2.map fun _ => FALLBACK⟩

/-! ### The mark -/

theorem map_id_markFirst (pairs : List (Pair κ)) : (markFirst pairs).1.map Pair.id = pairs.map Pair.id := by
  induction pairs with
  | nil => rfl
  | cons pair rest ih =>
      rw [markFirst]
      split
      · rfl
      · rw [List.map_cons, List.map_cons, ih]

theorem markFirst_snd (pairs : List (Pair κ)) :
    (markFirst pairs).2 = (pairs.find? Pair.works).map fun pair => { pair with selected := true } := by
  induction pairs with
  | nil => rfl
  | cons pair rest ih =>
      rw [markFirst, List.find?_cons]
      cases hworks : pair.works with
      | true => rfl
      | false => exact ih

theorem filter_markFirst {pairs : List (Pair κ)} (hnone : ∀ pair ∈ pairs, pair.selected = false) :
    (markFirst pairs).1.filter Pair.selected = (markFirst pairs).2.toList := by
  induction pairs with
  | nil => rfl
  | cons pair rest ih =>
      have hrest := fun q hmem => hnone q (List.mem_cons_of_mem pair hmem)
      have hpair : ¬pair.selected = true := Bool.not_eq_true _ ▸ hnone pair List.mem_cons_self
      rw [markFirst]
      split
      · have hnil : rest.filter Pair.selected = [] :=
          List.filter_eq_nil_iff.mpr fun q hmem => Bool.not_eq_true _ ▸ hrest q hmem
        rw [List.filter_cons_of_pos rfl, hnil]
        rfl
      · rw [List.filter_cons_of_neg hpair]
        exact ih hrest

/-- The mark is all that changes. -/
theorem mem_markFirst {pairs : List (Pair κ)} {pair : Pair κ} (hmem : pair ∈ (markFirst pairs).1) :
    ∃ q ∈ pairs, pair = { q with selected := pair.selected } := by
  induction pairs with
  | nil => exact absurd hmem List.not_mem_nil
  | cons first rest ih =>
      rw [markFirst] at hmem
      split at hmem
      · obtain rfl | hrest := List.mem_cons.mp hmem
        · exact ⟨first, List.mem_cons_self, rfl⟩
        · exact ⟨pair, List.mem_cons_of_mem _ hrest, rfl⟩
      · obtain rfl | hrest := List.mem_cons.mp hmem
        · exact ⟨pair, List.mem_cons_self, rfl⟩
        · obtain ⟨q, hq, hsame⟩ := ih hrest
          exact ⟨q, List.mem_cons_of_mem _ hq, hsame⟩

/-! ### What a digest says -/

/-- Where keys are different, at most one element has a given one. -/
theorem filter_eq_singleton {α β : Type} [DecidableEq β] (f : α → β) {l : List α} {a : α}
    (hnodup : (l.map f).Nodup) (hmem : a ∈ l) : (l.filter fun b => f b = f a) = [a] := by
  induction l with
  | nil => exact absurd hmem List.not_mem_nil
  | cons b l ih =>
      rw [List.map_cons, List.nodup_cons] at hnodup
      obtain rfl | hrest := List.mem_cons.mp hmem
      · have hnil : (l.filter fun b => f b = f a) = [] := by
          refine List.filter_eq_nil_iff.mpr fun b hb hsame => hnodup.1 ?_
          rw [← of_decide_eq_true hsame]
          exact List.mem_map_of_mem hb
        rw [List.filter_cons, if_pos (decide_eq_true rfl), hnil]
      · have hother : ¬decide (f b = f a) = true := by
          intro hsame
          refine hnodup.1 ?_
          rw [of_decide_eq_true hsame]
          exact List.mem_map_of_mem hrest
        rw [List.filter_cons, if_neg hother]
        exact ih hnodup.2 hrest

variable {report : StatsReport} {rec : Pools} {es : List (Nat × Signalling)} {s : Stats}

theorem byId_eq (hmem : s ∈ report.stats) : report.byId s.id = some s := by
  rw [StatsReport.byId, ← List.head?_filter, filter_eq_singleton Stats.id report.nodup_id hmem]
  rfl

theorem map_id_pairs (report : StatsReport) (rec : Pools) :
    (report.pairs rec).map Pair.id = (report.stats.filter Stats.isPair).map Stats.id := by
  rw [StatsReport.pairs, List.map_map]
  rfl

theorem filter_pairs (hmem : s ∈ report.stats) (hpair : s.isPair = true) (hnamed : report.selectedId = some s.id) :
    (report.pairs rec).filter Pair.selected = [report.pairOf rec s] := by
  have hselected : Pair.selected ∘ report.pairOf rec = fun t : Stats => decide (t.id = s.id) := by
    funext t
    show decide (report.selectedId = some t.id) = decide (t.id = s.id)
    rw [hnamed]
    exact decide_eq_decide.mpr ⟨fun h => (Option.some.inj h).symm, fun h => congrArg some h.symm⟩
  have hnodup : ((report.stats.filter Stats.isPair).map Stats.id).Nodup :=
    (List.filter_sublist.map Stats.id).nodup report.nodup_id
  rw [StatsReport.pairs, List.filter_map, hselected,
    filter_eq_singleton Stats.id hnodup (List.mem_filter.mpr ⟨hmem, hpair⟩)]
  rfl

theorem digestStats_named (hmem : s ∈ report.stats) (hpair : s.isPair = true)
    (hnamed : report.selectedId = some s.id) :
    digestStats report rec = ⟨report.pairs rec, some (report.pairOf rec s), some TRANSPORT⟩ := by
  have hfind : (report.pairs rec).find? Pair.selected = some (report.pairOf rec s) := by
    rw [← List.head?_filter, filter_pairs hmem hpair hnamed]
    rfl
  rw [digestStats, hfind]

/-- The browser names no pair of the report. -/
def StatsReport.Unnamed (report : StatsReport) : Prop :=
  ∀ s ∈ report.stats, s.isPair = true → report.selectedId ≠ some s.id

theorem selected_eq_false (hunnamed : report.Unnamed) :
    ∀ pair ∈ report.pairs rec, pair.selected = false := by
  intro pair hmem
  obtain ⟨s, hs, rfl⟩ := List.mem_map.mp hmem
  exact decide_eq_false (hunnamed s (List.mem_of_mem_filter hs) (List.of_mem_filter hs))

theorem digestStats_unnamed (hunnamed : report.Unnamed) : digestStats report rec =
    ⟨(markFirst (report.pairs rec)).1, (markFirst (report.pairs rec)).2,
      (markFirst (report.pairs rec)).2.map fun _ => FALLBACK⟩ := by
  have hfind : (report.pairs rec).find? Pair.selected = none := by
    rw [List.find?_eq_none]
    intro pair hmem hselected
    exact Bool.false_ne_true ((selected_eq_false hunnamed pair hmem).symm.trans hselected)
  rw [digestStats, hfind]

theorem named_or_unnamed (report : StatsReport) :
    (∃ s ∈ report.stats, s.isPair = true ∧ report.selectedId = some s.id) ∨ report.Unnamed := by
  by_cases h : ∃ s ∈ report.stats, s.isPair = true ∧ report.selectedId = some s.id
  · exact .inl h
  · exact .inr fun s hmem hpair hnamed => h ⟨s, hmem, hpair, hnamed⟩

/-- The candidate of an id, where it was signalled, is given no address but its own. -/
def Attributed (report : StatsReport) (es : List (Nat × Signalling)) (id : Option String)
    (described : Option Described) : Prop :=
  ∀ s ∈ report.stats, id = some s.id → ∀ (c : Candidate) (x : Signal) (atMs : Nat), c.Written → x.Of c →
    s.toStat.Of c → (atMs, s.toStat.signalling x) ∈ es →
      ∃ d, described = some d ∧ ∀ address ∈ d.address, address = c.address

theorem describe_attributed (report : StatsReport) (es : List (Nat × Signalling)) (id : Option String) :
    Attributed report es id (report.describe (pools es) id) := by
  rintro s hmem rfl c x atMs hc hx hstat hsignalled
  refine ⟨describeStatCandidate s.toStat (pools es), ?_, describeStatCandidate_address hc hx hstat hsignalled⟩
  rw [StatsReport.describe, Option.bind_some, byId_eq hmem, Option.map_some]

/-- What a digest says of a pair is what the report says, the mark aside. -/
theorem mem_digestStats {pair : Pair Described} (hmem : pair ∈ (digestStats report rec).pairs) :
    ∃ s ∈ report.stats, s.isPair = true ∧ pair = { report.pairOf rec s with selected := pair.selected } := by
  obtain ⟨named, hnamed, hpair, hid⟩ | hunnamed := named_or_unnamed report
  · rw [digestStats_named hnamed hpair hid] at hmem
    obtain ⟨s, hs, rfl⟩ := List.mem_map.mp hmem
    exact ⟨s, List.mem_of_mem_filter hs, List.of_mem_filter hs, rfl⟩
  · rw [digestStats_unnamed hunnamed] at hmem
    obtain ⟨q, hq, hsame⟩ := mem_markFirst hmem
    obtain ⟨s, hs, rfl⟩ := List.mem_map.mp hq
    exact ⟨s, List.mem_of_mem_filter hs, List.of_mem_filter hs, hsame⟩

theorem filter_digestStats (report : StatsReport) (rec : Pools) :
    (digestStats report rec).pairs.filter Pair.selected = (digestStats report rec).selectedPair.toList := by
  obtain ⟨s, hmem, hpair, hnamed⟩ | hunnamed := named_or_unnamed report
  · rw [digestStats_named hmem hpair hnamed]
    exact filter_pairs hmem hpair hnamed
  · rw [digestStats_unnamed hunnamed]
    exact filter_markFirst (selected_eq_false hunnamed)

theorem map_id_digestStats (report : StatsReport) (rec : Pools) :
    (digestStats report rec).pairs.map Pair.id = (report.stats.filter Stats.isPair).map Stats.id := by
  rw [← map_id_pairs report rec]
  obtain ⟨s, hmem, hpair, hnamed⟩ | hunnamed := named_or_unnamed report
  · rw [digestStats_named hmem hpair hnamed]
  · rw [digestStats_unnamed hunnamed]
    exact map_id_markFirst _

def Stats.works (s : Stats) : Bool := s.state = some "succeeded" && s.nominated = some true

theorem works_pairOf (report : StatsReport) (rec : Pools) (s : Stats) : (report.pairOf rec s).works = s.works := by
  have hstate : (s.state.filter fun state => state ≠ "") = some "succeeded" ↔ s.state = some "succeeded" := by
    rw [Option.filter_eq_some_iff]
    exact ⟨And.left, fun h => ⟨h, by decide⟩⟩
  have hnominated : s.nominated.getD false = decide (s.nominated = some true) := by
    cases s.nominated with
    | none => rfl
    | some nominated => cases nominated <;> rfl
  unfold Pair.works Stats.works StatsReport.pairOf
  dsimp only
  rw [hnominated, decide_eq_decide.mpr hstate]

/-- Without a name: the first pair that is nominated and has succeeded. -/
theorem selectedPair_unnamed (hunnamed : report.Unnamed) (rec : Pools) :
    (digestStats report rec).selectedPair.map Pair.id =
      (report.stats.find? fun s => s.isPair && s.works).map Stats.id := by
  have hworks : Pair.works ∘ report.pairOf rec = Stats.works := funext (works_pairOf report rec)
  have hboth : (fun s : Stats => decide (s.isPair = true ∧ s.works = true)) = fun s => s.isPair && s.works := by
    funext s
    rw [Bool.decide_and, Bool.decide_eq_true, Bool.decide_eq_true]
  rw [digestStats_unnamed hunnamed]
  dsimp only
  rw [markFirst_snd, StatsReport.pairs, List.find?_map, hworks, List.find?_filter, hboth, Option.map_map,
    Option.map_map]
  rfl

/-- **One pair is in use, if any, and no address in a digest is another candidate's.** -/
theorem digest_right (report : StatsReport) (es : List (Nat × Signalling)) :
    let d := digestStats report (pools es)
    d.pairs.map Pair.id = (report.stats.filter Stats.isPair).map Stats.id ∧
      d.pairs.filter Pair.selected = d.selectedPair.toList ∧
      (∀ s ∈ report.stats, s.isPair = true → report.selectedId = some s.id →
        d.selectedPair.map Pair.id = some s.id ∧ d.selectedVia = some TRANSPORT) ∧
      (report.Unnamed →
        d.selectedPair.map Pair.id = (report.stats.find? fun s => s.isPair && s.works).map Stats.id ∧
          d.selectedVia = d.selectedPair.map fun _ => FALLBACK) ∧
      ∀ pair ∈ d.pairs, ∃ s ∈ report.stats, s.isPair = true ∧ pair.id = s.id ∧
        Attributed report es s.localCandidateId pair.localCandidate ∧
          Attributed report es s.remoteCandidateId pair.remoteCandidate := by
  intro d
  refine ⟨map_id_digestStats report _, filter_digestStats report _, ?_, ?_, ?_⟩
  · intro s hmem hpair hnamed
    have hd : digestStats report (pools es) = _ := digestStats_named hmem hpair hnamed
    exact ⟨congrArg (fun d => d.selectedPair.map Pair.id) hd, congrArg Digest.selectedVia hd⟩
  · intro hunnamed
    refine ⟨selectedPair_unnamed hunnamed _, ?_⟩
    show (digestStats report (pools es)).selectedVia = (digestStats report (pools es)).selectedPair.map _
    rw [digestStats_unnamed hunnamed]
  · intro pair hmem
    obtain ⟨s, hs, hpair, hsame⟩ := mem_digestStats hmem
    refine ⟨s, hs, hpair, ?_, ?_, ?_⟩
    · rw [hsame]
      rfl
    · rw [hsame]
      exact describe_attributed report es s.localCandidateId
    · rw [hsame]
      exact describe_attributed report es s.remoteCandidateId

def bareStats (type id : String) : Stats where
  type := type.toList
  isRemote := none
  address := none
  ip := none
  port := none
  protocol := none
  candidateType := none
  foundation := none
  priority := none
  id := id
  selectedCandidatePairId := none
  state := none
  nominated := none
  localCandidateId := none
  remoteCandidateId := none

/-- After a restart: two pairs have succeeded and are nominated, and the browser uses the second one. -/
def restarted : StatsReport where
  stats := [
    { bareStats "candidate-pair" "P1" with state := some "succeeded", nominated := some true },
    { bareStats "candidate-pair" "P2" with
      state := some "succeeded", nominated := some true, remoteCandidateId := some "R" },
    { mdnsStat with
      id := "R", selectedCandidatePairId := none, state := none, nominated := none, localCandidateId := none,
      remoteCandidateId := none },
    { bareStats "transport" "T" with selectedCandidatePairId := some "P2" }]
  nodup_id := by decide

theorem digest_right_restarted :
    (digestStats restarted (pools twoSignalled)).selectedPair.map Pair.id = some "P2" ∧
      (digestStats restarted (pools twoSignalled)).selectedVia = some TRANSPORT := by
  have hsecond : restarted.stats[1].id = "P2" := rfl
  have hnamed : restarted.selectedId = some restarted.stats[1].id := by decide
  rw [← hsecond]
  exact (digest_right restarted twoSignalled).2.2.1 _ (List.getElem_mem _) (by decide) hnamed

end LlmRuntime.LanProbe

import LlmRuntime.BackendOps.Counting

/-!
# When the judge passes a run

However the output is sliced, the lines of the whole text are handed over, each of them once. The verdict
is a pass exactly if the text has one section of the target, nothing is counted before the first section,
and the cases of that section are as many as were expected and all of them OK.
-/

namespace LlmRuntime.BackendOps

open Pattern List

namespace BackendOpsSummary

variable {s : BackendOpsSummary}

theorem cut_of_notMem {carry : Text} (h : newline ∉ carry) : cut carry = none := by
  induction carry with
  | nil => rfl
  | cons c carry ih =>
      rw [mem_cons, not_or] at h
      rw [cut, if_neg (Ne.symm h.1), ih h.2, Option.map_none]

theorem cut_append_cons {front : Text} (h : newline ∉ front) (rest : Text) :
    cut (front ++ newline :: rest) = some (front, rest) := by
  induction front with
  | nil => rfl
  | cons c front ih =>
      rw [mem_cons, not_or] at h
      rw [cons_append, cut, if_neg (Ne.symm h.1), ih h.2, Option.map_some]

theorem handOver_of_none (h : cut s.carry = none) : s.handOver = s := by
  rw [handOver]
  split
  · rfl
  · rename_i hcut
    rw [h] at hcut
    cases hcut

theorem handOver_of_some {before after : Text} (h : cut s.carry = some (before, after)) :
    s.handOver = handOver { s.line before with carry := after } := by
  rw [handOver]
  split
  · rename_i hcut
    rw [h] at hcut
    cases hcut
  · rename_i hcut
    rw [h] at hcut
    cases hcut
    rfl

/-- The loop hands over the lines that are complete and keeps the rest. -/
theorem handOver_eq (s : BackendOpsSummary) :
    s.handOver =
      { (s.carry.closedBy newline).foldl line s with carry := s.carry.pending newline } := by
  obtain ⟨carry, hcarry⟩ : ∃ carry, s.carry = carry := ⟨_, rfl⟩
  induction carry using lines_induction newline generalizing s with
  | last carry hnot =>
      rw [← hcarry] at hnot
      rw [handOver_of_none (cut_of_notMem hnot), closedBy_of_notMem hnot, pending_of_notMem hnot]
      rfl
  | piece front rest hnot ih =>
      rw [handOver_of_some (by rw [hcarry, cut_append_cons hnot]), ih _ rfl, hcarry,
        closedBy_append_cons hnot, pending_append_cons, foldl_line_carry, foldl_cons]

theorem feed_eq (s : BackendOpsSummary) (chunk : Text) :
    s.feed chunk =
      { ((s.carry ++ chunk).closedBy newline).foldl line s with
        carry := (s.carry ++ chunk).pending newline } := by
  rw [feed, handOver_eq, foldl_line_carry]

/-- Chunks are handed over as their concatenation is. -/
theorem foldl_feed (hcarry : newline ∉ s.carry) (chunks : List Text) :
    chunks.foldl feed s =
      { ((s.carry ++ chunks.flatten).closedBy newline).foldl line s with
        carry := (s.carry ++ chunks.flatten).pending newline } := by
  induction chunks generalizing s with
  | nil =>
      rw [flatten_nil, append_nil, closedBy_of_notMem hcarry, pending_of_notMem hcarry]
      rfl
  | cons chunk chunks ih =>
      have hpending : newline ∉ (s.feed chunk).carry := by
        rw [feed_eq]
        exact notMem_pending _
      rw [foldl_cons, ih hpending, feed_eq, foldl_line_carry]
      dsimp only
      rw [flatten_cons, ← append_assoc, closedBy_append (s.carry ++ chunk), pending_append (s.carry ++ chunk),
        foldl_append]

end BackendOpsSummary

open BackendOpsSummary

/-- A fresh summary that was fed `chunks` and flushed. -/
def judge (expected : Option Nat) (target : Target) (chunks : List Text) : BackendOpsSummary :=
  (chunks.foldl feed (new expected target)).flush

theorem flush_line (s : BackendOpsSummary) (rest : Text) (hcarry : s.carry = []) :
    ({ s with carry := rest } : BackendOpsSummary).flush =
      (if rest = [] then [] else [rest]).foldl line s := by
  unfold flush
  dsimp only
  by_cases hrest : rest = []
  · rw [if_pos hrest, hrest]
    show { s with carry := [] } = s
    rw [← hcarry]
  · rw [if_neg hrest, if_pos (length_pos_iff.mpr hrest), line_carry, foldl_cons, foldl_nil,
      ← s.line_carry rest [], ← hcarry]

theorem judge_eq (expected : Option Nat) (target : Target) (chunks : List Text) :
    judge expected target chunks = (chunks.flatten.linesOf newline).foldl line (new expected target) := by
  have hcarry (lines : List Text) : (lines.foldl line (new expected target)).carry = [] :=
    congrArg carry (foldl_line_carry (new expected target) lines [])
  rw [judge, foldl_feed not_mem_nil, flush_line _ _ (hcarry _), linesOf, foldl_append]
  rfl

theorem flush_of_carry_eq_nil {s : BackendOpsSummary} (hcarry : s.carry = []) : s.flush = s := by
  rw [flush, hcarry]
  exact if_neg (Nat.lt_irrefl 0)

theorem carry_flush (s : BackendOpsSummary) : s.flush.carry = [] := by
  unfold flush
  split
  · rfl
  · rename_i h
    exact length_eq_zero_iff.mp (by omega)

/-- Flushing again does nothing. -/
theorem iterate_flush (s : BackendOpsSummary) (n : Nat) : flush^[n + 1] s = s.flush := by
  induction n with
  | zero => rfl
  | succ n ih => rw [Function.iterate_succ_apply', ih, flush_of_carry_eq_nil (carry_flush s)]

/-- What the judge holds: the sections are the chapters of the text, the orphans what comes before them. -/
theorem judge_counts (expected : Option Nat) (target : Target) (chunks : List Text) :
    (judge expected target chunks).sections =
        (chapters ((chunks.flatten.linesOf newline).map kind)).2.map sectionOf ∧
      (judge expected target chunks).orphans =
        tally (chapters ((chunks.flatten.linesOf newline).map kind)).1 := by
  rw [judge_eq, foldl_line]
  obtain ⟨hsections, horphans⟩ :=
    foldl_record (s := new expected target) rfl rfl ((chunks.flatten.linesOf newline).map kind)
  exact ⟨hsections, funext horphans⟩

theorem record_options (s : BackendOpsSummary) (k : Header ⊕ Entry) :
    (s.record k).expected = s.expected ∧ (s.record k).target = s.target := by
  match k with
  | .inl h => exact ⟨rfl, rfl⟩
  | .inr (.selfReported txt) => exact ⟨rfl, rfl⟩
  | .inr (.testCase status) =>
      show (s.countCase status).expected = _ ∧ (s.countCase status).target = _
      unfold BackendOpsSummary.countCase
      split <;> exact ⟨rfl, rfl⟩
  | .inr .other => exact ⟨rfl, rfl⟩

theorem judge_options (expected : Option Nat) (target : Target) (chunks : List Text) :
    (judge expected target chunks).expected = expected ∧
      (judge expected target chunks).target = target := by
  have hfold (ks : List (Header ⊕ Entry)) : ∀ s : BackendOpsSummary,
      (ks.foldl record s).expected = s.expected ∧ (ks.foldl record s).target = s.target := by
    induction ks with
    | nil => exact fun s => ⟨rfl, rfl⟩
    | cons k ks ih =>
        intro s
        obtain ⟨hexpected, htarget⟩ := record_options s k
        obtain ⟨hexpected', htarget'⟩ := ih (s.record k)
        exact ⟨hexpected'.trans hexpected, htarget'.trans htarget⟩
  rw [judge_eq, foldl_line]
  exact hfold _ (new expected target)

theorem total_eq (counts : Counts) :
    total counts =
      counts .ok + counts .fail + counts .notSupported + counts .skipped + counts .unknown := by
  simp [total, STATUSES]

/-- The reasons against a pass are all excluded exactly if the section of the target is complete. -/
theorem verdict_pass_iff (s : BackendOpsSummary) :
    s.verdict.pass = true ↔
      ∃ n sec, s.expected = some n ∧ 1 ≤ n ∧ s.targets = [sec] ∧ total s.orphans = 0 ∧
        total sec.counts = n ∧ sec.counts .ok = n := by
  unfold BackendOpsSummary.verdict
  dsimp only
  rw [List.isEmpty_iff, append_eq_nil_iff, append_eq_nil_iff, append_eq_nil_iff]
  cases htargets : s.targets with
  | nil => simp
  | cons sec rest =>
      cases rest with
      | cons other rest => simp
      | nil =>
          cases hexpected : s.expected with
          | none => simp
          | some n =>
              have htotal := total_eq sec.counts
              simp
              omega

/-- The only section of the target is the chapter of the only heading whose name it matches. -/
theorem filter_sections_eq_singleton_iff {target : Target} {ks : List (Header ⊕ Entry)} {sec : Section} :
    ((chapters ks).2.map sectionOf).filter (fun sec => target.test sec.name) = [sec] ↔
      ∃ before h after, ks = before ++ .inl h :: after ∧ target.test h.name = true ∧
        (∀ other, .inl other ∈ before ++ after → target.test other.name = false) ∧
        sec = sectionOf (h, (chapters after).1) := by
  rw [filter_map, map_eq_singleton_iff]
  constructor
  · intro hsingle
    obtain ⟨⟨h, body⟩, hfilter, rfl⟩ := hsingle
    obtain ⟨first, last, hsplit, hfirst, htest, hlast⟩ := filter_eq_cons_iff.mp hfilter
    obtain ⟨before, after, rfl, rfl, rfl, rfl⟩ := eq_append_of_chapters hsplit
    refine ⟨before, h, after, rfl, htest, fun other hmem => Bool.not_eq_true _ ▸ ?_, rfl⟩
    cases mem_append.mp hmem with
    | inl hmem =>
        obtain ⟨body, hmem⟩ := inl_mem_iff.mp hmem
        exact hfirst _ hmem
    | inr hmem =>
        obtain ⟨body, hmem⟩ := inl_mem_iff.mp hmem
        exact filter_eq_nil_iff.mp hlast _ hmem
  · intro hspec
    obtain ⟨before, h, after, rfl, htest, hothers, rfl⟩ := hspec
    refine ⟨(h, (chapters after).1), ?_, rfl⟩
    have hnot (l : List (Header ⊕ Entry)) (hl : ∀ other, .inl other ∈ l → .inl other ∈ before ++ after) :
        ∀ t ∈ (chapters l).2, ¬(target.test t.1.name = true) := by
      intro t ht
      rw [Bool.not_eq_true]
      exact hothers t.1 (hl t.1 (inl_mem_iff.mpr ⟨t.2, ht⟩))
    rw [chapters_append_inl]
    exact filter_eq_cons_iff.mpr ⟨_, _, rfl, hnot before (fun _ hmem => mem_append_left _ hmem), htest,
      filter_eq_nil_iff.mpr (hnot after fun _ hmem => mem_append_right _ hmem)⟩

theorem caseLines_takeWhile (ks : List (Header ⊕ Entry)) :
    caseLines (ks.takeWhile fun k => k.isRight) = statuses (chapters ks).1 := by
  rw [caseLines, filterMap_getRight_takeWhile]

/-- Every case line is in the preamble or in one of the chapters. -/
theorem length_caseLines (ks : List (Header ⊕ Entry)) :
    (caseLines ks).length =
      total (tally (chapters ks).1) + (((chapters ks).2.map sectionOf).map fun sec => total sec.counts).sum := by
  rw [caseLines, filterMap_getRight_chapters, statuses, filterMap_append, length_append, total_tally,
    filterMap_flatMap, length_flatMap, map_map]
  congr 3
  funext t
  exact (total_tally t.2).symm

theorem complete_iff {entries : List Entry} {n : Nat} :
    total (tally entries) = n ∧ tally entries .ok = n ↔
      (statuses entries).length = n ∧ ∀ status ∈ statuses entries, status = .ok := by
  rw [total_tally, and_congr_right_iff]
  intro hlength
  subst hlength
  exact count_eq_length.trans (forall₂_congr fun status _ => eq_comm)

theorem total_tally_eq_zero_iff {entries : List Entry} :
    total (tally entries) = 0 ↔ statuses entries = [] := by
  rw [total_tally, length_eq_zero_iff]

/-- The judge passes a run exactly if as many cases as expected, and at least one, stand in the only section of
the target, all of them OK, and none before the first section. It counts every case line once. -/
theorem verdict_exact (expected : Option Nat) (target : Target) (chunks : List Text) :
    let s := judge expected target chunks
    let ks := (chunks.flatten.linesOf newline).map kind
    (s.verdict.pass = true ↔
      ∃ n, expected = some n ∧ 1 ≤ n ∧ caseLines (ks.takeWhile fun k => k.isRight) = [] ∧
        ∃ before h after, ks = before ++ .inl h :: after ∧ target.test h.name = true ∧
          (∀ other, .inl other ∈ before ++ after → target.test other.name = false) ∧
          (caseLines (after.takeWhile fun k => k.isRight)).length = n ∧
          ∀ status ∈ caseLines (after.takeWhile fun k => k.isRight), status = .ok) ∧
    ∃ (preamble : List Entry) (stretches : List (Header × List Entry)),
      ks = preamble.map .inr ++ stretches.flatMap (fun t => .inl t.1 :: t.2.map .inr) ∧
        s.orphans = tally preamble ∧ s.sections = stretches.map sectionOf ∧
        total s.orphans + (s.sections.map fun sec => total sec.counts).sum = (caseLines ks).length := by
  intro s ks
  obtain ⟨hsections, horphans⟩ := judge_counts expected target chunks
  obtain ⟨hexpected, htarget⟩ := judge_options expected target chunks
  refine ⟨?_, (chapters ks).1, (chapters ks).2, (flatten_chapters ks).symm, horphans, hsections, ?_⟩
  · have htargets : s.targets = ((chapters ks).2.map sectionOf).filter fun sec => target.test sec.name := by
      rw [targets, hsections, htarget]
    rw [verdict_pass_iff, hexpected, htargets, horphans, total_tally_eq_zero_iff, caseLines_takeWhile]
    constructor
    · intro hpass
      obtain ⟨n, sec, hn, hpos, hsingle, horphan, htotal, hok⟩ := hpass
      obtain ⟨before, h, after, hks, htest, hothers, rfl⟩ := filter_sections_eq_singleton_iff.mp hsingle
      refine ⟨n, hn, hpos, horphan, before, h, after, hks, htest, hothers, ?_⟩
      rw [caseLines_takeWhile]
      exact complete_iff.mp ⟨htotal, hok⟩
    · intro hspec
      obtain ⟨n, hn, hpos, horphan, before, h, after, hks, htest, hothers, hcases⟩ := hspec
      rw [caseLines_takeWhile] at hcases
      obtain ⟨htotal, hok⟩ := complete_iff.mpr hcases
      exact ⟨n, sectionOf (h, (chapters after).1), hn, hpos,
        filter_sections_eq_singleton_iff.mpr ⟨before, h, after, hks, htest, hothers, rfl⟩, horphan, htotal, hok⟩
  · rw [length_caseLines, hsections, horphans]

-- A case that the slicing cuts in two.
example : (judge (some 1) .webgpu [text "Backend 1/1: WebGPU\r\n  A(x): O", text "K"]).verdict.pass = true := by
  rw [judge_eq]
  decide

/-- **The judge does not depend on the slicing**: two ways of cutting the same text, flushed once or more. -/
theorem slicing_irrelevant (expected : Option Nat) (target : Target) {chunks chunks' : List Text}
    (htext : chunks.flatten = chunks'.flatten) (n m : Nat) :
    let s := flush^[n + 1] (chunks.foldl feed (new expected target))
    let s' := flush^[m + 1] (chunks'.foldl feed (new expected target))
    s.sections = s'.sections ∧ s.orphans = s'.orphans ∧ s.selfReported = s'.selfReported ∧
      s.verdict = s'.verdict ∧ s.format = s'.format := by
  intro s s'
  have heq : s = s' := by
    show flush^[n + 1] _ = flush^[m + 1] _
    rw [iterate_flush, iterate_flush]
    show judge expected target chunks = judge expected target chunks'
    rw [judge_eq, judge_eq, htext]
  rw [heq]
  exact ⟨rfl, rfl, rfl, rfl, rfl⟩

/-- Cut inside the line break and inside an ANSI sequence. -/
theorem slicing_irrelevant_cut :
    ((flush^[2] ([text "Backend 1/1: WebGPU\r", text "\n  A(x): \x1b[3", text "2mOK\n"].foldl feed
      (new (some 1) .webgpu))).verdict =
    (flush^[1] ([text "Backend 1/1: WebGPU\r\n  A(x): \x1b[32mOK\n"].foldl feed (new (some 1) .webgpu))).verdict) :=
  (slicing_irrelevant (some 1) .webgpu (by decide) 1 0).2.2.2.1

end LlmRuntime.BackendOps

import LlmRuntime.Base.Chapters
import LlmRuntime.Base.Lines
import LlmRuntime.BackendOps.Model

/-!
# What the judge counts

Every line is one of four things, and what a summary holds is a fold over them. The chapters of a text are
its sections: a case line is counted under the heading it stands under, and nowhere else.
-/

namespace LlmRuntime.BackendOps

open Pattern List

structure Header where
  index : Whole
  of : Whole
  name : Text

inductive Entry where
  | selfReported (txt : Text)
  | testCase (status : Status)
  | other

/-- What a line is, a heading before anything else and a self-reported line before a case. -/
def kind (raw : Text) : Header ⊕ Entry :=
  let txt := remove CARRIAGE_RETURN (Pattern.removeAll ANSI raw)
  match exec SECTION_RE txt with
  | some m => .inl ⟨number (m.captures.getD 0 []), number (m.captures.getD 1 []), trim (m.captures.getD 2 [])⟩
  | none =>
    if test SELF_REPORTED_RE txt then .inr (.selfReported (trim txt))
    else
      match exec CASE_RE txt with
      | some m => .inr (.testCase (classifyOutcome (m.captures.getD 2 [])))
      | none => .inr .other

def Entry.status? : Entry → Option Status
  | .testCase status => some status
  | _ => none

/-- The outcomes of the cases, in order. -/
def statuses (entries : List Entry) : List Status := entries.filterMap Entry.status?

def caseLines (lines : List (Header ⊕ Entry)) : List Status := statuses (lines.filterMap Sum.getRight?)

def tally (entries : List Entry) : Counts := fun status => (statuses entries).count status

/-- The section of a heading and what stands under it. -/
def sectionOf (t : Header × List Entry) : Section := ⟨t.1.index, t.1.of, t.1.name, tally t.2⟩

theorem tally_nil : tally [] = emptyCounts := rfl

theorem tally_cons (e : Entry) (entries : List Entry) :
    tally (e :: entries) =
      match e.status? with
      | some status => (tally entries).increment status
      | none => tally entries := by
  funext status
  cases e with
  | testCase other =>
      show (other :: statuses entries).count status = _
      rw [count_cons]
      by_cases h : status = other
      · subst h
        simp [tally, Counts.increment, Entry.status?]
      · simp [tally, Counts.increment, Entry.status?, h, Ne.symm h]
  | selfReported txt => rfl
  | other => rfl

theorem total_count (l : List Status) : total (fun status => l.count status) = l.length := by
  induction l with
  | nil => rfl
  | cons status l ih =>
      rw [length_cons, ← ih]
      cases status <;> simp [total, STATUSES] <;> omega

theorem total_tally (entries : List Entry) : total (tally entries) = (statuses entries).length :=
  total_count _

/-- `sec` with the cases of `entries` counted as well. -/
def Section.adding (sec : Section) (entries : List Entry) : Section :=
  { sec with counts := fun status => tally entries status + sec.counts status }

theorem Section.adding_nil (sec : Section) : sec.adding [] = sec := by
  unfold Section.adding
  simp only [tally_nil, emptyCounts, Nat.zero_add]

theorem sectionOf_nil_adding (h : Header) (entries : List Entry) :
    (sectionOf (h, [])).adding entries = sectionOf (h, entries) := rfl

theorem Section.adding_other (sec : Section) {e : Entry} (he : e.status? = none) (entries : List Entry) :
    sec.adding (e :: entries) = sec.adding entries := by
  unfold Section.adding
  rw [tally_cons, he]

theorem Section.adding_testCase (sec : Section) (status : Status) (entries : List Entry) :
    sec.adding (.testCase status :: entries) =
      ({ sec with counts := sec.counts.increment status } : Section).adding entries := by
  unfold Section.adding
  dsimp only
  congr 1
  funext other
  rw [tally_cons]
  show (tally entries).increment status other + sec.counts other = _
  unfold Counts.increment
  split <;> omega

namespace BackendOpsSummary

variable (s : BackendOpsSummary)

/-- What a line does to the summary. -/
def record : Header ⊕ Entry → BackendOpsSummary
  | .inl h => { s with sections := s.sections ++ [sectionOf (h, [])], current := some s.sections.length }
  | .inr (.selfReported txt) => { s with selfReported := s.selfReported ++ [txt] }
  | .inr (.testCase status) => s.countCase status
  | .inr .other => s

theorem line_eq_record (raw : Text) : s.line raw = s.record (kind raw) := by
  unfold line kind
  dsimp only
  generalize remove CARRIAGE_RETURN (Pattern.removeAll ANSI raw) = txt
  cases exec SECTION_RE txt with
  | some m => simp only [record, sectionOf, tally_nil]
  | none =>
      cases test SELF_REPORTED_RE txt with
      | true => rfl
      | false => cases exec CASE_RE txt <;> rfl

theorem foldl_line (lines : List Text) : lines.foldl line s = (lines.map kind).foldl record s := by
  rw [foldl_map]
  congr 1
  funext s raw
  exact s.line_eq_record raw

theorem countCase_carry (status : Status) (c : Text) :
    ({ s with carry := c } : BackendOpsSummary).countCase status = { s.countCase status with carry := c } := by
  unfold countCase
  dsimp only
  split <;> rfl

/-- A line neither reads nor changes what is carried over to the next chunk. -/
theorem record_carry (k : Header ⊕ Entry) (c : Text) :
    ({ s with carry := c } : BackendOpsSummary).record k = { s.record k with carry := c } := by
  match k with
  | .inl h => rfl
  | .inr (.selfReported txt) => rfl
  | .inr (.testCase status) => exact s.countCase_carry status c
  | .inr .other => rfl

theorem line_carry (raw c : Text) :
    ({ s with carry := c } : BackendOpsSummary).line raw = { s.line raw with carry := c } := by
  rw [line_eq_record, line_eq_record, record_carry]

theorem foldl_line_carry (lines : List Text) (c : Text) :
    lines.foldl line { s with carry := c } = { lines.foldl line s with carry := c } := by
  induction lines generalizing s with
  | nil => rfl
  | cons raw lines ih => rw [foldl_cons, foldl_cons, line_carry, ih]

theorem modify_length_append {α : Type} (l : List α) (a : α) (f : α → α) :
    (l ++ [a]).modify l.length f = l ++ [f a] := by
  induction l with
  | nil => rfl
  | cons b l ih => rw [cons_append, length_cons, modify_succ_cons, ih, cons_append]

variable {s}

/-- The summary while the last of its sections is open. -/
structure Inside (s : BackendOpsSummary) (closed : List Section) (sec : Section) : Prop where
  sections : s.sections = closed ++ [sec]
  current : s.current = some closed.length

theorem inside_record_inl (s : BackendOpsSummary) (h : Header) :
    (s.record (.inl h)).Inside s.sections (sectionOf (h, [])) := ⟨rfl, rfl⟩

theorem Inside.countCase {closed : List Section} {sec : Section} (h : s.Inside closed sec) (status : Status) :
    (s.countCase status).Inside closed { sec with counts := sec.counts.increment status } ∧
      (s.countCase status).orphans = s.orphans := by
  unfold BackendOpsSummary.countCase
  rw [h.current, h.sections]
  exact ⟨⟨modify_length_append closed sec _, rfl⟩, rfl⟩

/-- From inside a section on: it gets the entries up to the next heading, which starts another one. -/
theorem Inside.foldl {closed : List Section} {sec : Section} (h : s.Inside closed sec)
    (ks : List (Header ⊕ Entry)) :
    (ks.foldl record s).sections =
        closed ++ sec.adding (chapters ks).1 :: (chapters ks).2.map sectionOf ∧
      (ks.foldl record s).orphans = s.orphans := by
  induction ks generalizing s closed sec with
  | nil =>
      rw [foldl_nil, h.sections]
      show _ = closed ++ sec.adding [] :: [] ∧ _
      rw [sec.adding_nil]
      exact ⟨rfl, rfl⟩
  | cons k ks ih =>
      rw [foldl_cons]
      match k with
      | .inl next =>
          obtain ⟨hsections, horphans⟩ := ih (inside_record_inl s next)
          rw [hsections, horphans, h.sections, append_assoc, sectionOf_nil_adding]
          show _ = closed ++ sec.adding [] :: _ ∧ _
          rw [sec.adding_nil]
          exact ⟨rfl, rfl⟩
      | .inr (.testCase status) =>
          obtain ⟨hinside, hsame⟩ := h.countCase status
          obtain ⟨hsections, horphans⟩ := ih hinside
          show (ks.foldl record (s.countCase status)).sections =
            closed ++ sec.adding (.testCase status :: (chapters ks).1) :: _ ∧ _
          rw [sec.adding_testCase]
          exact ⟨hsections, horphans.trans hsame⟩
      | .inr (.selfReported txt) =>
          show _ = closed ++ sec.adding (.selfReported txt :: (chapters ks).1) :: _ ∧ _
          rw [sec.adding_other rfl]
          exact ih (s := s.record (.inr (.selfReported txt))) ⟨h.sections, h.current⟩
      | .inr .other =>
          show _ = closed ++ sec.adding (.other :: (chapters ks).1) :: _ ∧ _
          rw [sec.adding_other rfl]
          exact ih h

/-- Before any heading: the entries up to the first one are orphans. -/
theorem foldl_record (hsections : s.sections = []) (hcurrent : s.current = none)
    (ks : List (Header ⊕ Entry)) :
    (ks.foldl record s).sections = (chapters ks).2.map sectionOf ∧
      ∀ status, (ks.foldl record s).orphans status = tally (chapters ks).1 status + s.orphans status := by
  induction ks generalizing s with
  | nil => exact ⟨hsections, fun status => (Nat.zero_add _).symm⟩
  | cons k ks ih =>
      rw [foldl_cons]
      match k with
      | .inl h =>
          obtain ⟨hs, ho⟩ := (inside_record_inl s h).foldl ks
          rw [hs, ho, hsections, sectionOf_nil_adding]
          exact ⟨rfl, fun status => (Nat.zero_add _).symm⟩
      | .inr (.testCase status) =>
          have hcount : s.record (.inr (.testCase status)) = { s with orphans := s.orphans.increment status } := by
            show s.countCase status = _
            unfold BackendOpsSummary.countCase
            rw [hcurrent]
          obtain ⟨hs, ho⟩ := ih (s := { s with orphans := s.orphans.increment status }) hsections hcurrent
          rw [hcount]
          refine ⟨hs, fun other => (ho other).trans ?_⟩
          show _ = tally (.testCase status :: (chapters ks).1) other + _
          rw [tally_cons]
          show _ + s.orphans.increment status other = (tally (chapters ks).1).increment status other + _
          unfold Counts.increment
          split <;> omega
      | .inr (.selfReported txt) => exact ih (s := s.record (.inr (.selfReported txt))) hsections hcurrent
      | .inr .other => exact ih hsections hcurrent

end BackendOpsSummary

end LlmRuntime.BackendOps

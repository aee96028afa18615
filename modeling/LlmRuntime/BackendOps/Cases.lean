import LlmRuntime.BackendOps.Counting

/-!
# What a case line is taken for

`CASE_RE` is not anchored and may start anywhere in a line. Wherever it starts, its parameters reach to the
last `"): "` that the line allows, so that the outcome it captures is the end of the line.
-/

namespace LlmRuntime.BackendOps

open Pattern

/-- `"): "`, and the rest of `CASE_RE`. -/
def afterParams : List (Item UInt16) := literal "): " ++ [.capture 1 isDot, .finish]

theorem CASE_RE_eq :
    CASE_RE = .capture 1 (fun c => !isSpace c) :: (word (text "(") ++ .capture 0 isDot :: afterParams) := rfl

variable {before : Option UInt16} {m : Match UInt16} {s line pre op params outcome : Text}

/-- What follows the parameters is the outcome, up to the end of the line. -/
theorem fits_afterParams (h : fits afterParams before s = some m) :
    ∃ o, text "): " ++ o = s ∧ o ≠ [] ∧ (∀ c ∈ o, isDot c = true) ∧ m.captures = [o] := by
  obtain ⟨rest, heq, hrest⟩ := fits_word (w := text "): ") h
  obtain ⟨o, tail, m', hsplit, hleast, hdot, hfinish, rfl, -⟩ := fits_capture hrest
  obtain ⟨rfl, rfl⟩ := fits_finish.mp hfinish
  rw [List.append_nil] at hsplit
  rw [hsplit] at hleast hdot ⊢
  exact ⟨rest, heq, List.length_pos_iff.mp hleast, hdot, rfl⟩

theorem isSome_afterParams (houtcome : outcome ≠ []) (hdot : ∀ c ∈ outcome, isDot c = true) :
    (fits afterParams before (text "): " ++ outcome)).isSome := by
  show (fits (word (text "): ") ++ [.capture 1 isDot, .finish]) before _).isSome = true
  rw [fits_word_append]
  have hfits : (fits [.capture 1 isDot, .finish] ((text "): ").getLast?.or before) (outcome ++ [])).isSome :=
    isSome_fits_capture (List.length_pos_iff.mpr houtcome) hdot rfl
  rwa [List.append_nil] at hfits

/-- A case line is a match, wherever the op starts. -/
theorem isSome_CASE_RE (hop : op ≠ []) (hspace : ∀ c ∈ op, isSpace c = false)
    (hparams : ∀ c ∈ params, isDot c = true) (houtcome : outcome ≠ []) (hdot : ∀ c ∈ outcome, isDot c = true) :
    (exec CASE_RE (pre ++ (op ++ (text "(" ++ (params ++ (text "): " ++ outcome)))))).isSome := by
  apply isSome_exec
  intro before
  rw [CASE_RE_eq]
  apply isSome_fits_capture (List.length_pos_iff.mpr hop) (fun c hc => by rw [hspace c hc]; rfl)
  rw [fits_word_append]
  exact isSome_fits_capture (Nat.zero_le _) hparams (isSome_afterParams houtcome hdot)

theorem text_separator : text "): " = [41, 58, 32] := by decide

/-- Two separators in a row do not overlap. -/
theorem eq_or_of_separator {o o' a : Text} (h : text "): " ++ o = a ++ (text "): " ++ o')) :
    o = o' ∨ ∃ y, o = y ++ (text "): " ++ o') := by
  rw [text_separator] at h ⊢
  match a with
  | [] => exact .inl (by simpa using h)
  | [_] => simp at h
  | [_, _] => simp at h
  | x :: y :: z :: a =>
      simp only [List.cons_append, List.nil_append, List.cons.injEq] at h
      exact .inr ⟨a, by simpa using h.2.2.2⟩

/-- **The outcome a case line is counted with** is what follows its last `"): "`. -/
theorem outcome_of_exec {front : Text} (houtcome : outcome ≠ []) (hdot : ∀ c ∈ outcome, isDot c = true)
    (hlast : ¬ text "): " <:+: outcome) (h : exec CASE_RE (front ++ (text "): " ++ outcome)) = some m) :
    m.captures.getD 2 [] = outcome := by
  obtain ⟨u, v, huv, hfits⟩ := exec_eq_some h
  rw [CASE_RE_eq] at hfits
  obtain ⟨op, rest, m₁, hv, -, -, hm₁, rfl, -⟩ := fits_capture hfits
  obtain ⟨rest', hrest, hm₁⟩ := fits_word hm₁
  obtain ⟨params, tail, m₂, hsplit, -, hparams, hm₂, rfl, hlonger⟩ := fits_capture hm₁
  obtain ⟨o, htail, -, ho, hcaptures⟩ := fits_afterParams hm₂
  show (op :: params :: m₂.captures).getD 2 [] = outcome
  rw [hcaptures]
  show o = outcome
  have hline : (u ++ (op ++ (text "(" ++ params))) ++ (text "): " ++ o) =
      front ++ (text "): " ++ outcome) := by
    rw [← huv, ← hv, ← hrest, ← hsplit, ← htail]
    simp only [List.append_assoc]
  rcases List.append_eq_append_iff.mp hline with ⟨a, -, hsuffix⟩ | ⟨a, -, hsuffix⟩
  · rcases eq_or_of_separator hsuffix with heq | ⟨y, hy⟩
    · exact heq
    · -- the parameters could have gone on to the last separator
      have hall : ∀ c ∈ params ++ text "): " ++ y, isDot c = true := by
        intro c hc
        simp only [List.mem_append] at hc
        rcases hc with (hc | hc) | hc
        · exact hparams c hc
        · revert c
          rw [text_separator]
          exact List.all_eq_true.mp (by decide)
        · exact ho c (by rw [hy]; exact List.mem_append_left _ hc)
      have hnone := hlonger (params ++ text "): " ++ y) (text "): " ++ outcome)
        (by rw [← hsplit, ← htail, hy]; simp only [List.append_assoc]) hall
        (by simp only [List.length_append, text_separator, List.length_cons]; omega)
      exact absurd (isSome_afterParams houtcome hdot) (by rw [hnone]; exact Bool.false_ne_true)
  · rcases eq_or_of_separator hsuffix with heq | ⟨y, hy⟩
    · exact heq.symm
    · exact absurd ⟨y, o, by rw [hy]; simp only [List.append_assoc]⟩ hlast

/-- No part of `SELF_REPORTED_RE` takes a parenthesis. -/
theorem not_selfReported (h : 40 ∈ s) : test SELF_REPORTED_RE s = false := by
  rw [test, Option.isSome_eq_false_iff, Option.isNone_iff_eq_none]
  cases hexec : exec SELF_REPORTED_RE s with
  | none => rfl
  | some m =>
      obtain ⟨u, v, huv, hfits⟩ := exec_eq_some hexec
      have hstart : u = [] := by
        unfold SELF_REPORTED_RE at hfits
        simp only [List.cons_append, fits, Option.ite_none_right_eq_some] at hfits
        exact List.getLast?_eq_none_iff.mp (Option.isNone_iff_eq_none.mp hfits.1)
      have hrest : m.rest = [] := by
        unfold SELF_REPORTED_RE at hfits
        exact rest_of_finish hfits
      obtain ⟨taken, htaken, htakes⟩ := taken_of_fits hfits
      rw [hrest, List.append_nil] at htaken
      rw [hstart, List.nil_append] at huv
      rw [htaken, huv] at htakes
      obtain ⟨item, hitem, htake⟩ := htakes 40 h
      have hnone : ∀ item ∈ SELF_REPORTED_RE, ¬ item.Takes 40 := by decide
      exact absurd htake (hnone item hitem)

/-- A line that ends with an outcome has no carriage return to remove. -/
theorem remove_carriageReturn (houtcome : outcome ≠ []) (hdot : ∀ c ∈ outcome, isDot c = true) (front : Text) :
    remove CARRIAGE_RETURN (front ++ outcome) = front ++ outcome := by
  apply remove_of_test
  rw [test, Option.isSome_eq_false_iff, Option.isNone_iff_eq_none]
  cases hexec : exec CARRIAGE_RETURN (front ++ outcome) with
  | none => rfl
  | some m =>
      obtain ⟨u, v, huv, hfits⟩ := exec_eq_some hexec
      obtain ⟨rest, rfl, hfinish⟩ := fits_word (w := [13]) hfits
      obtain ⟨rfl, -⟩ := fits_finish.mp hfinish
      have hlast := congrArg List.getLast? huv
      rw [List.append_nil, List.getLast?_concat, List.getLast?_append_of_ne_nil _ houtcome] at hlast
      have hreturn := hdot 13 (List.mem_of_getLast? hlast.symm)
      exact absurd hreturn (by decide)

/-- **A diagnostic prefix never hides a case**: whatever comes before the op, the line counts as one case, with
the outcome it ends with. -/
theorem case_counted (s : BackendOpsSummary)
    (hline : line = pre ++ op ++ text "(" ++ params ++ text "): " ++ outcome) (hop : op ≠ [])
    (hspace : ∀ c ∈ op, isSpace c = false) (hparams : ∀ c ∈ params, isDot c = true) (houtcome : outcome ≠ [])
    (hdot : ∀ c ∈ outcome, isDot c = true) (hlast : ¬ text "): " <:+: outcome)
    (hansi : test ANSI line = false) (hheader : exec SECTION_RE line = none) :
    s.line line = s.countCase (classifyOutcome outcome) := by
  have hplain : remove CARRIAGE_RETURN (removeAll ANSI line) = line := by
    rw [removeAll_of_test hansi, hline]
    exact remove_carriageReturn houtcome hdot _
  have hself : test SELF_REPORTED_RE line = false := by
    apply not_selfReported
    rw [hline]
    simp only [List.mem_append]
    exact .inl (.inl (.inl (.inr (by decide))))
  have hcase : (exec CASE_RE line).isSome := by
    rw [hline]
    simpa only [List.append_assoc] using isSome_CASE_RE hop hspace hparams houtcome hdot
  obtain ⟨m, hm⟩ := Option.isSome_iff_exists.mp hcase
  have hcaptured : m.captures.getD 2 [] = outcome := by
    rw [hline, List.append_assoc _ (text "): ") outcome] at hm
    exact outcome_of_exec houtcome hdot hlast hm
  unfold BackendOpsSummary.line
  dsimp only
  rw [hplain, hheader]
  dsimp only
  rw [hself, if_neg Bool.false_ne_true, hm]
  dsimp only
  rw [hcaptured]

open BackendOpsSummary in
/-- A fragment of the prefix says `OK`, and a carriage return stands in it. -/
theorem case_counted_prefixed :
    (new none .webgpu).line (text "[A] inf (x): OK\r B(y): 1  Q(r): FAIL") =
      (new none .webgpu).countCase (classifyOutcome (text "FAIL")) := by
  have hspace : ∀ c ∈ text "Q", isSpace c = false := by
    have hall : (text "Q").all (fun c => !isSpace c) = true := by decide
    simpa using hall
  have hline : text "[A] inf (x): OK\r B(y): 1  Q(r): FAIL" =
      text "[A] inf (x): OK\r B(y): 1  " ++ text "Q" ++ text "(" ++ text "r" ++ text "): " ++ text "FAIL" := by
    decide
  exact case_counted (new none .webgpu) hline (by decide) hspace (List.all_eq_true.mp (by decide)) (by decide)
    (List.all_eq_true.mp (by decide)) (by decide) (by decide) (by decide)

end LlmRuntime.BackendOps

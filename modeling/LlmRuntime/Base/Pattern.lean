import Mathlib.Data.List.Basic

/-!
# Patterns of a backtracking matcher

A pattern is a row of items: single characters, greedy runs of a class, captured or not, and assertions.
A run tries its longest stretch first and gives back one character at a time, and a pattern is looked for
at every place of a text from the left.
-/

namespace Pattern

inductive Item (α : Type*) where
  | one (p : α → Bool)
  | run (least : Nat) (p : α → Bool)
  | capture (least : Nat) (p : α → Bool)
  | start
  | finish
  | boundary (word : α → Bool)

/-- The stretches captured, in order, and what comes after the match. -/
structure Match (α : Type*) where
  captures : List (List α)
  rest : List α
  deriving DecidableEq

variable {α : Type*}

/-- The ways of taking characters of `p` from the front, the longest first. -/
def stretches (p : α → Bool) : List α → List (List α × List α)
  | [] => [([], [])]
  | c :: s =>
    if p c then (stretches p s).map (fun t => (c :: t.1, t.2)) ++ [([], c :: s)] else [([], c :: s)]

/-- The match that starts here, `before` being the character to the left. -/
def fits : List (Item α) → Option α → List α → Option (Match α)
  | [], _, s => some ⟨[], s⟩
  | .one _ :: _, _, [] => none
  | .one p :: items, _, c :: s => if p c then fits items (some c) s else none
  | .run least p :: items, before, s =>
    (stretches p s).findSome? fun t =>
      if least ≤ t.1.length then fits items (t.1.getLast?.or before) t.2 else none
  | .capture least p :: items, before, s =>
    (stretches p s).findSome? fun t =>
      if least ≤ t.1.length then
        (fits items (t.1.getLast?.or before) t.2).map fun m => { m with captures := t.1 :: m.captures }
      else none
  | .start :: items, before, s => if before.isNone then fits items before s else none
  | .finish :: items, before, s => if s.isEmpty then fits items before s else none
  | .boundary word :: items, before, s =>
    if before.any word != s.head?.any word then fits items before s else none

/-- The leftmost match, from here on. -/
def execFrom (items : List (Item α)) : Option α → List α → Option (Match α)
  | before, [] => fits items before []
  | before, c :: s => (fits items before (c :: s)).or (execFrom items (some c) s)

def exec (items : List (Item α)) (s : List α) : Option (Match α) := execFrom items none s

def test (items : List (Item α)) (s : List α) : Bool := (exec items s).isSome

/-- The text without its leftmost match. -/
def removeFrom (items : List (Item α)) : Option α → List α → List α
  | _, [] => []
  | before, c :: s =>
    match fits items before (c :: s) with
    | some m => m.rest
    | none => c :: removeFrom items (some c) s

def remove (items : List (Item α)) (s : List α) : List α := removeFrom items none s

/-- The text without any match, `skip` characters of one still to come. An empty match removes nothing. -/
def removeAllFrom (items : List (Item α)) : Nat → Option α → List α → List α
  | _, _, [] => []
  | skip + 1, _, c :: s => removeAllFrom items skip (some c) s
  | 0, before, c :: s =>
    match fits items before (c :: s) with
    | some m =>
      if m.rest.length ≤ s.length then removeAllFrom items (s.length - m.rest.length) (some c) s
      else c :: removeAllFrom items 0 (some c) s
    | none => c :: removeAllFrom items 0 (some c) s

def removeAll (items : List (Item α)) (s : List α) : List α := removeAllFrom items 0 none s

/-! ### What a run takes -/

variable {p : α → Bool} {items : List (Item α)} {s : List α} {before : Option α} {m : Match α}

theorem mem_stretches_iff {t : List α × List α} :
    t ∈ stretches p s ↔ t.1 ++ t.2 = s ∧ ∀ c ∈ t.1, p c = true := by
  obtain ⟨taken, rest⟩ := t
  induction s generalizing taken with
  | nil => simp only [stretches, List.mem_singleton, Prod.mk.injEq, List.append_eq_nil_iff]; aesop
  | cons c s ih =>
      unfold stretches
      cases taken with
      | nil => split <;> simp
      | cons a taken =>
          by_cases hc : p c = true
          · simp [hc, ih]
            aesop
          · simp [hc]
            aesop

/-- The longest stretch is tried first. -/
theorem pairwise_stretches (p : α → Bool) (s : List α) :
    (stretches p s).Pairwise fun t t' => t'.1.length < t.1.length := by
  induction s with
  | nil => exact List.pairwise_singleton _ _
  | cons c s ih =>
      unfold stretches
      split
      · rw [List.pairwise_append, List.pairwise_map]
        refine ⟨ih.imp fun h => Nat.succ_lt_succ h, List.pairwise_singleton _ _, ?_⟩
        intro t ht t' ht'
        obtain ⟨u, -, rfl⟩ := List.mem_map.mp ht
        rw [List.mem_singleton.mp ht']
        exact Nat.succ_pos _
      · exact List.pairwise_singleton _ _

/-- The stretch a run settles on: what comes after it fits, and nothing fits after a longer one. -/
theorem findSome_stretches {β : Type*} {f : List α × List α → Option β} {b : β}
    (h : (stretches p s).findSome? f = some b) :
    ∃ t, t.1 ++ t.2 = s ∧ (∀ c ∈ t.1, p c = true) ∧ f t = some b ∧
      ∀ t' : List α × List α, t'.1 ++ t'.2 = s → (∀ c ∈ t'.1, p c = true) → t.1.length < t'.1.length →
        f t' = none := by
  obtain ⟨longer, t, shorter, hsplit, ht, hnone⟩ := List.findSome?_eq_some_iff.mp h
  have hmem : t ∈ stretches p s := by simp [hsplit]
  obtain ⟨heq, hall⟩ := mem_stretches_iff.mp hmem
  refine ⟨t, heq, hall, ht, fun t' heq' hall' hlt => ?_⟩
  have hmem' : t' ∈ stretches p s := mem_stretches_iff.mpr ⟨heq', hall'⟩
  have horder := pairwise_stretches p s
  rw [hsplit, List.pairwise_append, List.pairwise_cons] at horder
  rw [hsplit, List.mem_append, List.mem_cons] at hmem'
  obtain hlonger | rfl | hshorter := hmem'
  · exact hnone t' hlonger
  · exact absurd hlt (Nat.lt_irrefl _)
  · have hle := horder.2.1.1 t' hshorter
    omega

/-- A run finds a stretch if there is one that what comes after it fits. -/
theorem isSome_findSome_stretches {β : Type*} {f : List α × List α → Option β} (t : List α × List α)
    (heq : t.1 ++ t.2 = s) (hall : ∀ c ∈ t.1, p c = true) (ht : (f t).isSome) :
    ((stretches p s).findSome? f).isSome :=
  List.findSome?_isSome_iff.mpr ⟨t, mem_stretches_iff.mpr ⟨heq, hall⟩, ht⟩

theorem fits_capture {least : Nat} (h : fits (.capture least p :: items) before s = some m) :
    ∃ t rest m', t ++ rest = s ∧ least ≤ t.length ∧ (∀ c ∈ t, p c = true) ∧
      fits items (t.getLast?.or before) rest = some m' ∧ m = ⟨t :: m'.captures, m'.rest⟩ ∧
      ∀ t' rest', t' ++ rest' = s → (∀ c ∈ t', p c = true) → t.length < t'.length →
        fits items (t'.getLast?.or before) rest' = none := by
  obtain ⟨⟨t, rest⟩, heq, hall, ht, hlonger⟩ := findSome_stretches h
  dsimp only at ht
  split at ht
  · rename_i hleast
    obtain ⟨m', hm', rfl⟩ := Option.map_eq_some_iff.mp ht
    refine ⟨t, rest, m', heq, hleast, hall, hm', rfl, fun t' rest' heq' hall' hlt => ?_⟩
    have hnone := hlonger (t', rest') heq' hall' hlt
    dsimp only at hnone
    rw [if_pos (Nat.le_of_lt (Nat.lt_of_le_of_lt hleast hlt))] at hnone
    exact Option.map_eq_none_iff.mp hnone
  · cases ht

theorem isSome_fits_capture {least : Nat} {t rest : List α} (hleast : least ≤ t.length)
    (hall : ∀ c ∈ t, p c = true) (h : (fits items (t.getLast?.or before) rest).isSome) :
    (fits (.capture least p :: items) before (t ++ rest)).isSome := by
  apply isSome_findSome_stretches (t, rest) rfl hall
  dsimp only
  rw [if_pos hleast, Option.isSome_map]
  exact h

theorem fits_finish : fits [.finish] before s = some m ↔ s = [] ∧ m = ⟨[], []⟩ := by
  cases s <;> simp [fits, eq_comm]

/-- The characters an item takes. -/
def Item.Takes : Item α → α → Prop
  | .one p, c | .run _ p, c | .capture _ p, c => p c = true
  | _, _ => False

instance (item : Item α) (c : α) : Decidable (item.Takes c) :=
  match item with
  | .one p | .run _ p | .capture _ p => inferInstanceAs (Decidable (p c = true))
  | .start | .finish | .boundary _ => inferInstanceAs (Decidable False)

/-- A match takes a stretch from the front, of characters that its items take. -/
theorem taken_of_fits (h : fits items before s = some m) :
    ∃ taken, taken ++ m.rest = s ∧ ∀ c ∈ taken, ∃ item ∈ items, item.Takes c := by
  induction items generalizing before s m with
  | nil =>
      cases h
      exact ⟨[], rfl, fun c hc => absurd hc (List.not_mem_nil)⟩
  | cons item items ih =>
      have hrest {before' : Option α} {t rest : List α} {m' : Match α} (hm' : fits items before' rest = some m')
          (heq : t ++ rest = s) (hmrest : m.rest = m'.rest) (ht : ∀ c ∈ t, item.Takes c) :
          ∃ taken, taken ++ m.rest = s ∧ ∀ c ∈ taken, ∃ item' ∈ item :: items, item'.Takes c := by
        obtain ⟨taken, htaken, htakes⟩ := ih hm'
        refine ⟨t ++ taken, by rw [List.append_assoc, hmrest, htaken, heq], fun c hc => ?_⟩
        cases List.mem_append.mp hc with
        | inl hc => exact ⟨item, List.mem_cons_self, ht c hc⟩
        | inr hc =>
            obtain ⟨item', hitem', htakes'⟩ := htakes c hc
            exact ⟨item', List.mem_cons_of_mem _ hitem', htakes'⟩
      have hnone : ∀ c ∈ ([] : List α), item.Takes c := fun c hc => absurd hc List.not_mem_nil
      cases item with
      | one p =>
          cases s with
          | nil => cases h
          | cons c s =>
              rw [fits, Option.ite_none_right_eq_some] at h
              refine hrest (t := [c]) h.2 rfl rfl fun a ha => ?_
              rw [List.mem_singleton.mp ha]
              exact h.1
      | run least p =>
          obtain ⟨⟨t, rest⟩, heq, hall, ht, -⟩ := findSome_stretches h
          dsimp only at ht
          rw [Option.ite_none_right_eq_some] at ht
          exact hrest ht.2 heq rfl hall
      | capture least p =>
          obtain ⟨t, rest, m', heq, -, hall, hm', rfl, -⟩ := fits_capture h
          exact hrest hm' heq rfl hall
      | start | finish | boundary =>
          rw [fits, Option.ite_none_right_eq_some] at h
          exact hrest (t := []) h.2 rfl rfl hnone

/-- A pattern that ends with `$` leaves nothing. -/
theorem rest_of_finish (h : fits (items ++ [.finish]) before s = some m) : m.rest = [] := by
  induction items generalizing before s m with
  | nil =>
      obtain ⟨-, rfl⟩ := fits_finish.mp h
      rfl
  | cons item items ih =>
      cases item with
      | one p =>
          cases s with
          | nil => cases h
          | cons c s =>
              rw [List.cons_append, fits, Option.ite_none_right_eq_some] at h
              exact ih h.2
      | run least p =>
          obtain ⟨t, -, -, ht, -⟩ := findSome_stretches h
          rw [Option.ite_none_right_eq_some] at ht
          exact ih ht.2
      | capture least p =>
          obtain ⟨t, rest, m', -, -, -, hm', rfl, -⟩ := fits_capture h
          show m'.rest = []
          exact ih hm'
      | start | finish | boundary =>
          rw [List.cons_append, fits, Option.ite_none_right_eq_some] at h
          exact ih h.2

/-- A match stands where the text is cut, and the pattern sees the character to the left. -/
theorem exec_eq_some (h : exec items s = some m) : ∃ u v, u ++ v = s ∧ fits items u.getLast? v = some m := by
  have hfrom : ∀ (v u : List α), execFrom items u.getLast? v = some m →
      ∃ u' v', u' ++ v' = u ++ v ∧ fits items u'.getLast? v' = some m := by
    intro v
    induction v with
    | nil => exact fun u hu => ⟨u, [], rfl, hu⟩
    | cons c v ih =>
        intro u hu
        rw [execFrom, Option.or_eq_some_iff] at hu
        obtain hfits | ⟨-, hlater⟩ := hu
        · exact ⟨u, c :: v, rfl, hfits⟩
        · obtain ⟨u', v', heq, hfits⟩ := ih (u ++ [c]) (by rwa [List.getLast?_concat])
          exact ⟨u', v', by rw [heq, List.append_assoc]; rfl, hfits⟩
  exact hfrom s [] h

/-- A pattern that fits somewhere is found. -/
theorem isSome_exec (u v : List α) (h : ∀ before, (fits items before v).isSome) :
    (exec items (u ++ v)).isSome := by
  have hfrom : ∀ before, (execFrom items before (u ++ v)).isSome := by
    induction u with
    | nil =>
        intro before
        cases v with
        | nil => exact h before
        | cons c v =>
            show ((fits items before (c :: v)).or _).isSome = true
            rw [Option.isSome_or, h before, Bool.true_or]
    | cons c u ih =>
        intro before
        show ((fits items before (c :: (u ++ v))).or (execFrom items (some c) (u ++ v))).isSome = true
        rw [Option.isSome_or, ih, Bool.or_true]
  exact hfrom none

theorem execFrom_of_test (h : test items s = false) : execFrom items none s = none :=
  Option.isNone_iff_eq_none.mp (Option.isSome_eq_false_iff.mp h)

theorem remove_of_test (h : test items s = false) : remove items s = s := by
  have hfrom (s : List α) : ∀ before, execFrom items before s = none → removeFrom items before s = s := by
    induction s with
    | nil => exact fun before _ => rfl
    | cons c s ih =>
        intro before hnone
        rw [execFrom, Option.or_eq_none_iff] at hnone
        rw [removeFrom, hnone.1]
        exact congrArg (c :: ·) (ih (some c) hnone.2)
  exact hfrom s none (execFrom_of_test h)

theorem removeAll_of_test (h : test items s = false) : removeAll items s = s := by
  have hfrom (s : List α) : ∀ before, execFrom items before s = none →
      removeAllFrom items 0 before s = s := by
    induction s with
    | nil => exact fun before _ => rfl
    | cons c s ih =>
        intro before hnone
        rw [execFrom, Option.or_eq_none_iff] at hnone
        rw [removeAllFrom, hnone.1]
        exact congrArg (c :: ·) (ih (some c) hnone.2)
  exact hfrom s none (execFrom_of_test h)

/-! ### Literals -/

/-- The pattern of a text that is taken as it stands. -/
def word [DecidableEq α] (w : List α) : List (Item α) := w.map fun c => .one (· = c)

variable [DecidableEq α] {w : List α}

theorem fits_word (h : fits (word w ++ items) before s = some m) :
    ∃ rest, w ++ rest = s ∧ fits items (w.getLast?.or before) rest = some m := by
  induction w generalizing before s with
  | nil => exact ⟨s, rfl, by rwa [List.getLast?_nil, Option.none_or]⟩
  | cons a w ih =>
      cases s with
      | nil => cases h
      | cons c s =>
          rw [word, List.map_cons, List.cons_append, fits, Option.ite_none_right_eq_some] at h
          obtain ⟨rest, rfl, hfits⟩ := ih h.2
          have hc : c = a := of_decide_eq_true h.1
          refine ⟨rest, by rw [hc, List.cons_append], ?_⟩
          rw [hc] at hfits
          cases hw : w.getLast? <;> simp_all [List.getLast?_cons]

theorem fits_word_append (rest : List α) :
    fits (word w ++ items) before (w ++ rest) = fits items (w.getLast?.or before) rest := by
  induction w generalizing before with
  | nil => rw [List.getLast?_nil, Option.none_or]; rfl
  | cons a w ih =>
      rw [word, List.map_cons, List.cons_append, List.cons_append, fits, if_pos (decide_eq_true rfl)]
      refine ih.trans ?_
      rw [List.getLast?_cons]
      cases w.getLast? <;> rfl

/-! ### Runs that stop by themselves -/

omit [DecidableEq α] in
theorem stretches_append {t rest : List α} (hall : ∀ c ∈ t, p c = true)
    (hstop : ∀ c ∈ rest.head?, p c = false) : ∃ shorter, stretches p (t ++ rest) = (t, rest) :: shorter := by
  induction t with
  | nil =>
      cases rest with
      | nil => exact ⟨[], rfl⟩
      | cons c rest =>
          refine ⟨[], ?_⟩
          rw [List.nil_append, stretches, hstop c rfl, if_neg Bool.false_ne_true]
  | cons c t ih =>
      obtain ⟨shorter, hshorter⟩ := ih fun d hd => hall d (List.mem_cons_of_mem _ hd)
      rw [List.cons_append, stretches, hall c List.mem_cons_self, if_pos rfl, hshorter]
      exact ⟨_, rfl⟩

omit [DecidableEq α] in
/-- A run takes all there is of its class if what comes after it fits there. -/
theorem fits_run_append {least : Nat} {t rest : List α} (hleast : least ≤ t.length)
    (hall : ∀ c ∈ t, p c = true) (hstop : ∀ c ∈ rest.head?, p c = false)
    (h : fits items (t.getLast?.or before) rest = some m) :
    fits (.run least p :: items) before (t ++ rest) = some m := by
  obtain ⟨shorter, hshorter⟩ := stretches_append hall hstop
  rw [fits, hshorter, List.findSome?_cons, if_pos hleast, h]

omit [DecidableEq α] in
theorem fits_capture_append {least : Nat} {t rest : List α} (hleast : least ≤ t.length)
    (hall : ∀ c ∈ t, p c = true) (hstop : ∀ c ∈ rest.head?, p c = false)
    (h : fits items (t.getLast?.or before) rest = some m) :
    fits (.capture least p :: items) before (t ++ rest) = some ⟨t :: m.captures, m.rest⟩ := by
  obtain ⟨shorter, hshorter⟩ := stretches_append hall hstop
  rw [fits, hshorter, List.findSome?_cons, if_pos hleast, h]
  rfl

omit [DecidableEq α] in
theorem fits_run {least : Nat} (h : fits (.run least p :: items) before s = some m) :
    ∃ t rest, t ++ rest = s ∧ least ≤ t.length ∧ (∀ c ∈ t, p c = true) ∧
      fits items (t.getLast?.or before) rest = some m := by
  obtain ⟨⟨t, rest⟩, heq, hall, ht, -⟩ := findSome_stretches h
  dsimp only at ht
  rw [Option.ite_none_right_eq_some] at ht
  exact ⟨t, rest, heq, ht.1, hall, ht.2⟩

omit [DecidableEq α] in
/-- A pattern that begins with `^` is looked for at the start only. -/
theorem exec_start (items : List (Item α)) (s : List α) :
    exec (.start :: items) s = fits items none s := by
  have hlater : ∀ (s : List α) (c : α), execFrom (.start :: items) (some c) s = none := by
    intro s
    induction s with
    | nil => exact fun c => rfl
    | cons d s ih =>
        intro c
        rw [execFrom, ih]
        rfl
  cases s with
  | nil => rfl
  | cons c s =>
      rw [exec, execFrom, hlater, Option.or_none]
      rfl

/-! ### Literals up to a reading -/

/-- The pattern of a text of which only the reading counts, as under the flag for upper and lower case. -/
def wordUpTo {β : Type*} [DecidableEq β] (reading : α → β) (w : List α) : List (Item α) :=
  w.map fun c => .one (reading · = reading c)

omit [DecidableEq α] in
theorem fits_wordUpTo {β : Type*} [DecidableEq β] {reading : α → β}
    (h : fits (wordUpTo reading w ++ items) before s = some m) :
    ∃ w' rest, w' ++ rest = s ∧ w'.map reading = w.map reading ∧
      fits items (w'.getLast?.or before) rest = some m := by
  induction w generalizing before s with
  | nil => exact ⟨[], s, rfl, rfl, by rwa [List.getLast?_nil, Option.none_or]⟩
  | cons a w ih =>
      cases s with
      | nil => cases h
      | cons c s =>
          rw [wordUpTo, List.map_cons, List.cons_append, fits, Option.ite_none_right_eq_some] at h
          obtain ⟨w', rest, rfl, hw', hfits⟩ := ih h.2
          refine ⟨c :: w', rest, rfl, ?_, ?_⟩
          · rw [List.map_cons, List.map_cons, hw', of_decide_eq_true h.1]
          · cases hlast : w'.getLast? <;> simp_all [List.getLast?_cons]

omit [DecidableEq α] in
theorem fits_wordUpTo_append {β : Type*} [DecidableEq β] {reading : α → β} {w' : List α}
    (hw' : w'.map reading = w.map reading) (rest : List α) :
    fits (wordUpTo reading w ++ items) before (w' ++ rest) = fits items (w'.getLast?.or before) rest := by
  induction w generalizing before w' with
  | nil =>
      rw [List.map_nil, List.map_eq_nil_iff] at hw'
      rw [hw', List.getLast?_nil, Option.none_or]
      rfl
  | cons a w ih =>
      cases w' with
      | nil => cases hw'
      | cons c w' =>
          obtain ⟨hc, hw'⟩ := List.cons.inj hw'
          rw [wordUpTo, List.map_cons, List.cons_append, List.cons_append, fits, if_pos (decide_eq_true hc)]
          refine (ih hw').trans ?_
          rw [List.getLast?_cons]
          cases w'.getLast? <;> rfl

end Pattern

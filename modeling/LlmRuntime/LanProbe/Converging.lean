import LlmRuntime.Base.Register
import LlmRuntime.LanProbe.Model

/-!
# Snapshots in any order

Whatever the order in which the requests settle, `stats` is the digest of the latest, and each candidate
pair has been summed up over all digests. The one exception are pairs whose id every object answers to:
`pairsEverObserved` is no `Map`, and `mergeObserved` trips over such an id and leaves the rest of the
digest out.
-/

namespace LlmRuntime.LanProbe

open Transition

variable {κ : Type}

/-- The digests that requests have settled with, in the order in which they did. -/
def digests (es : List (Event κ)) : List (Nat × Digest κ) :=
  es.filterMap fun
    | .settle seq (.ok digest) _ _ => some (seq, digest)
    | _ => none

/-- The pair occurs in the digest. -/
def Digest.Shows (digest : Digest κ) (id : String) : Prop := ∃ pair ∈ digest.pairs, pair.id = id

/-- The numbers of the digests in which the pair occurs. -/
def seenAt (settled : List (Nat × Digest κ)) (id : String) : Set Nat :=
  {seq | ∃ digest, (seq, digest) ∈ settled ∧ digest.Shows id}

/-- What the digests say of the pair `id`. -/
structure Sums (settled : List (Nat × Digest κ)) (id : String) (o : Observed κ) : Prop where
  own : o.id = id
  first : IsLeast (seenAt settled id) o.firstSeenSeq
  last : ∃ last, o.lastSeenSeq = some last ∧ IsGreatest (seenAt settled id) last ∧
    ∀ digest pair, (last, digest) ∈ settled → (digest.pairs.filter (·.id = id)).getLast? = some pair →
      o.lastState = pair.state ∧ o.localCandidate = pair.localCandidate ∧
        o.remoteCandidate = pair.remoteCandidate
  once : o.statesSeen.Nodup
  states : ∀ state, state ∈ o.statesSeen ↔
    ∃ x ∈ settled, ∃ pair ∈ x.2.pairs, pair.id = id ∧ pair.state = state
  nominated : o.everNominated = true ↔
    ∃ x ∈ settled, ∃ pair ∈ x.2.pairs, pair.id = id ∧ pair.nominated = true
  selected : o.everSelected = true ↔
    ∃ x ∈ settled, ∃ pair ∈ x.2.pairs, pair.id = id ∧ pair.selected = true

/-- What is left of the snapshots does not depend on their order. -/
structure Converged (settled : List (Nat × Digest κ)) (r : Record κ) : Prop where
  stats : ∀ digest, r.stats = some digest ↔
    ∃ seq, IsGreatest {n | n ∈ settled.map Prod.fst} seq ∧ (seq, digest) ∈ settled
  observed : ∀ id, (∃ x ∈ settled, x.2.Shows id) → ∃ o, r.pairsEverObserved.get id = some o ∧ Sums settled id o
  only : ∀ id o, r.pairsEverObserved.get id = some o → ∃ x ∈ settled, x.2.Shows id

/-- No pair has an id that every object answers to. -/
def Clear (settled : List (Nat × Digest κ)) : Prop :=
  ∀ x ∈ settled, ∀ pair ∈ x.2.pairs, pair.id ∉ INHERITED

/-- The same but for the order of `statesSeen`. -/
structure Observed.Agrees (o o' : Observed κ) : Prop where
  id : o.id = o'.id
  firstSeenSeq : o.firstSeenSeq = o'.firstSeenSeq
  lastSeenSeq : o.lastSeenSeq = o'.lastSeenSeq
  statesSeen : o.statesSeen.Perm o'.statesSeen
  lastState : o.lastState = o'.lastState
  everNominated : o.everNominated = o'.everNominated
  everSelected : o.everSelected = o'.everSelected
  localCandidate : o.localCandidate = o'.localCandidate
  remoteCandidate : o.remoteCandidate = o'.remoteCandidate

/-- The same but for the order of `statesSeen` and the times. -/
structure Agrees (r r' : Record κ) : Prop where
  stats : r.stats = r'.stats
  observed : ∀ id, match r.pairsEverObserved.get id, r'.pairsEverObserved.get id with
    | none, none => True
    | some o, some o' => o.Agrees o'
    | _, _ => False

/-! ### One pair -/

/-- Each occurrence of a pair in a digest, with the number of the digest. -/
def sightings (settled : List (Nat × Digest κ)) : List (Nat × Pair κ) :=
  settled.flatMap fun x => x.2.pairs.map fun pair => (x.1, pair)

/-- What the sightings of one pair come to. -/
structure Sees (seen : List (Nat × Pair κ)) (o : Observed κ) : Prop where
  first : IsLeast {n | n ∈ seen.map Prod.fst} o.firstSeenSeq
  last : ∃ x, Register.Latest seen x ∧ o.lastSeenSeq = some x.1 ∧ o.lastState = x.2.state ∧
    o.localCandidate = x.2.localCandidate ∧ o.remoteCandidate = x.2.remoteCandidate
  once : o.statesSeen.Nodup
  states : ∀ state, state ∈ o.statesSeen ↔ ∃ x ∈ seen, x.2.state = state
  nominated : o.everNominated = true ↔ ∃ x ∈ seen, x.2.nominated = true
  selected : o.everSelected = true ↔ ∃ x ∈ seen, x.2.selected = true

variable {seen : List (Nat × Pair κ)} {settled : List (Nat × Digest κ)} {o : Observed κ} {pair : Pair κ}
  {seq : Nat} {id : String} {observed : JsMap String (Observed κ)}

theorem refresh_eq (o : Observed κ) (pair : Pair κ) (seq : Nat) :
    (o.refresh pair seq).id = o.id ∧ (o.refresh pair seq).firstSeenSeq = o.firstSeenSeq ∧
      (o.refresh pair seq).statesSeen = o.statesSeen ∧
      (o.refresh pair seq).everNominated = o.everNominated ∧
      (o.refresh pair seq).everSelected = o.everSelected := by
  unfold Observed.refresh
  split <;> exact ⟨rfl, rfl, rfl, rfl, rfl⟩

theorem observe_id (o : Observed κ) (pair : Pair κ) (seq : Nat) :
    ((o.observe pair seq).refresh pair seq).id = o.id :=
  (refresh_eq _ pair seq).1

/-- The states of one more sighting. -/
theorem mem_observe_states {state : Option String} :
    state ∈ (o.observe pair seq).statesSeen ↔ state ∈ o.statesSeen ∨ pair.state = state := by
  unfold Observed.observe
  dsimp only
  split
  · rename_i hmem
    constructor
    · exact Or.inl
    · rintro (h | rfl)
      · exact h
      · exact hmem
  · rw [List.mem_append, List.mem_singleton, eq_comm (a := state)]

theorem observe_once (h : o.statesSeen.Nodup) : (o.observe pair seq).statesSeen.Nodup := by
  unfold Observed.observe
  dsimp only
  split
  · exact h
  · rename_i hmem
    rw [List.nodup_append]
    refine ⟨h, List.nodup_singleton _, ?_⟩
    intro a ha b hb heq
    rw [List.mem_singleton] at hb
    exact hmem (hb ▸ heq ▸ ha)

/-- Only a sighting as late as the last one is taken for the state and the candidates. -/
theorem refresh_last (hlast : ∀ last ∈ o.lastSeenSeq, last ≤ seq) :
    (o.refresh pair seq).lastSeenSeq = some seq ∧ (o.refresh pair seq).lastState = pair.state ∧
      (o.refresh pair seq).localCandidate = pair.localCandidate ∧
      (o.refresh pair seq).remoteCandidate = pair.remoteCandidate := by
  rw [Observed.refresh, if_pos hlast]
  exact ⟨rfl, rfl, rfl, rfl⟩

theorem Sees.concat (h : Sees seen o) (seq : Nat) (pair : Pair κ) :
    Sees (seen ++ [(seq, pair)]) ((o.observe pair seq).refresh pair seq) := by
  obtain ⟨⟨hmem, hleast⟩, ⟨x, hx, hlast⟩, honce, hstates, hnominated, hselected⟩ := h
  obtain ⟨-, hfirst', hstates', hnominated', hselected'⟩ := refresh_eq (o.observe pair seq) pair seq
  constructor
  · have hiff : ∀ n, n ∈ (seen ++ [(seq, pair)]).map Prod.fst ↔ n ∈ seen.map Prod.fst ∨ n = seq := by
      simp
    rw [hfirst', Observed.observe]
    dsimp only
    constructor
    · apply (hiff _).mpr
      split
      · exact .inr rfl
      · exact .inl hmem
    · intro n hn
      rcases (hiff n).mp hn with hn | rfl
      · have hle : o.firstSeenSeq ≤ n := hleast hn
        split <;> omega
      · split <;> omega
  · have hconcat := hx.concat (seq, pair)
    refine ⟨_, hconcat, ?_⟩
    by_cases hle : x.1 ≤ seq
    · rw [if_pos hle]
      apply refresh_last
      show ∀ last ∈ o.lastSeenSeq, last ≤ seq
      simpa [hlast.1] using hle
    · rw [if_neg hle, Observed.refresh, if_neg]
      · exact hlast
      · show ¬ ∀ last ∈ o.lastSeenSeq, last ≤ seq
        simpa [hlast.1] using hle
  · rw [hstates']
    exact observe_once honce
  · intro state
    rw [hstates', mem_observe_states, hstates]
    simp [or_and_right, exists_or]
  · rw [hnominated', Observed.observe, Bool.or_eq_true, hnominated]
    simp [or_and_right, exists_or]
  · rw [hselected', Observed.observe, Bool.or_eq_true, hselected]
    simp [or_and_right, exists_or]

theorem Sees.unseen (seq : Nat) (pair : Pair κ) :
    Sees [(seq, pair)] (((unseen pair seq).observe pair seq).refresh pair seq) := by
  obtain ⟨-, hfirst', hstates', hnominated', hselected'⟩ :=
    refresh_eq ((LanProbe.unseen pair seq).observe pair seq) pair seq
  constructor
  · rw [hfirst']
    simp [Observed.observe, LanProbe.unseen]
  · refine ⟨_, Register.latest_singleton _, ?_⟩
    apply refresh_last
    simp [Observed.observe, LanProbe.unseen]
  · rw [hstates']
    exact observe_once List.nodup_nil
  · intro state
    rw [hstates', mem_observe_states]
    simp [LanProbe.unseen]
  · rw [hnominated']
    simp [Observed.observe, LanProbe.unseen]
  · rw [hselected']
    simp [Observed.observe, LanProbe.unseen]

/-! ### All pairs -/

/-- The sightings of the pair `id`. -/
def ofPair (id : String) (seen : List (Nat × Pair κ)) : List (Nat × Pair κ) := seen.filter (·.2.id = id)

/-- `pairsEverObserved` after the sightings. -/
def Merged (seen : List (Nat × Pair κ)) (observed : JsMap String (Observed κ)) : Prop :=
  ∀ id, (observed.get id = none ∧ ofPair id seen = []) ∨
    ∃ o, observed.get id = some o ∧ o.id = id ∧ Sees (ofPair id seen) o

theorem ofPair_concat (id : String) (seen : List (Nat × Pair κ)) (seq : Nat) (pair : Pair κ) :
    ofPair id (seen ++ [(seq, pair)]) = ofPair id seen ++ if pair.id = id then [(seq, pair)] else [] := by
  rw [ofPair, List.filter_append, ofPair]
  congr 1
  by_cases h : pair.id = id <;> simp [h]

theorem mergePair_merged (seq : Nat) (h : Merged seen observed) (hclear : pair.id ∉ INHERITED) :
    ∃ observed', mergePair observed seq pair = some observed' ∧ Merged (seen ++ [(seq, pair)]) observed' := by
  have hset : ∀ o, o.id = pair.id → Sees (ofPair pair.id (seen ++ [(seq, pair)])) o →
      Merged (seen ++ [(seq, pair)]) (observed.set pair.id o) := by
    intro o ho hsees id
    rw [JsMap.get_set]
    by_cases hid : id = pair.id
    · subst hid
      right
      exact ⟨o, if_pos rfl, ho, hsees⟩
    · rw [if_neg hid, ofPair_concat, if_neg (Ne.symm hid), List.append_nil]
      exact h id
  rw [mergePair]
  rcases h pair.id with ⟨hnone, hempty⟩ | ⟨o, hsome, ho, hsees⟩
  · rw [hnone]
    dsimp only
    rw [if_neg hclear]
    refine ⟨_, rfl, hset _ (observe_id _ pair seq) ?_⟩
    rw [ofPair_concat, hempty, if_pos rfl]
    exact .unseen seq pair
  · rw [hsome]
    refine ⟨_, rfl, hset _ ((observe_id o pair seq).trans ho) ?_⟩
    rw [ofPair_concat, if_pos rfl]
    exact hsees.concat seq pair

theorem mergePairs_merged {pairs : List (Pair κ)} (seq : Nat) (h : Merged seen observed)
    (hclear : ∀ pair ∈ pairs, pair.id ∉ INHERITED) :
    ∃ observed', mergePairs seq pairs observed = (true, observed') ∧
      Merged (seen ++ pairs.map fun pair => (seq, pair)) observed' := by
  induction pairs generalizing seen observed with
  | nil => exact ⟨observed, rfl, by rwa [List.map_nil, List.append_nil]⟩
  | cons pair pairs ih =>
      obtain ⟨observed', hmerge, hmerged⟩ := mergePair_merged seq h (hclear pair List.mem_cons_self)
      obtain ⟨observed'', hrest, hmerged'⟩ := ih hmerged fun p hp => hclear p (List.mem_cons_of_mem _ hp)
      refine ⟨observed'', ?_, ?_⟩
      · rw [mergePairs, hmerge]
        exact hrest
      · rwa [List.append_assoc, List.singleton_append, ← List.map_cons] at hmerged'

/-- An inherited name is never made a key. -/
def Unshadowed (observed : JsMap String (Observed κ)) : Prop := ∀ id ∈ INHERITED, observed.get id = none

theorem mergePair_unshadowed {observed' : JsMap String (Observed κ)} (h : Unshadowed observed)
    (hmerge : mergePair observed seq pair = some observed') : Unshadowed observed' := by
  intro id hid
  have hne : pair.id ∉ INHERITED → id ≠ pair.id := by
    rintro hpair rfl
    exact hpair hid
  rw [mergePair] at hmerge
  cases hget : observed.get pair.id with
  | none =>
      rw [hget] at hmerge
      dsimp only at hmerge
      split at hmerge
      · cases hmerge
      · rename_i hpair
        cases hmerge
        rw [JsMap.get_set, if_neg (hne hpair)]
        exact h id hid
  | some prev =>
      rw [hget] at hmerge
      cases hmerge
      have hpair : pair.id ∉ INHERITED := by
        intro hpair
        rw [h _ hpair] at hget
        cases hget
      rw [JsMap.get_set, if_neg (hne hpair)]
      exact h id hid

theorem mergePairs_unshadowed {pairs : List (Pair κ)} (h : Unshadowed observed) :
    Unshadowed (mergePairs seq pairs observed).2 := by
  induction pairs generalizing observed with
  | nil => exact h
  | cons pair pairs ih =>
      rw [mergePairs]
      cases hmerge : mergePair observed seq pair with
      | none => exact h
      | some observed' => exact ih (mergePair_unshadowed h hmerge)

/-! ### A run -/

/-- What `latestStatsSeq` and `stats` hold. -/
def Record.held (r : Record κ) : Option (Nat × Digest κ) := r.stats.map fun digest => (r.latestStatsSeq, digest)

/-- What is known of a page on which `settled` have settled. -/
structure Inv (settled : List (Nat × Digest κ)) (s : Page κ) : Prop where
  held : s.record.held = settled.foldl Register.write none
  unset : s.record.stats = none → s.record.latestStatsSeq = 0
  unshadowed : Unshadowed s.record.pairsEverObserved
  merged : Clear settled → Merged (sightings settled) s.record.pairsEverObserved
  once : (settled.map Prod.fst).Nodup
  gone : ∀ seq ∈ settled.map Prod.fst, seq ∉ s.pending ∧ seq ≤ s.statsSeq
  issued : ∀ seq ∈ s.pending, seq ≤ s.statsSeq

variable {s t : Page κ} {r : Record κ} {digest : Digest κ} {now later : Nat} {es : List (Event κ)}

theorem apply_held (seq now : Nat) (digest : Digest κ) (hunset : r.stats = none → r.latestStatsSeq = 0) :
    (r.apply seq now digest).held = Register.write r.held (seq, digest) ∧
      ((r.apply seq now digest).stats = none → (r.apply seq now digest).latestStatsSeq = 0) := by
  rw [Record.apply, Record.held, Record.held]
  cases hstats : r.stats with
  | none =>
      rw [if_pos (by rw [hunset hstats]; exact Nat.zero_le seq)]
      exact ⟨rfl, fun h => absurd h (Option.some_ne_none _)⟩
  | some held =>
      rw [Option.map_some, Register.write]
      dsimp only
      split
      · exact ⟨rfl, fun h => absurd h (Option.some_ne_none _)⟩
      · rw [hstats]
        exact ⟨rfl, fun h => absurd h (Option.some_ne_none _)⟩

/-- A request is pending that was pending and is not completed now. -/
theorem mem_pending_complete {statsSeq n : Nat} {outcome : Option (Digest κ)} {error : Option String} :
    n ∈ Page.pending ⟨statsSeq, r.complete seq now outcome error⟩ ↔ n ∈ Page.pending ⟨statsSeq, r⟩ ∧ n ≠ seq := by
  simp only [Page.pending, Record.complete, List.mem_map, List.mem_filter]
  constructor
  · rintro ⟨_, ⟨⟨entry, hentry, rfl⟩, hnone⟩, rfl⟩
    split at hnone
    · cases hnone
    · rename_i hne
      rw [if_neg hne]
      exact ⟨⟨entry, ⟨hentry, hnone⟩, rfl⟩, hne⟩
  · rintro ⟨⟨entry, ⟨hentry, hnone⟩, rfl⟩, hne⟩
    exact ⟨entry, ⟨⟨entry, hentry, if_neg hne⟩, hnone⟩, rfl⟩

/-- What a digest leaves behind that settles. -/
structure Digested (r : Record κ) (seq : Nat) (digest : Digest κ) (r' : Record κ) : Prop where
  held : r'.held = Register.write r.held (seq, digest)
  unset : r'.stats = none → r'.latestStatsSeq = 0
  observed : r'.pairsEverObserved = (mergePairs seq digest.pairs r.pairsEverObserved).2
  pending : ∀ statsSeq n, n ∈ Page.pending ⟨statsSeq, r'⟩ → n ∈ Page.pending ⟨statsSeq, r⟩ ∧ n ≠ seq

theorem apply_frame (r : Record κ) (seq now : Nat) (digest : Digest κ) :
    (r.apply seq now digest).pairsEverObserved = r.pairsEverObserved ∧
      (r.apply seq now digest).statsSnapshots = r.statsSnapshots := by
  unfold Record.apply
  split <;> exact ⟨rfl, rfl⟩

theorem settle_digested (hunset : r.stats = none → r.latestStatsSeq = 0) (seq now later : Nat)
    (digest : Digest κ) : Digested r seq digest (r.settle seq now later (.ok digest)) := by
  have hbefore : (r.complete seq now (some digest) none).stats = none →
      (r.complete seq now (some digest) none).latestStatsSeq = 0 := hunset
  obtain ⟨hheld, hunset'⟩ := apply_held seq now digest hbefore
  obtain ⟨hobserved, hsnapshots⟩ := apply_frame (r.complete seq now (some digest) none) seq now digest
  have hpending : ∀ statsSeq n, n ∈ Page.pending ⟨statsSeq,
      (r.complete seq now (some digest) none).apply seq now digest⟩ → n ∈ Page.pending ⟨statsSeq, r⟩ ∧ n ≠ seq := by
    intro statsSeq n hn
    apply mem_pending_complete.mp
    simpa only [Page.pending, hsnapshots] using hn
  have hmerge : mergePairs seq digest.pairs ((r.complete seq now (some digest) none).apply seq now
      digest).pairsEverObserved = mergePairs seq digest.pairs r.pairsEverObserved := by
    rw [hobserved]
    rfl
  rw [Record.settle, Record.settleDigest, Record.mergeObserved, hmerge]
  generalize (r.complete seq now (some digest) none).apply seq now digest = u at *
  cases hpairs : mergePairs seq digest.pairs r.pairsEverObserved with
  | mk ended observed =>
      cases ended with
      | true => exact ⟨hheld, hunset', by rw [hpairs], hpending⟩
      | false =>
          refine ⟨hheld, hunset', by rw [hpairs]; rfl, fun statsSeq n hn => ?_⟩
          exact hpending statsSeq n (mem_pending_complete.mp hn).1

theorem Inv.start (statsSeq : Nat) : Inv [] (page (κ := κ) statsSeq).start := by
  refine ⟨rfl, fun _ => rfl, fun _ _ => rfl, fun _ id => .inl ⟨rfl, rfl⟩, List.nodup_nil, ?_, ?_⟩
  · intro seq hseq
    cases hseq
  · intro seq hseq
    cases hseq

theorem digests_concat (es : List (Event κ)) (e : Event κ) : digests (es ++ [e]) = digests es ++ digests [e] :=
  List.filterMap_append

theorem Clear.of_append {more : List (Nat × Digest κ)} (h : Clear (settled ++ more)) : Clear settled ∧ Clear more :=
  ⟨fun x hx => h x (List.mem_append_left _ hx), fun x hx => h x (List.mem_append_right _ hx)⟩

theorem Inv.step {e : Event κ} (h : Inv settled s) (hstep : s.step e = some t) :
    Inv (settled ++ digests [e]) t := by
  have hsame : ∀ {t : Page κ}, t.record.held = s.record.held →
      (t.record.stats = none → t.record.latestStatsSeq = 0) →
      t.record.pairsEverObserved = s.record.pairsEverObserved →
      (∀ n ∈ t.pending, n ∈ s.pending ∨ s.statsSeq < n ∧ n ≤ t.statsSeq) → s.statsSeq ≤ t.statsSeq →
      Inv (settled ++ []) t := by
    intro t hheld hunset hobserved hpending hle
    rw [List.append_nil]
    refine ⟨hheld.trans h.held, hunset, hobserved ▸ h.unshadowed, hobserved ▸ h.merged, h.once, ?_, ?_⟩
    · intro seq hseq
      obtain ⟨hgone, hmax⟩ := h.gone seq hseq
      refine ⟨fun hmem => ?_, Nat.le_trans hmax hle⟩
      rcases hpending seq hmem with hmem | hlt
      · exact hgone hmem
      · omega
    · intro seq hseq
      rcases hpending seq hseq with hmem | hnew
      · exact Nat.le_trans (h.issued seq hmem) hle
      · exact hnew.2
  cases e with
  | elsewhere =>
      cases hstep
      exact hsame rfl h.unset rfl (fun n hn => .inl hn) (Nat.le_succ _)
  | snapshot trigger now =>
      cases hstep
      refine hsame rfl h.unset rfl ?_ (Nat.le_succ _)
      intro n hn
      simp only [Page.pending, Page.snapshot, List.filter_append, List.map_append, List.mem_append] at hn
      apply hn.imp_right
      intro hlast
      obtain rfl : n = s.statsSeq + 1 := by simpa using hlast
      exact ⟨Nat.lt_succ_self _, Nat.le_refl _⟩
  | settle seq outcome now later =>
      rw [Page.step, Option.ite_none_right_eq_some, Option.some.injEq] at hstep
      obtain ⟨hpending, rfl⟩ := hstep
      cases outcome with
      | error error =>
          exact hsame rfl h.unset rfl (fun n hn => .inl (mem_pending_complete.mp hn).1) (Nat.le_refl _)
      | ok digest =>
          have hnew : seq ∉ settled.map Prod.fst := fun hmem => (h.gone seq hmem).1 hpending
          obtain ⟨hheld, hunset, hobserved, hgone⟩ := settle_digested h.unset seq now later digest
          constructor
          · rw [hheld, h.held, List.foldl_append]
            rfl
          · exact hunset
          · rw [hobserved]
            exact mergePairs_unshadowed h.unshadowed
          · intro hclear
            obtain ⟨hbefore, hlast⟩ := hclear.of_append
            obtain ⟨observed, hmerge, hmerged⟩ := mergePairs_merged seq (h.merged hbefore)
              (hlast (seq, digest) List.mem_cons_self)
            rw [hobserved, hmerge]
            show Merged (sightings (settled ++ [(seq, digest)])) observed
            rwa [sightings, List.flatMap_append, List.flatMap_singleton]
          · show ((settled ++ [(seq, digest)]).map Prod.fst).Nodup
            rw [List.map_append, List.nodup_append]
            refine ⟨h.once, List.nodup_singleton _, ?_⟩
            intro n hn m hm heq
            obtain rfl : m = seq := by simpa using hm
            exact hnew (heq ▸ hn)
          · intro n hn
            have hn' : n ∈ settled.map Prod.fst ∨ n = seq := by
              show n ∈ settled.map Prod.fst ∨ _
              simpa [digests] using hn
            rcases hn' with hn' | rfl
            · exact ⟨fun hmem => (h.gone n hn').1 (hgone _ n hmem).1, (h.gone n hn').2⟩
            · exact ⟨fun hmem => (hgone _ n hmem).2 rfl, h.issued n hpending⟩
          · exact fun n hn => h.issued n (hgone _ n hn).1

theorem inv_of_run {statsSeq : Nat} (hrun : (page statsSeq).run (page statsSeq).start es = some s) :
    Inv (digests es) s := by
  refine run_history_along (P := fun es s => Inv (digests es) s) (.start statsSeq) ?_
    (along_of_forall (fun _ _ => trivial) _ es) hrun
  intro es s e t _ hs _ hstep
  rw [digests_concat]
  exact hs.step hstep

/-! ### What the digests say -/

theorem mem_ofPair {x : Nat × Pair κ} : x ∈ ofPair id (sightings settled) ↔
    ∃ y ∈ settled, y.1 = x.1 ∧ x.2 ∈ y.2.pairs ∧ x.2.id = id := by
  rw [ofPair, List.mem_filter, decide_eq_true_eq, sightings, List.mem_flatMap]
  constructor
  · rintro ⟨⟨y, hy, hx⟩, hid⟩
    obtain ⟨pair, hpair, rfl⟩ := List.mem_map.mp hx
    exact ⟨y, hy, rfl, hpair, hid⟩
  · rintro ⟨y, hy, hseq, hpair, hid⟩
    refine ⟨⟨y, hy, List.mem_map.mpr ⟨x.2, hpair, ?_⟩⟩, hid⟩
    rw [hseq]

theorem mem_seenAt : seq ∈ seenAt settled id ↔ seq ∈ (ofPair id (sightings settled)).map Prod.fst := by
  rw [List.mem_map]
  constructor
  · rintro ⟨digest, hmem, pair, hpair, hid⟩
    exact ⟨(seq, pair), mem_ofPair.mpr ⟨_, hmem, rfl, hpair, hid⟩, rfl⟩
  · rintro ⟨x, hx, rfl⟩
    obtain ⟨y, hy, hseq, hpair, hid⟩ := mem_ofPair.mp hx
    exact ⟨y.2, hseq ▸ hy, x.2, hpair, hid⟩

theorem exists_ofPair (q : Pair κ → Prop) : (∃ x ∈ ofPair id (sightings settled), q x.2) ↔
    ∃ x ∈ settled, ∃ pair ∈ x.2.pairs, pair.id = id ∧ q pair := by
  constructor
  · rintro ⟨x, hx, hq⟩
    obtain ⟨y, hy, -, hpair, hid⟩ := mem_ofPair.mp hx
    exact ⟨y, hy, x.2, hpair, hid, hq⟩
  · rintro ⟨y, hy, pair, hpair, hid, hq⟩
    exact ⟨(y.1, pair), mem_ofPair.mpr ⟨y, hy, rfl, hpair, hid⟩, hq⟩

theorem ofPair_sightings (id : String) (settled : List (Nat × Digest κ)) : ofPair id (sightings settled) =
    settled.flatMap fun x => (x.2.pairs.filter (·.id = id)).map fun pair => (x.1, pair) := by
  induction settled with
  | nil => rfl
  | cons x settled ih =>
      rw [sightings, List.flatMap_cons, ofPair, List.filter_append, List.flatMap_cons]
      congr 1
      rw [List.filter_map]
      rfl

/-- The latest sighting is the last one in the latest digest that has the pair. -/
theorem latest_ofPair (honce : (settled.map Prod.fst).Nodup) {x : Nat × Pair κ}
    (hx : Register.Latest (ofPair id (sightings settled)) x) (hmem : (x.1, digest) ∈ settled)
    (hlast : (digest.pairs.filter (·.id = id)).getLast? = some pair) : pair = x.2 := by
  have hle : ∀ v ∈ ofPair id (sightings settled), v.1 ≤ x.1 := fun v hv => hx.le hv
  obtain ⟨before, after, rfl⟩ := List.append_of_mem hmem
  obtain ⟨pairs, hpairs⟩ := List.getLast?_eq_some_iff.mp hlast
  have hafter : x.1 ∉ after.map Prod.fst := by
    rw [List.map_append, List.map_cons] at honce
    exact (List.nodup_cons.mp (List.nodup_append.mp honce).2.1).1
  have heq : ofPair id (sightings (before ++ (x.1, digest) :: after)) =
      (ofPair id (sightings before) ++ pairs.map fun pair => (x.1, pair)) ++
        (x.1, pair) :: ofPair id (sightings after) := by
    rw [ofPair_sightings, List.flatMap_append, List.flatMap_cons, hpairs, ofPair_sightings, ofPair_sightings]
    simp
  have hlatest : Register.Latest (ofPair id (sightings (before ++ (x.1, digest) :: after))) (x.1, pair) := by
    refine ⟨_, _, heq, fun v hv => hle v ?_, fun v hv => lt_of_le_of_ne (hle v ?_) ?_⟩
    · rw [heq]
      exact List.mem_append_left _ hv
    · rw [heq]
      exact List.mem_append_right _ (List.mem_cons_of_mem _ hv)
    · obtain ⟨y, hy, hseq, -⟩ := mem_ofPair.mp hv
      exact fun hv => hafter (List.mem_map.mpr ⟨y, hy, hseq.trans hv⟩)
  exact congrArg Prod.snd (hlatest.unique hx)

theorem Sees.sums (honce : (settled.map Prod.fst).Nodup) (hid : o.id = id)
    (h : Sees (ofPair id (sightings settled)) o) : Sums settled id o := by
  have hset : {n | n ∈ (ofPair id (sightings settled)).map Prod.fst} = seenAt settled id := by
    ext n
    exact mem_seenAt.symm
  obtain ⟨x, hx, hlast, hstate, hlocal, hremote⟩ := h.last
  refine ⟨hid, hset ▸ h.first, ⟨x.1, hlast, hset ▸ hx.isGreatest, ?_⟩, h.once, ?_, ?_, ?_⟩
  · intro digest pair hmem hpair
    rw [latest_ofPair honce hx hmem hpair]
    exact ⟨hstate, hlocal, hremote⟩
  · exact fun state => (h.states state).trans (exists_ofPair fun pair => pair.state = state)
  · exact h.nominated.trans (exists_ofPair fun pair => pair.nominated = true)
  · exact h.selected.trans (exists_ofPair fun pair => pair.selected = true)

theorem Inv.held_eq (h : Inv settled s) : s.record.stats = some digest ↔
    ∃ seq, Register.Latest settled (seq, digest) := by
  rcases Register.latest_of_foldl settled with ⟨rfl, hnone⟩ | ⟨w, hsome, hlatest⟩
  · have hstats := h.held
    rw [hnone, Record.held, Option.map_eq_none_iff] at hstats
    rw [hstats]
    exact iff_of_false nofun fun ⟨seq, hlatest⟩ => absurd hlatest.mem List.not_mem_nil
  · have hstats := h.held
    rw [hsome, Record.held, Option.map_eq_some_iff] at hstats
    obtain ⟨digest', hstats, rfl⟩ := hstats
    rw [hstats, Option.some.injEq]
    constructor
    · rintro rfl
      exact ⟨_, hlatest⟩
    · intro ⟨seq, hlatest'⟩
      exact congrArg Prod.snd (hlatest.unique hlatest')

theorem Inv.converged (h : Inv settled s) (hclear : Clear settled) : Converged settled s.record := by
  have hmerged := h.merged hclear
  constructor
  · intro digest
    rw [h.held_eq]
    apply exists_congr
    intro seq
    constructor
    · intro hlatest
      exact ⟨hlatest.isGreatest, hlatest.mem⟩
    · intro ⟨hgreatest, hmem⟩
      exact Register.latest_of_isGreatest h.once hmem fun v hv => hgreatest.2 (List.mem_map_of_mem hv)
  · intro id hshown
    rcases hmerged id with ⟨-, hnone⟩ | ⟨o, hget, hid, hsees⟩
    · obtain ⟨x, hx, pair, hpair, hid⟩ := hshown
      have hmem : (x.1, pair) ∈ ofPair id (sightings settled) := mem_ofPair.mpr ⟨x, hx, rfl, hpair, hid⟩
      rw [hnone] at hmem
      cases hmem
    · exact ⟨o, hget, hsees.sums h.once hid⟩
  · intro id o hget
    rcases hmerged id with ⟨hnone, -⟩ | ⟨o', -, -, hsees⟩
    · rw [hget] at hnone
      cases hnone
    · obtain ⟨x, hx, -⟩ := hsees.last
      obtain ⟨y, hy, -, hpair, hid⟩ := mem_ofPair.mp hx.mem
      exact ⟨y, hy, x.2, hpair, hid⟩

/-- An inherited name is looked up and never stored. -/
theorem Inv.clear (h : Inv settled s) (hconverged : Converged settled s.record) : Clear settled := by
  intro x hx pair hpair hinherited
  obtain ⟨o, hget, -⟩ := hconverged.observed pair.id ⟨x, hx, pair, hpair, rfl⟩
  rw [h.unshadowed _ hinherited] at hget
  cases hget

/-! ### Two orders -/

theorem Sums.agrees {settled' : List (Nat × Digest κ)} {o' : Observed κ} (hperm : settled'.Perm settled)
    (h : Sums settled id o) (h' : Sums settled' id o') : o.Agrees o' := by
  have hmem : ∀ x, x ∈ settled' ↔ x ∈ settled := fun x => hperm.mem_iff
  have hseen : seenAt settled' id = seenAt settled id := by
    simp only [seenAt, hmem]
  obtain ⟨last, hlast, hgreatest, hfields⟩ := h.last
  obtain ⟨last', hlast', hgreatest', hfields'⟩ := h'.last
  rw [hseen] at hgreatest'
  obtain rfl := hgreatest.unique hgreatest'
  obtain ⟨digest, hdigest, pair, hpair, hid⟩ := hgreatest.1
  obtain ⟨p, hp⟩ : ∃ p, (digest.pairs.filter (·.id = id)).getLast? = some p := by
    have hfilter : pair ∈ digest.pairs.filter (·.id = id) := List.mem_filter.mpr ⟨hpair, by simpa using hid⟩
    exact ⟨_, List.getLast?_eq_some_getLast (List.ne_nil_of_mem hfilter)⟩
  obtain ⟨hstate, hlocal, hremote⟩ := hfields digest p hdigest hp
  obtain ⟨hstate', hlocal', hremote'⟩ := hfields' digest p ((hmem _).mpr hdigest) hp
  constructor
  · rw [h.own, h'.own]
  · exact h.first.unique (hseen ▸ h'.first)
  · rw [hlast, hlast']
  · apply (List.perm_ext_iff_of_nodup h.once h'.once).mpr
    intro state
    rw [h.states, h'.states]
    simp only [hmem]
  · rw [hstate, hstate']
  · rw [Bool.eq_iff_iff, h.nominated, h'.nominated]
    simp only [hmem]
  · rw [Bool.eq_iff_iff, h.selected, h'.selected]
    simp only [hmem]
  · rw [hlocal, hlocal']
  · rw [hremote, hremote']

theorem Converged.agrees {settled' : List (Nat × Digest κ)} {r' : Record κ} (hperm : settled'.Perm settled)
    (h : Converged settled r) (h' : Converged settled' r') : Agrees r r' := by
  have hmem : ∀ x, x ∈ settled' ↔ x ∈ settled := fun x => hperm.mem_iff
  have hstamps : ∀ n, n ∈ settled'.map Prod.fst ↔ n ∈ settled.map Prod.fst :=
    fun n => (hperm.map Prod.fst).mem_iff
  constructor
  · ext digest
    rw [h.stats, h'.stats]
    simp only [hmem, hstamps]
  · intro id
    cases hget : r.pairsEverObserved.get id with
    | none =>
        cases hget' : r'.pairsEverObserved.get id with
        | none => trivial
        | some o' =>
            obtain ⟨x, hx, hshows⟩ := h'.only id o' hget'
            obtain ⟨o, ho, -⟩ := h.observed id ⟨x, (hmem x).mp hx, hshows⟩
            rw [hget] at ho
            cases ho
    | some o =>
        have hshown := h.only id o hget
        obtain ⟨o₁, ho₁, hsums⟩ := h.observed id hshown
        obtain ⟨x, hx, hshows⟩ := hshown
        obtain ⟨o', ho', hsums'⟩ := h'.observed id ⟨x, (hmem x).mpr hx, hshows⟩
        rw [hget, Option.some.injEq] at ho₁
        rw [ho']
        exact (ho₁ ▸ hsums).agrees hperm hsums'

/-- **The snapshots converge** where no pair has a name that every object answers to, and only there. -/
theorem snapshots_converge {statsSeq : Nat} (hrun : (page statsSeq).run (page statsSeq).start es = some s) :
    (Converged (digests es) s.record ↔ Clear (digests es)) ∧
      (Clear (digests es) → ∀ es' s', (page statsSeq).run (page statsSeq).start es' = some s' →
        (digests es').Perm (digests es) → Agrees s.record s'.record) := by
  have hinv := inv_of_run hrun
  refine ⟨⟨hinv.clear, hinv.converged⟩, ?_⟩
  intro hclear es' s' hrun' hperm
  have hclear' : Clear (digests es') := fun x hx => hclear x (hperm.mem_iff.mp hx)
  exact (hinv.converged hclear).agrees hperm ((inv_of_run hrun').converged hclear')

def checking : Digest String := ⟨[⟨"p", some "in-progress", false, false, none, some "b"⟩], none, none⟩

def connected : Digest String :=
  ⟨[⟨"p", some "succeeded", true, true, some "a", some "b"⟩, ⟨"q", none, false, false, none, none⟩], none, none⟩

/-- The later of two requests settles first. -/
def overtaken : List (Event String) :=
  [.snapshot "checking" 0, .snapshot "connected" 1, .settle 2 (.ok connected) 2 2, .settle 1 (.ok checking) 3 3]

theorem snapshots_converge_overtaken : ∃ s : Page String, Converged [(2, connected), (1, checking)] s.record ∧
    s.record.stats = some connected := by
  have hclear : Clear (digests overtaken) := by
    show ∀ x ∈ [(2, connected), (1, checking)], ∀ pair ∈ x.2.pairs, pair.id ∉ INHERITED
    decide
  have hrun : (page 0).run (page 0).start overtaken = some _ := rfl
  exact ⟨_, (snapshots_converge hrun).1.mpr hclear, rfl⟩

/-- A pair that is called as what every object has. -/
def shadowed : List (Event String) :=
  [.snapshot "connected" 0, .settle 1 (.ok ⟨[⟨"constructor", some "succeeded", true, true, none, none⟩], none, none⟩) 1 2]

theorem not_converged_shadowed : ∃ s, (page 0).run (page 0).start shadowed = some s ∧
    ¬ Converged (digests shadowed) s.record := by
  refine ⟨_, rfl, fun h => ?_⟩
  obtain ⟨o, hget, -⟩ := h.observed "constructor" ⟨_, List.mem_cons_self, _, List.mem_cons_self, rfl⟩
  cases hget

end LlmRuntime.LanProbe

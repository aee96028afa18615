import LlmRuntime.Soak.Counting

/-!
# Cycles over reloads

What one event does to the two pages, and from it what holds of the stored log in every run.
-/

namespace LlmRuntime.Soak

open PeerManager (Manager closings)

def Phase.before : Phase → Option Count
  | .starting before | .generating before | .stopping before | .closing before => some before
  | _ => none

/-- The counts that the requester has used, has and will get, in the order in which they were told. -/
def World.counts (w : World) : List Count :=
  w.page.phase.before.toList ++ w.page.latestPeerStats.toList ++ w.control

/-- What holds while a cycle runs. -/
structure Busy (o : Setting) (w : World) : Prop where
  numbered : w.page.record.cycle = w.page.state.cycle
  unfinished : w.page.record.ok = false
  going : w.page.state.stopped = false
  more : number w.page.state.cycle < o.autoCycles
  wrote : ∀ before, w.page.phase = .stopping before ∨ w.page.phase = .closing before → 0 < w.page.record.chars
  told : ∀ c ∈ w.counts, Told w.page.state.okCount w.managers c
  ordered : w.counts.Pairwise fun a b => a.manager ≤ b.manager

structure Inv (o : Setting) (w : World) : Prop where
  reachable : ∀ m ∈ w.managers, (PeerManager.manager o.peer).Reachable m
  stored : ∀ s ∈ w.storage, Valid o w.managers s
  state : Valid o w.managers w.page.state
  busy : w.page.phase ≠ .returned → Busy o w

/-- What `onText` brought. -/
def said (es : List Event) : Text :=
  es.flatMap fun
    | .onText delta => delta
    | _ => []

/-- What an event does to the pages, and what it takes. -/
inductive Moves (o : Setting) (w : World) : Event → World → Prop where
  | peerLoad : Moves o w .peerLoad { w with gone := w.managers.length }
  | peerStart : Moves o w .peerStart w.peerStart
  | peer (i : Nat) (m : Manager) (e : PeerManager.Event) (hget : w.managers[i]? = some m) :
      Moves o w (.peer i e) (w.peer o i m e)
  | query : Moves o w .query (w.publish [w.told])
  | fdstats (count : Count) (rest : List Count) (hcontrol : w.control = count :: rest) :
      Moves o w .fdstats { w with control := rest, page := { w.page with latestPeerStats := some count } }
  | load : Moves o w .load (w.load o)
  | resetSoak : Moves o w .resetSoak { w with storage := none }
  | storage (writable : Bool) : Moves o w (.storage writable) { w with writable }
  | pollStats (late : Bool) (startError : Option String) (ms : Nat) (hphase : w.page.phase = .asking) :
      Moves o w (.poll late startError ms) (w.pollStats o late startError)
  | pollCloses (before : Count) (late : Bool) (startError : Option String) (ms : Nat)
      (hphase : w.page.phase = .closing before) :
      Moves o w (.poll late startError ms) (w.pollCloses o before late ms)
  | ready (before : Count) (outcome : Except String Nat) (hphase : w.page.phase = .starting before) :
      Moves o w (.ready outcome) (w.ready before outcome)
  | generated (before : Count) (outcome : Except String Nat) (hphase : w.page.phase = .generating before) :
      Moves o w (.generated outcome) (w.generated before outcome)
  | stopped (before : Count) (outcome : Except String Nat) (hphase : w.page.phase = .stopping before) :
      Moves o w (.stopped outcome) (w.stopped before outcome)
  | cleaned (outcome : Except String Nat) (hphase : w.page.phase = .cleaning) : Moves o w (.stopped outcome) w.cleaned
  /-- A callback of the requester's Runtime writes something down beside the cycle. -/
  | noted (e : Event) (page : Page) (hload : e ≠ .load)
      (hbuffer : page.outputBuffer = w.page.outputBuffer ++ said [e]) (hstate : page.state = w.page.state) (hrecord : page.record = w.page.record)
      (hphase : page.phase = w.page.phase) (hlatest : page.latestPeerStats = w.page.latestPeerStats)
      (hstarted : page.started = w.page.started) : Moves o w e (w.setPage page)

variable {o : Setting} {ms : List Manager} {s : SoakLog} {w : World} {r : Record} {page : Page} {before : Count}

theorem step_moves {e : Event} {w' : World} (hstep : w.step o e = some w') : Moves o w e w' := by
  cases e with
  | peerLoad =>
      cases hstep
      exact .peerLoad
  | peerStart =>
      cases hstep
      exact .peerStart
  | peer i e =>
      unfold World.step at hstep
      dsimp only at hstep
      split at hstep
      · obtain ⟨m, hget, heq⟩ := Option.map_eq_some_iff.mp hstep
        rw [← heq]
        exact .peer i m e hget
      · cases hstep
  | query =>
      cases hstep
      exact .query
  | fdstats =>
      unfold World.step at hstep
      dsimp only at hstep
      split at hstep
      · cases hstep
      · cases hstep
        exact .fdstats _ _ ‹_›
  | load =>
      cases hstep
      exact .load
  | resetSoak =>
      cases hstep
      exact .resetSoak
  | storage writable =>
      cases hstep
      exact .storage writable
  | poll late startError ms =>
      unfold World.step at hstep
      dsimp only at hstep
      split at hstep
      · cases hstep
        exact .pollStats late startError ms ‹_›
      · cases hstep
        exact .pollCloses _ late startError ms ‹_›
      · cases hstep
  | ready outcome =>
      unfold World.step at hstep
      dsimp only at hstep
      split at hstep
      · cases hstep
        exact .ready _ outcome ‹_›
      · cases hstep
  | generated outcome =>
      unfold World.step at hstep
      dsimp only at hstep
      split at hstep
      · cases hstep
        exact .generated _ outcome ‹_›
      · cases hstep
  | stopped outcome =>
      unfold World.step at hstep
      dsimp only at hstep
      split at hstep
      · cases hstep
        exact .stopped _ outcome ‹_›
      · cases hstep
        exact .cleaned outcome ‹_›
      · cases hstep
  | onText delta =>
      cases hstep
      exact .noted _ _ Event.noConfusion (by rw [said, List.flatMap_singleton]) rfl rfl rfl rfl rfl
  | onError message =>
      cases hstep
      exact .noted _ _ Event.noConfusion (List.append_nil _).symm rfl rfl rfl rfl rfl
  | unreachable =>
      cases hstep
      exact .noted _ _ Event.noConfusion (List.append_nil _).symm rfl rfl rfl rfl rfl

/-! ### Logs -/

theorem Valid.empty (o : Setting) (ms : List Manager) : Valid o ms .empty where
  wellFormed := ⟨rfl, rfl, rfl, fun _ h => absurd h List.not_mem_nil⟩
  bounded n _ := Nat.zero_le n
  sound _ h := absurd h List.not_mem_nil
  closed := Nat.zero_le _

theorem Valid.grows {ms' : List Manager} (h : Valid o ms s) (hgrows : Grows ms ms') : Valid o ms' s :=
  { h with closed := Nat.le_trans h.closed hgrows.sum_closings }

theorem Valid.push (h : Valid o ms s) (hgoing : s.stopped = false) (hmore : number s.cycle < o.autoCycles)
    (hcycle : r.cycle = s.cycle) (hsound : r.Sound o)
    (hclosed : r.ok = true → s.okCount + 1 ≤ (ms.map closings).sum) :
    Valid o ms ⟨s.cycle + 1, !r.ok, s.log ++ [r]⟩ := by
  have hwell := h.wellFormed
  have hok : ∀ r' ∈ s.log, r'.ok = true := by
    have hany := hwell.stopped
    rw [hgoing, eq_comm, List.any_eq_false] at hany
    intro r' hmem
    simpa using hany r' hmem
  constructor
  · constructor
    · rw [hwell.cycle, List.length_append, List.length_singleton]
    · rw [List.map_append, hwell.numbered, List.map_singleton, hcycle, hwell.cycle, List.length_append,
        List.length_singleton, List.range_succ]
    · rw [List.any_append, ← hwell.stopped, hgoing]
      simp
    · rw [List.dropLast_concat]
      exact hok
  · intro n hn
    rw [List.length_append, List.length_singleton, ← hwell.cycle]
    exact number_lt_number.mp (lt_of_lt_of_le hmore hn)
  · intro r' hmem
    rw [List.mem_append, List.mem_singleton] at hmem
    rcases hmem with hmem | rfl
    · exact h.sound r' hmem
    · exact hsound
  · rw [SoakLog.okCount, List.countP_append, List.countP_singleton]
    by_cases hgood : r.ok = true
    · rw [if_pos hgood]
      exact hclosed hgood
    · rw [if_neg hgood]
      exact h.closed

/-! ### The peer's page -/

theorem runtimeCloses_eq {m : Manager} (h : (PeerManager.manager o.peer).Reachable m) :
    runtimeCloses m = closings m :=
  PeerManager.sum_fdStats h

theorem Inv.told_eq (h : Inv o w) : w.told = closingsAt w.managers (w.managers.length - 1) := by
  rw [World.told, closingsAt, ← List.getLast?_eq_getElem?]
  cases hlast : w.managers.getLast? with
  | none => rfl
  | some m => exact runtimeCloses_eq (h.reachable m (List.mem_of_getLast? hlast))

theorem Busy.publish (h : Busy o w) (hstate : Valid o w.managers w.page.state) (hgrows : Grows w.managers ms)
    {counts : List Nat} (hne : ms.length ≠ 0)
    (hcounts : ∀ n ∈ counts, closingsAt w.managers (ms.length - 1) ≤ n ∧ n ≤ closingsAt ms (ms.length - 1)) :
    Busy o { w with managers := ms, control := w.control ++ counts.map (Count.mk (ms.length - 1)) } where
  numbered := h.numbered
  unfinished := h.unfinished
  going := h.going
  more := h.more
  wrote := h.wrote
  told c hmem := by
    rw [World.counts, ← List.append_assoc, List.mem_append, List.mem_map] at hmem
    rcases hmem with hmem | ⟨n, hmem, rfl⟩
    · exact (h.told c hmem).grows hgrows
    · exact told_of_last hstate.closed hgrows hne (hcounts n hmem).1 (hcounts n hmem).2
  ordered := by
    rw [World.counts, ← List.append_assoc, List.pairwise_append]
    refine ⟨h.ordered, ?_, ?_⟩
    · rw [List.pairwise_map]
      exact List.pairwise_of_forall fun _ _ => Nat.le_refl _
    · intro a ha b hb
      rw [List.mem_map] at hb
      obtain ⟨n, -, rfl⟩ := hb
      have hthere := (h.told a ha).there
      have hlength := hgrows.length
      dsimp only
      omega

/-- The peer's managers go on, and the last of them tells counts from what it had closed before on. -/
theorem Inv.publish (h : Inv o w) (hgrows : Grows w.managers ms)
    (hreach : ∀ m ∈ ms, (PeerManager.manager o.peer).Reachable m) {counts : List Nat}
    (hcounts : ∀ n ∈ counts, closingsAt w.managers (ms.length - 1) ≤ n ∧ n ≤ closingsAt ms (ms.length - 1)) :
    Inv o ({ w with managers := ms }.publish counts) := by
  unfold World.publish World.current
  by_cases hgone : w.gone < ms.length
  · rw [if_pos hgone]
    exact ⟨hreach, fun s hs => (h.stored s hs).grows hgrows, h.state.grows hgrows, fun hphase =>
      (h.busy hphase).publish h.state hgrows (by omega) hcounts⟩
  · rw [if_neg hgone]
    refine ⟨hreach, fun s hs => (h.stored s hs).grows hgrows, h.state.grows hgrows, fun hphase => ?_⟩
    have hbusy := h.busy hphase
    exact { hbusy with told := fun c hmem => (hbusy.told c hmem).grows hgrows }

theorem Inv.query (h : Inv o w) : Inv o (w.publish [w.told]) := by
  refine h.publish (Grows.refl _) h.reachable ?_
  intro n hn
  rw [List.mem_singleton] at hn
  rw [hn, h.told_eq]
  exact ⟨Nat.le_refl _, Nat.le_refl _⟩

theorem Inv.peerStart (h : Inv o w) : Inv o w.peerStart := by
  refine h.publish (grows_concat w.managers .initial) ?_ ?_
  · intro m hm
    rw [List.mem_append, List.mem_singleton] at hm
    rcases hm with hm | rfl
    · exact h.reachable m hm
    · exact .start
  · intro n hn
    rw [List.mem_singleton] at hn
    rw [hn, List.length_append, List.length_singleton, Nat.add_sub_cancel, closingsAt,
      List.getElem?_eq_none (Nat.le_refl _)]
    exact ⟨Nat.le_refl _, Nat.zero_le _⟩

theorem Inv.peer (h : Inv o w) {i : Nat} {m : Manager} (hget : w.managers[i]? = some m)
    (e : PeerManager.Event) : Inv o (w.peer o i m e) := by
  have hm := h.reachable m (List.mem_of_getElem? hget)
  have hm' : (PeerManager.manager o.peer).Reachable (m.step o.peer e) := hm.step (e := e) rfl
  obtain ⟨more, hlog⟩ := PeerManager.log_mono_of_reachable hm e
  have hclosings : closings (m.step o.peer e) = closings m + more.countP PeerManager.Effect.isRuntimeClose := by
    rw [closings, ← hlog, List.countP_append, closings]
  have hlt : i < w.managers.length := (List.getElem?_eq_some_iff.mp hget).1
  have hgrows : Grows w.managers (w.managers.set i (m.step o.peer e)) := grows_set hget (by omega)
  refine h.publish hgrows ?_ ?_
  · intro m' hmem
    rcases List.mem_or_eq_of_mem_set hmem with hmem | rfl
    · exact h.reachable m' hmem
    · exact hm'
  · intro n hn
    rw [World.announcements, ← hlog, List.drop_left] at hn
    have hbounds := mem_announce hn
    rw [h.told_eq] at hbounds
    rw [List.length_set]
    by_cases hlast : i + 1 = w.managers.length
    · have hi : w.managers.length - 1 = i := by omega
      have hthen : closingsAt w.managers i = closings m := by
        rw [closingsAt, hget]
        rfl
      have hnow : closingsAt (w.managers.set i (m.step o.peer e)) i = closings (m.step o.peer e) := by
        rw [closingsAt, List.getElem?_set_self hlt]
        rfl
      rw [hi, hthen] at hbounds
      rw [hi, hthen, hnow, hclosings]
      simpa [hlast] using hbounds
    · have hle := hgrows.closings (w.managers.length - 1)
      simp only [decide_eq_true_eq, hlast, if_false, Nat.add_zero] at hbounds
      omega

/-! ### The requester's page -/

theorem Busy.setPage (h : Busy o w) (hstate : page.state = w.page.state)
    (hcycle : page.record.cycle = w.page.record.cycle) (hok : page.record.ok = w.page.record.ok)
    (hwrote : ∀ before, page.phase = .stopping before ∨ page.phase = .closing before → 0 < page.record.chars)
    (hcounts : (w.setPage page).counts.Sublist w.counts) : Busy o (w.setPage page) where
  numbered := by
    rw [World.setPage_page, hcycle, hstate]
    exact h.numbered
  unfinished := hok.trans h.unfinished
  going := by
    rw [World.setPage_page, hstate]
    exact h.going
  more := by
    rw [World.setPage_page, hstate]
    exact h.more
  wrote := hwrote
  told c hmem := by
    rw [World.setPage_page, hstate]
    exact h.told c (hcounts.subset hmem)
  ordered := h.ordered.sublist hcounts

theorem Inv.setPage (h : Inv o w) (hstate : page.state = w.page.state)
    (hbusy : page.phase ≠ .returned → Busy o (w.setPage page)) : Inv o (w.setPage page) where
  reachable := h.reachable
  stored := h.stored
  state := by
    rw [World.setPage_page, hstate]
    exact h.state
  busy := hbusy

theorem Inv.of_busy (h : Inv o w) (hbusy : Busy o (w.setPage page)) (hstate : page.state = w.page.state) :
    Inv o (w.setPage page) :=
  h.setPage hstate fun _ => hbusy

theorem Inv.busy_of {phase : Phase} (h : Inv o w) (hphase : w.page.phase = phase) (hne : phase ≠ .returned) :
    Busy o w :=
  h.busy (hphase ▸ hne)

theorem Inv.finish (h : Inv o w) (hbusy : Busy o w) (hcycle : r.cycle = w.page.record.cycle) (hsound : r.Sound o)
    (hclosed : r.ok = true → w.page.state.okCount + 1 ≤ (w.managers.map closings).sum) :
    Inv o (w.finish r) := by
  have hpush := h.state.push hbusy.going hbusy.more (hcycle.trans hbusy.numbered) hsound hclosed
  refine ⟨h.reachable, ?_, hpush, fun hphase => absurd rfl hphase⟩
  intro s hs
  unfold World.finish at hs
  dsimp only at hs
  split at hs
  · cases hs
    exact hpush
  · exact h.stored s hs

theorem Inv.finish_failed (h : Inv o w) (hbusy : Busy o w) (hcycle : r.cycle = w.page.record.cycle)
    (hok : r.ok = false) : Inv o (w.finish r) := by
  have hnot : r.ok ≠ true := by
    rw [hok]
    exact Bool.false_ne_true
  exact h.finish hbusy hcycle (fun hgood => absurd hgood hnot) fun hgood => absurd hgood hnot

theorem counts_cleaning (hphase : page.phase = .cleaning) (hlatest : page.latestPeerStats = w.page.latestPeerStats) :
    (w.setPage page).counts.Sublist w.counts := by
  rw [World.counts, World.counts, World.setPage_page, World.setPage_control, hphase, hlatest, List.append_assoc,
    List.append_assoc]
  exact List.sublist_append_right _ _

theorem counts_same (hphase : page.phase.before = w.page.phase.before)
    (hlatest : page.latestPeerStats = w.page.latestPeerStats) : (w.setPage page).counts.Sublist w.counts := by
  rw [World.counts, World.counts, World.setPage_page, World.setPage_control, hphase, hlatest]

theorem Inv.fail (h : Inv o w) (hbusy : Busy o w) (message : String) : Inv o (w.fail message) := by
  unfold World.fail
  dsimp only
  split
  · refine h.setPage rfl fun _ => hbusy.setPage rfl rfl rfl ?_ (counts_cleaning rfl rfl)
    intro before hphase
    rcases hphase with hphase | hphase <;> cases hphase
  · exact h.finish_failed hbusy rfl hbusy.unfinished

theorem Inv.load (h : Inv o w) : Inv o (w.load o) := by
  have hvalid : Valid o w.managers w.loadSoak := by
    rw [World.loadSoak]
    cases hstored : w.storage with
    | none => exact Valid.empty o w.managers
    | some s => exact h.stored s hstored
  refine ⟨h.reachable, h.stored, hvalid, fun hphase => ?_⟩
  have hgo : ¬(w.loadSoak.stopped = true ∨ o.autoCycles ≤ number w.loadSoak.cycle) := by
    intro hno
    exact hphase (if_pos hno)
  rw [not_or, Bool.not_eq_true, not_le] at hgo
  have hcounts : (w.load o).counts = [] := by
    rw [World.counts, World.load, World.newPage, if_neg (by simpa using hgo)]
    rfl
  refine ⟨rfl, rfl, hgo.1, hgo.2, ?_, ?_, ?_⟩
  · intro before hbefore
    rw [World.load, World.newPage, if_neg (by simpa using hgo)] at hbefore
    rcases hbefore with hbefore | hbefore <;> cases hbefore
  · rw [hcounts]
    exact fun c hmem => absurd hmem List.not_mem_nil
  · rw [hcounts]
    exact List.Pairwise.nil

theorem Inv.pollStats (h : Inv o w) (hphase : w.page.phase = .asking) (late : Bool) (startError : Option String) :
    Inv o (w.pollStats o late startError) := by
  have hbusy := h.busy_of hphase Phase.noConfusion
  unfold World.pollStats
  cases hlatest : w.page.latestPeerStats with
  | none =>
      cases late with
      | true => exact h.fail hbusy _
      | false => exact h
  | some before =>
      have hinv : Inv o { w with nodeIds := w.nodeIds ++ [World.nodeId o w.page.state.cycle] } :=
        ⟨h.reachable, h.stored, h.state, fun _ => { hbusy with }⟩
      have hthere : Busy o { w with nodeIds := w.nodeIds ++ [World.nodeId o w.page.state.cycle] } := { hbusy with }
      cases startError with
      | some message => exact hinv.fail hthere message
      | none =>
          refine hinv.setPage rfl fun _ => ?_
          have htold := hbusy.told
          have hordered := hbusy.ordered
          rw [World.counts, hphase, hlatest] at htold hordered
          refine ⟨hbusy.numbered, hbusy.unfinished, hbusy.going, hbusy.more, ?_, ?_, ?_⟩
          · intro before' hbefore
            rcases hbefore with hbefore | hbefore <;> cases hbefore
          · intro c hmem
            rw [World.counts, World.setPage_page, hlatest] at hmem
            apply htold
            simpa [Phase.before] using hmem
          · rw [World.counts, World.setPage_page, hlatest]
            -- what is asked for before the cycle is the latest that was told
            exact List.Pairwise.cons (fun c hmem => by
              rcases List.mem_cons.mp hmem with rfl | hmem
              · exact Nat.le_refl _
              · exact List.rel_of_pairwise_cons hordered hmem) hordered

theorem Busy.another (hbusy : Busy o w) (hphase : w.page.phase = .closing before)
    (hmore : ∃ count ∈ w.page.latestPeerStats, before.runtimeCloses + 1 ≤ count.runtimeCloses) :
    w.page.state.okCount + 1 ≤ (w.managers.map closings).sum := by
  obtain ⟨count, hlatest, hlt⟩ := hmore
  have htold := hbusy.told
  have hordered := hbusy.ordered
  rw [World.counts, hphase, hlatest] at htold hordered
  have hle : before.manager ≤ count.manager := List.rel_of_pairwise_cons hordered (by simp)
  exact (htold before (by simp [Phase.before])).another (htold count (by simp [Phase.before])) hle hlt

theorem passed_cycle (o : Setting) (sawUnreachable : Bool) (r : Record) :
    (World.passed o sawUnreachable r).cycle = r.cycle := by
  unfold World.passed
  dsimp only
  split <;> split <;> rfl

theorem passed_sound (o : Setting) (sawUnreachable : Bool) (hwrote : 0 < r.chars) :
    (World.passed o sawUnreachable r).Sound o := by
  intro _
  by_cases hforced : o.STOP_TIMEOUT_MS ≤ number r.stopMs
  · cases sawUnreachable <;> simp [World.passed, hforced, hwrote]
  · cases sawUnreachable <;> simp [World.passed, hforced, hwrote]

theorem Inv.conclude (h : Inv o w) (hbusy : Busy o w) (hphase : w.page.phase = .closing before)
    (hmore : ∃ count ∈ w.page.latestPeerStats, before.runtimeCloses + 1 ≤ count.runtimeCloses) (ms : Nat) :
    Inv o (w.conclude o ms) := by
  have hpage : Busy o (w.setPage { w.page with record := { w.page.record with closeWaitMs := ms } }) :=
    hbusy.setPage rfl rfl rfl (fun before hbefore => hbusy.wrote before hbefore) (counts_same rfl rfl)
  have hinv := h.of_busy hpage rfl
  unfold World.conclude
  dsimp only
  split
  · exact hinv.fail hpage _
  · exact hinv.finish hpage (passed_cycle o _ _) (passed_sound o _ (hbusy.wrote before (.inr hphase)))
      fun _ => hbusy.another hphase hmore

theorem Inv.pollCloses (h : Inv o w) (hphase : w.page.phase = .closing before) (late : Bool) (ms : Nat) :
    Inv o (w.pollCloses o before late ms) := by
  have hbusy := h.busy_of hphase Phase.noConfusion
  unfold World.pollCloses
  split
  · exact h.conclude hbusy hphase ‹_› ms
  · split
    · exact h.fail hbusy _
    · exact h

theorem Inv.ready (h : Inv o w) (hphase : w.page.phase = .starting before) (outcome : Except String Nat) :
    Inv o (w.ready before outcome) := by
  have hbusy := h.busy_of hphase Phase.noConfusion
  cases outcome with
  | error message => exact h.fail hbusy message
  | ok ms =>
      refine h.setPage rfl fun _ => hbusy.setPage rfl rfl rfl ?_ (counts_same ?_ rfl)
      · intro before' hbefore
        rcases hbefore with hbefore | hbefore <;> cases hbefore
      · rw [hphase]
        rfl

theorem Inv.generated (h : Inv o w) (hphase : w.page.phase = .generating before) (outcome : Except String Nat) :
    Inv o (w.generated before outcome) := by
  have hbusy := h.busy_of hphase Phase.noConfusion
  cases outcome with
  | error message => exact h.fail hbusy message
  | ok ms =>
      have hpage : Busy o (w.setPage
          { w.page with record := { w.page.record with genMs := ms, chars := w.page.outputBuffer.length } }) := by
        refine hbusy.setPage rfl rfl rfl ?_ (counts_same rfl rfl)
        intro before' hbefore
        rw [hphase] at hbefore
        rcases hbefore with hbefore | hbefore <;> cases hbefore
      have hinv := h.of_busy hpage rfl
      unfold World.generated
      dsimp only
      split
      · exact hinv.fail hpage _
      · refine hinv.setPage rfl fun _ => hpage.setPage rfl rfl rfl ?_ (counts_same ?_ rfl)
        · exact fun _ _ => Nat.pos_of_ne_zero ‹_›
        · rw [World.setPage_page, hphase]
          rfl

theorem Inv.stopped (h : Inv o w) (hphase : w.page.phase = .stopping before) (outcome : Except String Nat) :
    Inv o (w.stopped before outcome) := by
  have hbusy := h.busy_of hphase Phase.noConfusion
  have hpage : Busy o (w.setPage { w.page with started := false }) :=
    hbusy.setPage rfl rfl rfl (fun before hbefore => hbusy.wrote before hbefore) (counts_same rfl rfl)
  have hinv := h.of_busy hpage rfl
  cases outcome with
  | error message => exact hinv.fail hpage message
  | ok ms =>
      refine hinv.setPage rfl fun _ => hpage.setPage rfl rfl rfl ?_ (counts_same ?_ rfl)
      · exact fun _ _ => hbusy.wrote before (.inl hphase)
      · rw [World.setPage_page, hphase]
        rfl

theorem Inv.cleaned (h : Inv o w) (hphase : w.page.phase = .cleaning) : Inv o w.cleaned := by
  have hbusy := h.busy_of hphase Phase.noConfusion
  have hpage : Busy o (w.setPage { w.page with started := false }) :=
    hbusy.setPage rfl rfl rfl (fun before hbefore => hbusy.wrote before hbefore) (counts_same rfl rfl)
  exact (h.of_busy hpage rfl).finish_failed hpage rfl hbusy.unfinished

/-- What a callback of the requester's Runtime writes down leaves the cycle alone. -/
theorem Inv.noted (h : Inv o w) (hstate : page.state = w.page.state) (hrecord : page.record = w.page.record)
    (hphase : page.phase = w.page.phase) (hlatest : page.latestPeerStats = w.page.latestPeerStats) :
    Inv o (w.setPage page) := by
  refine h.setPage hstate fun hrunning => ?_
  rw [hphase] at hrunning
  refine (h.busy hrunning).setPage hstate (by rw [hrecord]) (by rw [hrecord]) ?_
    (counts_same (by rw [hphase]) hlatest)
  rw [hphase, hrecord]
  exact (h.busy hrunning).wrote

theorem Inv.fdstats (h : Inv o w) {count : Count} {rest : List Count} (hcontrol : w.control = count :: rest) :
    Inv o { w with control := rest, page := { w.page with latestPeerStats := some count } } := by
  refine ⟨h.reachable, h.stored, h.state, fun hphase => ?_⟩
  have hbusy := h.busy hphase
  have hsub : (World.counts
      { w with control := rest, page := { w.page with latestPeerStats := some count } }).Sublist w.counts := by
    rw [World.counts, World.counts, hcontrol, List.append_assoc, List.append_assoc]
    exact (List.sublist_append_right _ _).append_left _
  exact { hbusy with
    told := fun c hmem => hbusy.told c (hsub.subset hmem)
    ordered := hbusy.ordered.sublist hsub }

/-! ### Every run -/

theorem Inv.start (o : Setting) : Inv o (soak o).start := by
  have hempty : Inv o { (soak o).start with page := { World.newPage o .empty with phase := .returned } } :=
    ⟨fun m hm => absurd hm List.not_mem_nil, fun s hs => absurd hs (Option.not_mem_none s), Valid.empty o [],
      fun hphase => absurd rfl hphase⟩
  exact hempty.load

theorem Inv.step (h : Inv o w) {e : Event} {w' : World} (hstep : w.step o e = some w') : Inv o w' := by
  cases step_moves hstep with
  | peerLoad | storage => exact ⟨h.reachable, h.stored, h.state, fun hphase => { h.busy hphase with }⟩
  | peerStart => exact h.peerStart
  | peer i m e hget => exact h.peer hget e
  | query => exact h.query
  | fdstats count rest hcontrol => exact h.fdstats hcontrol
  | load => exact h.load
  | resetSoak =>
      exact ⟨h.reachable, fun s hs => absurd hs (Option.not_mem_none s), h.state,
        fun hphase => { h.busy hphase with }⟩
  | pollStats late startError ms hphase => exact h.pollStats hphase late startError
  | pollCloses before late startError ms hphase => exact h.pollCloses hphase late ms
  | ready before outcome hphase => exact h.ready hphase outcome
  | generated before outcome hphase => exact h.generated hphase outcome
  | stopped before outcome hphase => exact h.stopped hphase outcome
  | cleaned outcome hphase => exact h.cleaned hphase
  | noted e page _ _ hstate hrecord hphase hlatest _ => exact h.noted hstate hrecord hphase hlatest

theorem inv_of_reachable (h : (soak o).Reachable w) : Inv o w :=
  Transition.Reachable.keeps (P := Inv o) (Inv.start o) (fun _ _ _ hinv hstep => hinv.step hstep) h

end LlmRuntime.Soak

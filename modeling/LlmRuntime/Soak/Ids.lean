import LlmRuntime.Base.Ipv4
import LlmRuntime.Soak.Cycles

/-!
# A fresh id for each cycle

The harness keeps one live connection for a remote id, so a cycle under an id that was used before would
replace a connection of the peer instead of making one. An id is `baseId` and the number of the cycle, and
the numbers go up as long as each cycle is written down before the page is loaded again.
-/

namespace LlmRuntime.Soak

variable {o : Setting} {w : World}

/-- The page is left only when its cycle is over, and what it writes down stays. -/
def Orderly (w : World) : Event → Prop
  | .load => w.page.phase = .returned
  | .resetSoak => False
  | .storage writable => writable = true
  | _ => True

theorem nodeId_injective (o : Setting) : Function.Injective (World.nodeId o) := by
  intro i k h
  have htexts := congrArg String.toList h
  simp only [World.nodeId, String.toList_append, List.append_cancel_left_eq] at htexts
  have hdigits : Nat.toDigits 10 i = Nat.toDigits 10 k := by simpa using htexts
  exact Ipv4.toDigits_inj hdigits

/-! ### Numbers of cycles -/

/-- One more than the number of the last cycle that was started. -/
def World.next (w : World) : Nat :=
  match w.page.phase with
  | .returned | .asking => w.page.state.cycle
  | _ => w.page.state.cycle + 1

/-- The ids given out so far are those of different cycles before `bound`. -/
def Ids (o : Setting) (bound : Nat) (ids : List String) : Prop :=
  ∃ cycles : List Nat, ids = cycles.map (World.nodeId o) ∧ cycles.Pairwise (· < ·) ∧ ∀ cycle ∈ cycles, cycle < bound

theorem Ids.mono {bound bound' : Nat} {ids : List String} (h : Ids o bound ids) (hle : bound ≤ bound') :
    Ids o bound' ids := by
  obtain ⟨cycles, hids, hincreasing, hlt⟩ := h
  exact ⟨cycles, hids, hincreasing, fun cycle hmem => Nat.lt_of_lt_of_le (hlt cycle hmem) hle⟩

theorem Ids.push {bound : Nat} {ids : List String} (h : Ids o bound ids) :
    Ids o (bound + 1) (ids ++ [World.nodeId o bound]) := by
  obtain ⟨cycles, hids, hincreasing, hlt⟩ := h
  refine ⟨cycles ++ [bound], ?_, ?_, ?_⟩
  · rw [List.map_append, hids]
    rfl
  · rw [List.pairwise_append]
    refine ⟨hincreasing, List.pairwise_singleton _ _, ?_⟩
    intro cycle hmem last hlast
    rw [List.mem_singleton] at hlast
    rw [hlast]
    exact hlt cycle hmem
  · intro cycle hmem
    rw [List.mem_append, List.mem_singleton] at hmem
    rcases hmem with hmem | rfl
    · exact Nat.lt_succ_of_lt (hlt cycle hmem)
    · exact Nat.lt_succ_self _

theorem Ids.nodup {bound : Nat} {ids : List String} (h : Ids o bound ids) : ids.Nodup := by
  obtain ⟨cycles, rfl, hincreasing, -⟩ := h
  have hnodup : cycles.Nodup := hincreasing.imp fun hlt => Nat.ne_of_lt hlt
  exact hnodup.map (nodeId_injective o)

structure Fresh (o : Setting) (w : World) : Prop where
  writable : w.writable = true
  stored : w.loadSoak = w.page.state
  started : w.page.phase = .asking → w.page.started = false
  ids : Ids o w.next w.nodeIds

theorem next_le (w : World) : w.next ≤ w.page.state.cycle + 1 := by
  unfold World.next
  split <;> omega

theorem fresh_finish {r : Record} (hwritable : w.writable = true) (hids : Ids o (w.page.state.cycle + 1) w.nodeIds) :
    Fresh o (w.finish r) := by
  refine ⟨hwritable, ?_, fun hphase => Phase.noConfusion hphase, hids⟩
  rw [World.loadSoak, World.finish, if_pos hwritable]
  rfl

/-- The page goes on with its cycle. -/
theorem Fresh.setPage {page : Page} (h : Fresh o w) (hstate : page.state = w.page.state)
    (hstarted : page.phase = .asking → page.started = false) (hnext : w.next ≤ (w.setPage page).next) :
    Fresh o (w.setPage page) :=
  ⟨h.writable, h.stored.trans hstate.symm, hstarted, h.ids.mono hnext⟩

theorem Fresh.fail (h : Fresh o w) (message : String) : Fresh o (w.fail message) := by
  unfold World.fail
  dsimp only
  split
  · exact h.setPage rfl (fun hphase => Phase.noConfusion hphase) (next_le w)
  · exact fresh_finish h.writable (h.ids.mono (next_le w))

theorem Fresh.load (h : Fresh o w) (hphase : w.page.phase = .returned) : Fresh o (w.load o) := by
  refine ⟨h.writable, rfl, fun _ => rfl, ?_⟩
  have hids := h.ids
  rw [World.next, hphase] at hids
  have hnext : (w.load o).next = w.page.state.cycle := by
    rw [World.next, World.load, World.newPage, h.stored]
    dsimp only
    split <;> rename_i hreturned
    · rfl
    · rfl
    · split at hreturned <;> simp_all
  rw [hnext]
  exact hids

theorem Fresh.pollStats (h : Fresh o w) (hphase : w.page.phase = .asking) (late : Bool) (startError : Option String) :
    Fresh o (w.pollStats o late startError) := by
  unfold World.pollStats
  cases w.page.latestPeerStats with
  | none =>
      cases late with
      | true => exact h.fail _
      | false => exact h
  | some before =>
      have hids := h.ids
      rw [World.next, hphase] at hids
      cases startError with
      | some message =>
          have hidle := h.started hphase
          unfold World.start World.fail
          dsimp only
          rw [if_neg (by rw [hidle]; exact Bool.false_ne_true)]
          exact fresh_finish h.writable hids.push
      | none => exact ⟨h.writable, h.stored, fun hasking => Phase.noConfusion hasking, hids.push⟩

theorem Fresh.conclude (h : Fresh o w) {before : Count} (hphase : w.page.phase = .closing before) (ms : Nat) :
    Fresh o (w.conclude o ms) := by
  have hpage : Fresh o (w.setPage { w.page with record := { w.page.record with closeWaitMs := ms } }) :=
    h.setPage rfl h.started (Nat.le_refl _)
  unfold World.conclude
  dsimp only
  split
  · exact hpage.fail _
  · refine fresh_finish h.writable ?_
    have hids := h.ids
    rwa [World.next, hphase] at hids

theorem Fresh.pollCloses (h : Fresh o w) {before : Count} (hphase : w.page.phase = .closing before) (late : Bool)
    (ms : Nat) : Fresh o (w.pollCloses o before late ms) := by
  unfold World.pollCloses
  split
  · exact h.conclude hphase ms
  · split
    · exact h.fail _
    · exact h

theorem Fresh.ready (h : Fresh o w) {before : Count} (outcome : Except String Nat) :
    Fresh o (w.ready before outcome) := by
  cases outcome with
  | error message => exact h.fail message
  | ok ms => exact h.setPage rfl (fun hphase => Phase.noConfusion hphase) (next_le w)

theorem Fresh.generated (h : Fresh o w) {before : Count} (outcome : Except String Nat) :
    Fresh o (w.generated before outcome) := by
  cases outcome with
  | error message => exact h.fail message
  | ok ms =>
      have hpage : Fresh o (w.setPage
          { w.page with record := { w.page.record with genMs := ms, chars := w.page.outputBuffer.length } }) :=
        h.setPage rfl h.started (Nat.le_refl _)
      unfold World.generated
      dsimp only
      split
      · exact hpage.fail _
      · exact hpage.setPage rfl (fun hphase => Phase.noConfusion hphase) (next_le w)

theorem Fresh.stopped (h : Fresh o w) {before : Count} (outcome : Except String Nat) :
    Fresh o (w.stopped before outcome) := by
  have hpage : Fresh o (w.setPage { w.page with started := false }) := h.setPage rfl (fun _ => rfl) (Nat.le_refl _)
  cases outcome with
  | error message => exact hpage.fail message
  | ok ms => exact hpage.setPage rfl (fun hphase => Phase.noConfusion hphase) (next_le w)

theorem Fresh.cleaned (h : Fresh o w) : Fresh o w.cleaned := by
  have hpage : Fresh o (w.setPage { w.page with started := false }) := h.setPage rfl (fun _ => rfl) (Nat.le_refl _)
  exact fresh_finish h.writable (hpage.ids.mono (next_le _))

theorem fresh_publish {managers : List PeerManager.Manager} {counts : List Nat} (h : Fresh o w) :
    Fresh o ({ w with managers }.publish counts) := by
  unfold World.publish
  split
  · exact ⟨h.writable, h.stored, h.started, h.ids⟩
  · exact ⟨h.writable, h.stored, h.started, h.ids⟩

/-! ### Every orderly run -/

theorem Fresh.start (o : Setting) : Fresh o (soak o).start := by
  refine ⟨rfl, rfl, fun _ => rfl, [], rfl, List.Pairwise.nil, ?_⟩
  exact fun cycle hmem => absurd hmem List.not_mem_nil

theorem Fresh.step (h : Fresh o w) {e : Event} {w' : World} (horderly : Orderly w e)
    (hstep : w.step o e = some w') : Fresh o w' := by
  cases step_moves hstep with
  | peerLoad => exact ⟨h.writable, h.stored, h.started, h.ids⟩
  | peerStart | peer | query => exact fresh_publish h
  | fdstats => exact ⟨h.writable, h.stored, h.started, h.ids⟩
  | load => exact h.load horderly
  | resetSoak => exact False.elim horderly
  | storage writable => exact ⟨horderly, h.stored, h.started, h.ids⟩
  | pollStats late startError ms hphase => exact h.pollStats hphase late startError
  | pollCloses before late startError ms hphase => exact h.pollCloses hphase late ms
  | ready before outcome _ => exact h.ready outcome
  | generated before outcome _ => exact h.generated outcome
  | stopped before outcome _ => exact h.stopped outcome
  | cleaned outcome _ => exact h.cleaned
  | noted e page _ _ hstate _ hphase _ hstarted =>
      refine h.setPage hstate ?_ ?_
      · rw [hphase, hstarted]
        exact h.started
      · rw [World.next, World.next, World.setPage_page, hphase, hstate]

/-- **No id is used for two cycles.** -/
theorem ids_fresh (o : Setting) (w : World) (es : List Event) (horderly : (soak o).Along Orderly (soak o).start es)
    (hrun : (soak o).run (soak o).start es = some w) : w.nodeIds.Nodup :=
  (Transition.run_keeps_along (P := Fresh o) (fun _ _ _ h horderly hstep => h.step horderly hstep)
    (Fresh.start o) horderly hrun).ids.nodup

/-- Two cycles: the peer does not answer in the second one. -/
theorem ids_fresh_twoCycles : ∃ w : World, w.nodeIds = ["req-c0", "req-c1"] ∧ w.nodeIds.Nodup := by
  have hrun : (soak ⟨number 3, number 5000, "req", "peer-1", 8⟩).run
      (soak ⟨number 3, number 5000, "req", "peer-1", 8⟩).start
      [.peerStart, .fdstats, .poll false none 0, .peer 0 (.message ⟨"req-c0", "peer-1", .connect⟩), .ready (.ok 10),
        .onText [72], .generated (.ok 20), .stopped (.ok 30), .peer 0 (.closeConnection 0), .fdstats, .fdstats,
        .fdstats, .poll false none 40, .load, .query, .fdstats, .poll false none 0, .ready (.error "no peer")] =
      some _ := rfl
  refine ⟨_, rfl, ids_fresh _ _ _ ?_ hrun⟩
  iterate 18
    refine ⟨by trivial, fun t ht => ?_⟩
    cases ht
  trivial

end LlmRuntime.Soak

import LlmRuntime.PeerManager.Acts

/-!
# The operations, taken apart

`Moves` lists for each operation and each frame the sequences of acts it can be, with what decides
between them. Results about runs go through `step_moves` and `Does` and do not unfold the manager's
functions again.
-/

namespace LlmRuntime.PeerManager

open Function

variable {o : Options} {s t : Manager} {c : ConnId}

/-! ### Allocating a number -/

/-- The number the cyclic pointer stands for. -/
def wrap (fdMax nextFd : Nat) : Nat := if nextFd ≥ fdMax then 0 else nextFd

theorem wrap_lt {fdMax nextFd : Nat} (h : 0 < fdMax) : wrap fdMax nextFd < fdMax := by
  unfold wrap
  split <;> omega

theorem wrap_succ {fdMax fd : Nat} (h : fd < fdMax) : wrap fdMax (fd + 1) = (fd + 1) % fdMax := by
  unfold wrap
  split
  · rw [show fd + 1 = fdMax by omega, Nat.mod_self]
  · rw [Nat.mod_eq_of_lt (by omega)]

theorem scanFd_succ (fdMax rounds nextFd : Nat) (conns : JsMap Nat ConnId) :
    scanFd fdMax conns (rounds + 1) nextFd =
      if conns.has (wrap fdMax nextFd) then scanFd fdMax conns rounds (wrap fdMax nextFd + 1)
      else (some (wrap fdMax nextFd), wrap fdMax nextFd + 1) :=
  rfl

theorem scanFd_some {fdMax rounds nextFd fd next : Nat} {conns : JsMap Nat ConnId} (hmax : 0 < fdMax)
    (h : scanFd fdMax conns rounds nextFd = (some fd, next)) :
    fd < fdMax ∧ conns.has fd = false := by
  induction rounds generalizing nextFd with
  | zero => simp [scanFd] at h
  | succ rounds ih =>
      rw [scanFd_succ] at h
      split at h
      · exact ih h
      · rename_i hfree
        cases h
        exact ⟨wrap_lt hmax, by simpa using hfree⟩

/-- A scan that finds nothing has seen as many numbers as it had rounds, in cyclic order. -/
theorem scanFd_none {fdMax rounds nextFd next : Nat} {conns : JsMap Nat ConnId} (hmax : 0 < fdMax)
    (h : scanFd fdMax conns rounds nextFd = (none, next)) :
    ∀ k < rounds, conns.has ((wrap fdMax nextFd + k) % fdMax) = true := by
  induction rounds generalizing nextFd with
  | zero => simp
  | succ rounds ih =>
      rw [scanFd_succ] at h
      split at h
      · rename_i hhas
        have hlt : wrap fdMax nextFd < fdMax := wrap_lt hmax
        intro k hk
        cases k with
        | zero => rwa [Nat.add_zero, Nat.mod_eq_of_lt hlt]
        | succ k =>
            have hseen := ih h k (by omega)
            rwa [wrap_succ hlt, Nat.mod_add_mod, Nat.add_assoc, Nat.add_comm 1 k] at hseen
      · cases h

/-- A full round of the pointer meets every number. -/
theorem exists_round (start : Nat) {fdMax fd : Nat} (hfd : fd < fdMax) :
    ∃ k < fdMax, (start + k) % fdMax = fd := by
  have hpos : 0 < fdMax := by omega
  have hstart : start % fdMax < fdMax := Nat.mod_lt _ hpos
  by_cases h : start % fdMax ≤ fd
  · refine ⟨fd - start % fdMax, by omega, ?_⟩
    rw [← Nat.mod_add_mod, Nat.add_sub_cancel' h, Nat.mod_eq_of_lt hfd]
  · refine ⟨fdMax - start % fdMax + fd, by omega, ?_⟩
    rw [← Nat.mod_add_mod, ← Nat.add_assoc, Nat.add_sub_cancel' (Nat.le_of_lt hstart), Nat.add_mod_left,
      Nat.mod_eq_of_lt hfd]

theorem newFd_eq_some {fd : Nat} (h : (s.newFd o).1 = some fd) :
    fd < o.fdMax ∧ s.conns.get fd = none ∧ ∃ nextFd, (s.newFd o).2 = s.setNextFd nextFd := by
  unfold Manager.newFd at h ⊢
  cases hscan : scanFd o.fdMax s.conns o.fdMax s.nextFd with
  | mk found nextFd =>
      cases found with
      | none => simp [hscan] at h
      | some fd' =>
          simp only [hscan, Option.some.injEq] at h
          subst h
          have hmax : 0 < o.fdMax := by
            by_contra hzero
            rw [show o.fdMax = 0 by omega, scanFd] at hscan
            cases hscan
          obtain ⟨hlt, hfree⟩ := scanFd_some hmax hscan
          exact ⟨hlt, by simpa [JsMap.has] using hfree, nextFd, rfl⟩

theorem newFd_eq_none (h : (s.newFd o).1 = none) :
    (∀ fd < o.fdMax, s.conns.has fd = true) ∧ Does o s .quiet (s.newFd o).2 := by
  unfold Manager.newFd at h ⊢
  cases hscan : scanFd o.fdMax s.conns o.fdMax s.nextFd with
  | mk found nextFd =>
      cases found with
      | some fd => simp [hscan] at h
      | none =>
          refine ⟨?_, .quiet nextFd s.registrationCounts [_] (by simp [Effect.Plain])⟩
          intro fd hfd
          obtain ⟨k, hk, hround⟩ := exists_round (wrap o.fdMax s.nextFd) hfd
          exact hround ▸ scanFd_none (by omega) hscan k hk

theorem newFd_none_of_full (hfull : ∀ fd < o.fdMax, s.conns.has fd = true) : (s.newFd o).1 = none := by
  rw [Option.eq_none_iff_forall_ne_some]
  intro fd hfd
  obtain ⟨hlt, hfree, -⟩ := newFd_eq_some hfd
  have hhas := hfull fd hlt
  simp [JsMap.has, hfree] at hhas

/-! ### Draining -/

theorem drainQueue_flatten (queue : List Bytes) (remaining : Nat) :
    (drainQueue queue remaining).1.flatten ++ (drainQueue queue remaining).2.1.flatten =
      queue.flatten := by
  induction queue generalizing remaining with
  | nil => rfl
  | cons head rest ih =>
      unfold drainQueue
      split
      · rfl
      · split
        · rw [List.flatten_singleton, List.flatten_cons, List.flatten_cons, ← List.append_assoc,
            List.take_append_drop]
        · rw [List.flatten_cons, List.flatten_cons, List.append_assoc, ih]

theorem drainQueue_written (queue : List Bytes) (remaining : Nat) :
    (drainQueue queue remaining).2.2 = (drainQueue queue remaining).1.flatten.length := by
  induction queue generalizing remaining with
  | nil => rfl
  | cons head rest ih =>
      unfold drainQueue
      split
      · rfl
      · split
        · rw [List.flatten_singleton, List.length_take, Nat.min_eq_left (by omega)]
        · rw [List.flatten_cons, List.length_append, ← ih]

theorem drain_does (hlive : s.Live c) (r : Recv) :
    ∃ bytes, Does o s (.drain c bytes) (s.drain c r).2 := by
  refine ⟨(drainQueue (s.conn c).queue r.len).1.flatten, ?_⟩
  have hdrain := Does.drain (o := o) c r _ _ hlive (drainQueue_flatten (s.conn c).queue r.len)
  rwa [← drainQueue_written] at hdrain

/-! ### Callbacks -/

theorem push_does {effect : Effect} (h : effect.Plain) : Does o s .quiet (s.push effect) :=
  .quiet s.nextFd s.registrationCounts [effect] (by simpa using h)

theorem runWake_acts (hget : s.conns.get (s.conn c).fd = some c) (hlive : s.Live c) {r : Recv}
    (hr : r.fd = (s.conn c).fd) :
    ∃ bytes, Acts o s [.drain c bytes, .finish r.callback true] (s.runWake c r) := by
  obtain ⟨bytes, hdrain⟩ := drain_does (o := o) hlive r
  refine ⟨bytes, .cons hdrain (Does.acts ?_)⟩
  rw [Manager.runWake, if_neg (by simp [hr, hget, hlive.2])]
  exact .finish r.callback true

/-- The acts by which a parked `recv()`, if there is one, is called. -/
inductive Wakes (s : Manager) (c : ConnId) : List Act → Prop where
  | none (h : (s.conn c).wake = none) : Wakes s c []
  | some (r : Recv) (bytes : Bytes) (h : (s.conn c).wake = some r) :
      Wakes s c [.wake c none, .drain c bytes, .finish r.callback true]

theorem Wakes.of_wake {as : List Act} (h : Wakes s c as) (hwake : (s.conn c).wake = (t.conn c).wake) :
    Wakes t c as := by
  cases h with
  | none h => exact .none (hwake ▸ h)
  | some r bytes h => exact .some r bytes (hwake ▸ h)

theorem wakeUp_acts (hinv : Inv o s) (hlive : s.Live c) :
    ∃ as, Wakes s c as ∧ Acts o s as (s.wakeUp c) := by
  unfold Manager.wakeUp
  cases hwake : (s.conn c).wake with
  | none => exact ⟨[], .none hwake, .nil s⟩
  | some r =>
      have hclear : Does o s (.wake c none) (s.setConn c { s.conn c with wake := none }) :=
        .wake c none hlive (by simp)
      have hlive' : (s.setConn c { s.conn c with wake := none }).Live c := by
        simpa [Manager.Live] using hlive
      obtain ⟨bytes, hrun⟩ := runWake_acts (o := o) (r := r)
        ((hinv.does hclear).get_of_live c hlive') hlive' (by simpa using hinv.wake c r hwake)
      exact ⟨_, .some r bytes hwake, .cons hclear hrun⟩

theorem settleConnect_eq (s : Manager) (c : ConnId) (ok : Bool) :
    s.settleConnect c ok = { s with
      conn := update s.conn c { s.conn c with accepted := none }
      log := s.log ++ ((s.conn c).accepted.toList.map fun done =>
        .connectDone (some c) done (if ok then (s.conn c).fd else -1)) } := by
  unfold Manager.settleConnect
  cases haccepted : (s.conn c).accepted with
  | none =>
      have hconn : ({ s.conn c with accepted := none } : Conn) = s.conn c := by
        rw [← haccepted]
      simp [hconn]
  | some done => rfl

theorem settleConnect_acts (hlive : s.Live c) :
    (s.conn c).accepted = none ∧ Acts o s [] (s.settleConnect c true) ∨
      Acts o s [.connected c] (s.settleConnect c true) := by
  cases haccepted : (s.conn c).accepted with
  | none =>
      rw [Manager.settleConnect, haccepted]
      exact .inl ⟨rfl, .nil s⟩
  | some done =>
      rw [Manager.settleConnect, haccepted]
      exact .inr (Does.connected c done hlive haccepted).acts

theorem tombstone_of_closed (h : (s.conn c).closed = true) : s.tombstone c = s := by
  rw [Manager.tombstone, if_pos h]

theorem wakeUp_of_closed (h : (s.conn c).closed = true) :
    s.wakeUp c = { s with
      conn := update s.conn c { s.conn c with wake := none }
      log := s.log ++ ((s.conn c).wake.toList.map fun r => .recvDone r.callback false) } := by
  unfold Manager.wakeUp
  cases hwake : (s.conn c).wake with
  | none =>
      have hconn : ({ s.conn c with wake := none } : Conn) = s.conn c := by
        rw [← hwake]
      simp [hconn]
  | some r =>
      dsimp only
      rw [Manager.runWake, if_pos (by simp [h])]
      rfl

theorem tombstone_does (hinv : Inv o s) (hlive : s.Live c) : Does o s (.kill c) (s.tombstone c) := by
  have hremote := (hinv.byRemote_iff _ c).mpr ⟨hlive, rfl⟩
  have hkill := Does.kill (o := o) c hlive
  rw [Manager.tombstone, if_neg (by simp [hlive.2]), settleConnect_eq, wakeUp_of_closed (by simp)]
  simpa [Manager.emit, Manager.push, Manager.detach, hremote] using hkill

theorem supersede_acts (hinv : Inv o s) (remoteId : String) :
    Acts o s ((s.byRemote.get remoteId).toList.map .kill) (s.supersede remoteId) := by
  unfold Manager.supersede
  cases hprevious : s.byRemote.get remoteId with
  | none => exact .nil s
  | some previous =>
      exact (tombstone_does hinv ((hinv.byRemote_iff _ _).mp hprevious).1).acts

/-! ### Opening a connection -/

/-- The acts by which the old connection to a remote goes. -/
def Manager.kills (s : Manager) (remoteId : String) : List Act :=
  (s.byRemote.get remoteId).toList.map .kill

theorem supersede_frame (hinv : Inv o s) (remoteId : String) :
    (s.supersede remoteId).created = s.created ∧ (s.supersede remoteId).conns = s.conns ∧
      (s.supersede remoteId).acceptWaiters = s.acceptWaiters ∧
      (s.supersede remoteId).byRemote.get remoteId = none := by
  unfold Manager.supersede
  cases hprevious : s.byRemote.get remoteId with
  | none => exact ⟨rfl, rfl, rfl, hprevious⟩
  | some previous =>
      obtain ⟨hlive, hremote⟩ := (hinv.byRemote_iff _ _).mp hprevious
      have hkill := tombstone_does hinv hlive
      dsimp only
      generalize s.tombstone previous = t at hkill
      cases hkill
      exact ⟨rfl, rfl, rfl, by rw [hremote, JsMap.get_delete_self]⟩

variable {fd : Nat}

theorem createConn_incoming (hinv : Inv o s) (remoteId : String) (hfd : fd < o.fdMax) (hfree : s.conns.get fd = none) :
    Acts o s (s.kills remoteId ++ [.incoming s.created remoteId])
      ((s.createConn fd remoteId).setReady ((s.createConn fd remoteId).readyFds ++ [fd])) := by
  obtain ⟨hcreated, hconns, -, hnew⟩ := supersede_frame hinv remoteId
  have hopen := Does.incoming (o := o) (s := s.supersede remoteId) fd remoteId hfd (hconns ▸ hfree) hnew
  exact (supersede_acts hinv remoteId).append (hcreated ▸ hopen.acts)

theorem createConn_outgoing (hinv : Inv o s) (remoteId : String) (hfd : fd < o.fdMax)
    (hfree : s.conns.get fd = none) (done : Callback) :
    Acts o s (s.kills remoteId ++ [.outgoing s.created remoteId done])
      (((s.createConn fd remoteId).setConn s.created
        { (s.createConn fd remoteId).conn s.created with accepted := some done }).post o s.created
          .connect) := by
  obtain ⟨hcreated, hconns, -, hnew⟩ := supersede_frame hinv remoteId
  have hopen := Does.outgoing (o := o) (s := s.supersede remoteId) fd remoteId done hfd
    (hconns ▸ hfree) hnew
  refine (supersede_acts hinv remoteId).append ?_
  rw [hcreated] at hopen
  convert hopen.acts using 1
  simp [Manager.post, Manager.setConn, Manager.createConn, Manager.emit, Manager.push, Manager.addConn,
    hcreated]

theorem settleAccept_eq (o : Options) (hget : s.conns.get (s.conn c).fd = some c) (hlive : s.Live c)
    (done : Callback) :
    s.settleAccept o (s.conn c).fd done = (true, { s with
      acceptedCounts := bump s.acceptedCounts (s.conn c).fd
      posts := s.posts ++ [⟨c, ⟨o.nodeId, (s.conn c).remoteId, .accepted⟩⟩]
      log := s.log ++ [.acceptDone c done (s.conn c).fd, .event (.accept (s.conn c).fd
        (s.conn c).remoteId (count s.acceptedCounts (s.conn c).fd + 1))] }) := by
  rw [Manager.settleAccept, hget]
  simp [hlive.2, Manager.post, Manager.push, Manager.countAccepted, Manager.emit]

theorem Inv.acts (hinv : Inv o s) {as : List Act} (h : Acts o s as t) : Inv o t :=
  h.keeps (fun _ _ _ hs hdoes => hs.does hdoes) hinv

/-- The waiter at the head of `acceptWaiters` gets the connection that has just come in. -/
theorem settleAccept_incoming (hinv : Inv o s) (remoteId : String) (hfd : fd < o.fdMax)
    (hfree : s.conns.get fd = none) {waiter : Callback} {rest : List Callback} (hwaiters : s.acceptWaiters = waiter :: rest) :
    ∃ t, ((s.createConn fd remoteId).setWaiters rest).settleAccept o fd waiter = (true, t) ∧
      Acts o s (s.kills remoteId ++ [.incoming s.created remoteId] ++
        [.serve waiter, .accept s.created waiter]) t := by
  obtain ⟨hcreated, hconns, hwaiters', -⟩ := supersede_frame hinv remoteId
  have hself : (s.createConn fd remoteId).conn s.created = ⟨fd, remoteId, false, [], 0, none, none⟩ := by
    simp [Manager.createConn, Manager.emit, hcreated]
  have hcount : (s.createConn fd remoteId).created = s.created + 1 := by
    simp [Manager.createConn, Manager.emit, hcreated]
  have hget : (s.createConn fd remoteId).conns.get fd = some s.created := by
    simp [Manager.createConn, Manager.emit, hcreated]
  have hnotReady : fd ∉ (s.createConn fd remoteId).readyFds := by
    intro hmem
    obtain ⟨c, hc, -⟩ := (hinv.acts (supersede_acts hinv remoteId)).ready fd hmem
    simp [hconns, hfree] at hc
  have hqueue : (s.createConn fd remoteId).acceptWaiters = waiter :: rest := hwaiters'.trans hwaiters
  have hopen := createConn_incoming hinv remoteId hfd hfree
  generalize s.createConn fd remoteId = u at *
  have hlive : u.Live s.created := ⟨by rw [hcount]; exact Nat.lt_succ_self _, by rw [hself]⟩
  have haccept := settleAccept_eq (s := u.setWaiters rest) (c := s.created) o
    (by simpa [hself] using hget) (by simpa [Manager.Live] using hlive) waiter
  have htake := Does.accept (o := o) (s := (u.setReady (u.readyFds ++ [fd])).setWaiters rest) s.created
    waiter (by simpa [Manager.Live] using hlive) (by simp [hself])
  rw [Manager.setWaiters_conn, hself] at haccept
  refine ⟨_, haccept, hopen.append (.cons (.serve waiter rest hqueue) ?_)⟩
  convert htake.acts using 2
  all_goals first | rfl | simp [hself, List.erase_append_right _ hnotReady]

/-! ### The operations -/

/-- Each operation and each frame, with the acts it comes down to. -/
inductive Moves (o : Options) (s : Manager) : Event → List Act → Prop where
  | connectFull (remoteId : String) (done : Callback) (hfull : ∀ fd < o.fdMax, s.conns.has fd = true) :
      Moves o s (.connect remoteId done) [.quiet, .refuse done]
  | connect (fd : Nat) (remoteId : String) (done : Callback) (hfd : fd < o.fdMax)
      (hfree : s.conns.get fd = none) :
      Moves o s (.connect remoteId done)
        (.quiet :: (s.kills remoteId ++ [.outgoing s.created remoteId done]))
  | acceptParked (done : Callback) (hready : s.readyFds = []) : Moves o s (.accept done) [.park done]
  | accept (c : ConnId) (done : Callback) (rest : List Nat) (hready : s.readyFds = (s.conn c).fd :: rest)
      (hlive : s.Live c) : Moves o s (.accept done) [.accept c done]
  | sendRefused (fd : Nat) (data : Bytes) (postError : Option String)
      (h : data = [] ∨ ∀ c, s.conns.get fd = some c → ¬ s.Live c) :
      Moves o s (.send fd data postError) []
  | sendFailed (fd : Nat) (data : Bytes) (error : String) : Moves o s (.send fd data (some error)) [.quiet]
  | send (c : ConnId) (data : Bytes) (hlive : s.Live c) (hdata : data ≠ []) :
      Moves o s (.send (s.conn c).fd data none) [.send c (data.take (min SEND_CHUNK_BYTES data.length))]
  | recvRefused (fd len : Nat) (callback : Callback)
      (h : ∀ c, s.conns.get fd = some c → ¬ s.Live c) :
      Moves o s (.recv fd len callback) [.finish callback false]
  | recv (c : ConnId) (bytes : Bytes) (len : Nat) (callback : Callback) (hlive : s.Live c) :
      Moves o s (.recv (s.conn c).fd len callback) [.drain c bytes, .finish callback true]
  | recvParked (c : ConnId) (bytes : Bytes) (len : Nat) (callback : Callback) (hlive : s.Live c) :
      Moves o s (.recv (s.conn c).fd len callback)
        [.drain c bytes, .wake c (some ⟨(s.conn c).fd, len, callback⟩)]
  | closeUnknown (fd : Nat) (h : s.conns.get fd = none) : Moves o s (.closeConnection fd) []
  | closeTombstone (c : ConnId) (hget : s.conns.get (s.conn c).fd = some c)
      (hclosed : (s.conn c).closed = true) : Moves o s (.closeConnection (s.conn c).fd) [.release c]
  | closeLive (c : ConnId) (hlive : s.Live c) :
      Moves o s (.closeConnection (s.conn c).fd) [.hangUp c, .kill c, .release c]
  | registerBuf (fd ptr : Nat) : Moves o s (.registerBuf fd ptr) [.quiet]
  | close (cs : List ConnId) (hlive : ∀ c ∈ cs, s.Live c) : Moves o s .close (cs.map .kill ++ [.quiet])
  | ignored (m : Message) (h : m.receiver ≠ o.nodeId) : Moves o s (.message m) []
  | incomingFull (sender : String) (hfull : ∀ fd < o.fdMax, s.conns.has fd = true) :
      Moves o s (.message ⟨sender, o.nodeId, .connect⟩) [.quiet]
  | incoming (fd : Nat) (sender : String) (hfd : fd < o.fdMax) (hfree : s.conns.get fd = none)
      (hwaiters : s.acceptWaiters = []) :
      Moves o s (.message ⟨sender, o.nodeId, .connect⟩)
        (.quiet :: (s.kills sender ++ [.incoming s.created sender]))
  | incomingAccepted (fd : Nat) (sender : String) (hfd : fd < o.fdMax) (hfree : s.conns.get fd = none)
      (waiter : Callback) (rest : List Callback) (hwaiters : s.acceptWaiters = waiter :: rest) :
      Moves o s (.message ⟨sender, o.nodeId, .connect⟩)
        (.quiet :: (s.kills sender ++ [.incoming s.created sender] ++
          [.serve waiter, .accept s.created waiter]))
  | dropped (sender : String) (kind : Kind) (hkind : kind ≠ .connect)
      (h : s.byRemote.get sender = none ∨
        (kind = .accepted ∧ ∀ c, s.byRemote.get sender = some c → (s.conn c).accepted = none) ∨
        kind = .data []) :
      Moves o s (.message ⟨sender, o.nodeId, kind⟩) []
  | accepted (c : ConnId) (sender : String) (h : s.byRemote.get sender = some c) :
      Moves o s (.message ⟨sender, o.nodeId, .accepted⟩) [.connected c]
  | data (c : ConnId) (sender : String) (bytes : Bytes) (as : List Act)
      (h : s.byRemote.get sender = some c) (hbytes : bytes ≠ [])
      (has : Wakes s c as) :
      Moves o s (.message ⟨sender, o.nodeId, .data bytes⟩) (.enqueue c bytes :: as)
  | closed (c : ConnId) (sender : String) (h : s.byRemote.get sender = some c) :
      Moves o s (.message ⟨sender, o.nodeId, .close⟩) [.kill c]
  | unknown (sender kind : String) : Moves o s (.message ⟨sender, o.nodeId, .other kind⟩) [.quiet]

theorem setNextFd_does (nextFd : Nat) : Does o s .quiet (s.setNextFd nextFd) := by
  convert Does.quiet (s := s) nextFd s.registrationCounts [] (by simp) using 1
  rw [List.append_nil]
  rfl

theorem connect_moves (hinv : Inv o s) (remoteId : String) (done : Callback) :
    ∃ as, Moves o s (.connect remoteId done) as ∧ Acts o s as (s.connect o remoteId done) := by
  unfold Manager.connect
  cases hfd : (s.newFd o).1 with
  | none =>
      obtain ⟨hfull, hquiet⟩ := newFd_eq_none hfd
      rw [show s.newFd o = (none, (s.newFd o).2) from Prod.ext hfd rfl]
      exact ⟨_, .connectFull remoteId done hfull, .cons hquiet (Does.refuse done).acts⟩
  | some fd =>
      obtain ⟨hlt, hfree, nextFd, hnext⟩ := newFd_eq_some hfd
      rw [show s.newFd o = (some fd, s.setNextFd nextFd) from Prod.ext hfd hnext]
      have hquiet : Does o s .quiet (s.setNextFd nextFd) := setNextFd_does nextFd
      exact ⟨_, .connect fd remoteId done hlt hfree,
        .cons hquiet (createConn_outgoing (hinv.does hquiet) remoteId hlt hfree done)⟩

theorem handleConnect_moves (hinv : Inv o s) (sender : String) :
    ∃ as, Moves o s (.message ⟨sender, o.nodeId, .connect⟩) as ∧
      Acts o s as (s.handleConnect o sender) := by
  unfold Manager.handleConnect
  cases hfd : (s.newFd o).1 with
  | none =>
      obtain ⟨hfull, hquiet⟩ := newFd_eq_none hfd
      rw [show s.newFd o = (none, (s.newFd o).2) from Prod.ext hfd rfl]
      exact ⟨_, .incomingFull sender hfull, hquiet.acts⟩
  | some fd =>
      obtain ⟨hlt, hfree, nextFd, hnext⟩ := newFd_eq_some hfd
      rw [show s.newFd o = (some fd, s.setNextFd nextFd) from Prod.ext hfd hnext]
      have hquiet : Does o s .quiet (s.setNextFd nextFd) := setNextFd_does nextFd
      have hinv' := hinv.does hquiet
      have hwaiters : ((s.setNextFd nextFd).createConn fd sender).acceptWaiters = s.acceptWaiters :=
        (supersede_frame hinv' sender).2.2.1
      dsimp only
      rw [hwaiters]
      cases hw : s.acceptWaiters with
      | nil =>
          exact ⟨_, .incoming fd sender hlt hfree hw,
            .cons hquiet (createConn_incoming hinv' sender hlt hfree)⟩
      | cons waiter rest =>
          obtain ⟨t, hsettle, hacts⟩ := settleAccept_incoming hinv' sender hlt hfree hw
          dsimp only
          rw [hsettle]
          exact ⟨_, .incomingAccepted fd sender hlt hfree waiter rest hw, .cons hquiet hacts⟩

theorem accept_moves (hinv : Inv o s) (done : Callback) :
    ∃ as, Moves o s (.accept done) as ∧ Acts o s as (s.accept o done) := by
  unfold Manager.accept
  cases hready : s.readyFds with
  | nil => exact ⟨_, .acceptParked done hready, (Does.park done).acts⟩
  | cons fd rest =>
      obtain ⟨c, hget, hlive⟩ := hinv.ready fd (by simp [hready])
      obtain ⟨-, rfl, -⟩ := hinv.of_get fd c hget
      have hsettle := settleAccept_eq (s := s.setReady rest) (c := c) o (by simpa using hget)
        (by simpa [Manager.Live] using hlive) done
      have htake := Does.accept (o := o) c done hlive (by simp [hready])
      rw [Manager.setReady_conn] at hsettle
      rw [Manager.acceptLoop, hsettle]
      refine ⟨_, .accept c done rest hready hlive, ?_⟩
      convert htake.acts using 2
      all_goals first | rfl | simp [hready]

theorem live_of_get (hinv : Inv o s) (hget : s.conns.get fd = some c) (hclosed : (s.conn c).closed = false) :
    s.Live c :=
  ⟨(hinv.of_get fd c hget).1, hclosed⟩

theorem send_moves (hinv : Inv o s) (fd : Nat) (data : Bytes) (postError : Option String) :
    ∃ as, Moves o s (.send fd data postError) as ∧ Acts o s as (s.send o fd data postError).2 := by
  unfold Manager.send
  cases hget : s.conns.get fd with
  | none => exact ⟨[], .sendRefused fd data postError (.inr (by simp [hget])), .nil s⟩
  | some c =>
      obtain ⟨hlt, rfl, -⟩ := hinv.of_get fd c hget
      dsimp only
      split
      · rename_i hclosed
        refine ⟨[], .sendRefused _ data postError (.inr ?_), .nil s⟩
        intro c' hc' hlive
        rw [hget, Option.some.injEq] at hc'
        simp [← hc', Manager.Live, hclosed] at hlive
      · rename_i hopen
        have hlive : s.Live c := ⟨hlt, by simpa using hopen⟩
        split
        · rename_i hempty
          exact ⟨[], .sendRefused _ data postError (.inl (List.eq_nil_of_length_eq_zero hempty)), .nil s⟩
        · rename_i hdata
          have hne : data ≠ [] := by
            rintro rfl
            exact hdata rfl
          cases postError with
          | some error =>
              exact ⟨_, .sendFailed _ data error, (push_does (by simp [Effect.Plain])).acts⟩
          | none =>
              refine ⟨_, .send c data hlive hne, (Does.send c _ hlive ?_).acts⟩
              intro htake
              rw [List.take_eq_nil_iff] at htake
              rcases htake with htake | htake
              · simp only [SEND_CHUNK_BYTES] at htake
                omega
              · exact hne htake

theorem recv_moves (hinv : Inv o s) (fd len : Nat) (callback : Callback) :
    ∃ as, Moves o s (.recv fd len callback) as ∧ Acts o s as (s.recv fd len callback) := by
  have hrefused : Does o s (.finish callback false) (s.push (.recvDone callback false)) :=
    .finish callback false
  unfold Manager.recv
  cases hget : s.conns.get fd with
  | none => exact ⟨_, .recvRefused fd len callback (by simp [hget]), hrefused.acts⟩
  | some c =>
      obtain ⟨hlt, rfl, -⟩ := hinv.of_get fd c hget
      dsimp only
      split
      · rename_i hclosed
        refine ⟨_, .recvRefused _ len callback ?_, hrefused.acts⟩
        intro c' hc' hlive
        rw [hget, Option.some.injEq] at hc'
        simp [← hc', Manager.Live, hclosed] at hlive
      · rename_i hopen
        have hlive : s.Live c := ⟨hlt, by simpa using hopen⟩
        obtain ⟨bytes, hdrain⟩ := drain_does (o := o) hlive ⟨(s.conn c).fd, len, callback⟩
        have hconn : ((s.drain c ⟨(s.conn c).fd, len, callback⟩).2.conn c).fd = (s.conn c).fd ∧
            (s.drain c ⟨(s.conn c).fd, len, callback⟩).2.Live c := by
          simpa [Manager.drain, Manager.Live] using hlive
        cases hwritten : s.drain c ⟨(s.conn c).fd, len, callback⟩ with
        | mk written t =>
            rw [hwritten] at hdrain hconn
            cases written with
            | zero =>
                refine ⟨_, .recvParked c bytes len callback hlive, .cons hdrain (Does.acts ?_)⟩
                exact .wake c _ hconn.2 (by simpa using hconn.1.symm)
            | succ n =>
                exact ⟨_, .recv c bytes len callback hlive,
                  .cons hdrain (Does.finish callback true).acts⟩

theorem kill_frame (h : Does o s (.kill c) t) :
    t.created = s.created ∧ t.conns = s.conns ∧
      t.conn = update s.conn c
        { s.conn c with
          closed := true, queue := [], queuedBytes := 0, wake := none, accepted := none } ∧
      t.runtimeCloseCounts = s.runtimeCloseCounts := by
  cases h
  exact ⟨rfl, rfl, rfl, rfl⟩

theorem closeConnection_moves (hinv : Inv o s) (fd : Nat) :
    ∃ as, Moves o s (.closeConnection fd) as ∧ Acts o s as (s.closeConnection o fd).2 := by
  unfold Manager.closeConnection
  cases hget : s.conns.get fd with
  | none => exact ⟨[], .closeUnknown fd hget, .nil s⟩
  | some c =>
      obtain ⟨hlt, rfl, -⟩ := hinv.of_get fd c hget
      dsimp only
      split
      · rename_i hclosed
        exact ⟨_, .closeTombstone c hget hclosed, (Does.release c hget hclosed).acts⟩
      · rename_i hopen
        have hlive : s.Live c := ⟨hlt, by simpa using hopen⟩
        have hpost : Does o s (.hangUp c) (s.post o c .close) := .hangUp c hlive
        have hkill := tombstone_does (hinv.does hpost) hlive
        refine ⟨_, .closeLive c hlive, .cons hpost (.cons hkill (Does.acts ?_))⟩
        obtain ⟨-, hconns, hconn, -⟩ := kill_frame hkill
        generalize (s.post o c .close).tombstone c = t at hconns hconn
        have hself : (t.conn c).fd = (s.conn c).fd := by simp [hconn]
        have hrelease := Does.release (o := o) (s := t) c (by rw [hself, hconns]; exact hget)
          (by simp [hconn])
        rw [hself] at hrelease
        exact hrelease

theorem live_of_kills {cs : List ConnId} {c' : ConnId} (h : Acts o s (cs.map .kill) t) (hlive : t.Live c') :
    s.Live c' := by
  induction cs generalizing s with
  | nil =>
      cases h
      exact hlive
  | cons c cs ih =>
      rw [List.map_cons] at h
      cases h with
      | cons hkill hrest =>
          obtain ⟨hcreated, -, hconn, -⟩ := kill_frame hkill
          have hmid := ih hrest
          by_cases hc : c' = c
          · simp [Manager.Live, hconn, hc] at hmid
          · simpa [Manager.Live, hconn, hcreated, hc] using hmid

theorem foldl_tombstone_acts (hinv : Inv o s) (cs : List ConnId) (hcs : ∀ c ∈ cs, c < s.created) :
    ∃ ks : List ConnId, (∀ c ∈ ks, s.Live c) ∧ Acts o s (ks.map .kill) (cs.foldl Manager.tombstone s) ∧
      ∀ c ∈ cs, ¬ (cs.foldl Manager.tombstone s).Live c := by
  induction cs generalizing s with
  | nil => exact ⟨[], by simp, .nil s, by simp⟩
  | cons c cs ih =>
      rw [List.foldl_cons]
      by_cases hclosed : (s.conn c).closed = true
      · rw [tombstone_of_closed hclosed]
        obtain ⟨ks, hks, hacts, hdead⟩ := ih hinv fun c' hc' => hcs c' (List.mem_cons_of_mem _ hc')
        refine ⟨ks, hks, hacts, ?_⟩
        rintro c' (_ | ⟨_, hc'⟩)
        · intro hlive
          exact absurd (live_of_kills hacts hlive).2 (by simp [hclosed])
        · exact hdead c' hc'
      · have hlive : s.Live c := ⟨hcs c List.mem_cons_self, by simpa using hclosed⟩
        have hkill := tombstone_does hinv hlive
        obtain ⟨hcreated, -, hconn, -⟩ := kill_frame hkill
        obtain ⟨ks, hks, hacts, hdead⟩ := ih (hinv.does hkill) fun c' hc' => by
          rw [hcreated]
          exact hcs c' (List.mem_cons_of_mem _ hc')
        have hall : Acts o s ((c :: ks).map .kill) (cs.foldl Manager.tombstone (s.tombstone c)) :=
          .cons hkill hacts
        refine ⟨c :: ks, ?_, hall, ?_⟩
        · rintro c' (_ | ⟨_, hc'⟩)
          · exact hlive
          · have hone : Acts o s ([c].map .kill) (s.tombstone c) := hkill.acts
            exact live_of_kills hone (hks c' hc')
        · rintro c' (_ | ⟨_, hc'⟩)
          · intro hend
            have hmid := live_of_kills hacts hend
            simp [Manager.Live, hconn] at hmid
          · exact hdead c' hc'

theorem close_moves (hinv : Inv o s) : ∃ as, Moves o s .close as ∧ Acts o s as s.close := by
  obtain ⟨ks, hks, hacts, hdead⟩ := foldl_tombstone_acts hinv s.conns.values fun c hc => by
    obtain ⟨fd, hget⟩ := JsMap.mem_values_iff.mp hc
    exact (hinv.of_get fd c hget).1
  have hinv' := hinv.acts hacts
  have hnone : ∀ c, ¬ (s.conns.values.foldl Manager.tombstone s).Live c := by
    intro c hlive
    have hbefore := live_of_kills hacts hlive
    exact hdead c (JsMap.mem_values_iff.mpr ⟨_, hinv.get_of_live c hbefore⟩) hlive
  -- with nothing alive, both clearings at the end change nothing
  have hbyRemote : (s.conns.values.foldl Manager.tombstone s).byRemote = .empty := by
    apply JsMap.eq_empty_of_get
    intro r
    rw [Option.eq_none_iff_forall_ne_some]
    intro c hc
    exact hnone c ((hinv'.byRemote_iff r c).mp hc).1
  have hready : (s.conns.values.foldl Manager.tombstone s).readyFds = [] := by
    rw [List.eq_nil_iff_forall_not_mem]
    intro fd hmem
    obtain ⟨c, -, hlive⟩ := hinv'.ready fd hmem
    exact hnone c hlive
  refine ⟨_, .close ks hks, hacts.append (Does.acts ?_)⟩
  rw [Manager.close]
  generalize s.conns.values.foldl Manager.tombstone s = u at hbyRemote hready
  have hsame : (u.setByRemote .empty).setReady [] = u := by
    rw [← hbyRemote, ← hready]
    rfl
  rw [hsame]
  exact push_does (by simp [Effect.Plain])

theorem onMessage_moves (hinv : Inv o s) (m : Message) :
    ∃ as, Moves o s (.message m) as ∧ Acts o s as (s.onMessage o m) := by
  obtain ⟨sender, receiver, kind⟩ := m
  unfold Manager.onMessage
  by_cases hreceiver : receiver ≠ o.nodeId
  · rw [if_pos hreceiver]
    exact ⟨[], .ignored _ hreceiver, .nil s⟩
  rw [if_neg hreceiver]
  rw [not_not] at hreceiver
  subst hreceiver
  cases kind with
  | connect => exact handleConnect_moves hinv sender
  | other kind => exact ⟨_, .unknown sender kind, (push_does (by simp [Effect.Plain])).acts⟩
  | accepted =>
      dsimp only
      cases hget : s.byRemote.get sender with
      | none => exact ⟨[], .dropped sender _ (by simp) (.inl hget), .nil s⟩
      | some c =>
          rcases settleConnect_acts (o := o) ((hinv.byRemote_iff _ _).mp hget).1 with
            ⟨hwait, hacts⟩ | hacts
          · refine ⟨[], .dropped sender _ (by simp) (.inr (.inl ⟨rfl, ?_⟩)), hacts⟩
            intro c' hc'
            rw [hget, Option.some.injEq] at hc'
            exact hc' ▸ hwait
          · exact ⟨_, .accepted c sender hget, hacts⟩
  | close =>
      dsimp only
      cases hget : s.byRemote.get sender with
      | none => exact ⟨[], .dropped sender _ (by simp) (.inl hget), .nil s⟩
      | some c =>
          exact ⟨_, .closed c sender hget,
            (tombstone_does hinv ((hinv.byRemote_iff _ _).mp hget).1).acts⟩
  | data bytes =>
      dsimp only [Manager.handleData]
      cases hget : s.byRemote.get sender with
      | none => exact ⟨[], .dropped sender _ (by simp) (.inl hget), .nil s⟩
      | some c =>
          have hlive := ((hinv.byRemote_iff _ _).mp hget).1
          dsimp only
          split
          · rename_i hempty
            rw [List.eq_nil_of_length_eq_zero hempty]
            exact ⟨[], .dropped sender _ (by simp) (.inr (.inr rfl)), .nil s⟩
          · rename_i hbytes
            have henqueue : Does o s (.enqueue c bytes)
                (s.setConn c { s.conn c with
                  queue := (s.conn c).queue ++ [bytes]
                  queuedBytes := (s.conn c).queuedBytes + bytes.length }) :=
              .enqueue c bytes hlive
            obtain ⟨as, has, hacts⟩ := wakeUp_acts (c := c) (hinv.does henqueue)
              (by simpa [Manager.Live] using hlive)
            refine ⟨_, .data c sender bytes as hget ?_ (has.of_wake (by simp)), .cons henqueue hacts⟩
            rintro rfl
            exact hbytes rfl

/-- **What a step can do.** -/
theorem step_moves (hinv : Inv o s) (e : Event) :
    ∃ as, Moves o s e as ∧ Acts o s as (s.step o e) := by
  cases e with
  | connect remoteId done => exact connect_moves hinv remoteId done
  | accept done => exact accept_moves hinv done
  | send fd data postError => exact send_moves hinv fd data postError
  | recv fd len callback => exact recv_moves hinv fd len callback
  | closeConnection fd => exact closeConnection_moves hinv fd
  | registerBuf fd ptr =>
      exact ⟨_, .registerBuf fd ptr,
        (Does.quiet s.nextFd (bump s.registrationCounts fd) [_]
          (by simp [Effect.Plain])).acts⟩
  | close => exact close_moves hinv
  | message message => exact onMessage_moves hinv message

theorem inv_of_reachable (h : (manager o).Reachable s) : Inv o s := by
  refine h.keeps .initial ?_
  intro s e t hinv hstep
  obtain ⟨as, -, hacts⟩ := step_moves hinv e
  cases hstep
  exact hinv.acts hacts

end LlmRuntime.PeerManager

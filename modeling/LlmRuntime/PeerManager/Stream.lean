import LlmRuntime.PeerManager.Callbacks
import LlmRuntime.PeerManager.Sending
import Mathlib.Algebra.GroupWithZero.Nat

/-!
# A connection as a byte stream

What `recv()` calls get out of a connection is what frames have put into it, whatever the sizes of the
frames and of the calls, and a call is told that all is well only after it was given bytes. The first part
follows the acts; for the second `Feeds` keeps of a step what it says to the callers of `recv()`.
-/

namespace LlmRuntime.PeerManager

open Function Transition

/-- The bytes that an event brings to connection `c`. -/
def Event.brings (o : Options) (s : Manager) (c : ConnId) : Event → Bytes
  | .message ⟨sender, receiver, .data bytes⟩ =>
      if receiver = o.nodeId ∧ s.byRemote.get sender = some c then bytes else []
  | _ => []

/-- The frames that are applied to connection `c` along a run from `s`, one after another. -/
def applied (o : Options) (c : ConnId) : Manager → List Event → Bytes
  | _, [] => []
  | s, e :: es => e.brings o s c ++ applied o c (s.step o e) es

/-- What a call of `recv()` with the closures `x` lets the manager write. -/
def Event.grants (x : Callback) : Event → Nat
  | .recv _ len callback => if callback = x then len else 0
  | _ => 0

def Effect.bytesFor (x : Callback) : Effect → Bytes
  | .write _ callback bytes => if callback = x then bytes else []
  | _ => []

/-- The bytes that the `writeCB` of `x` was given. -/
def writtenFor (s : Manager) (x : Callback) : Bytes := s.log.flatMap (Effect.bytesFor x)

/-- No call of `recv()` asks for nothing. -/
def Event.Asks : Event → Prop
  | .recv _ len _ => 1 ≤ len
  | _ => True

instance : ∀ e : Event, Decidable e.Asks
  | .recv _ len _ => inferInstanceAs (Decidable (1 ≤ len))
  | .connect .. | .accept _ | .send .. | .closeConnection _ | .registerBuf .. | .close | .message _ =>
      instDecidableTrue

/-- Each `doneCB(true)` in the log comes right after bytes for the same call. -/
def Backed (log : List Effect) : Prop :=
  ∀ before x after, log = before ++ .recvDone x true :: after →
    ∃ before' c bytes, before = before' ++ [.write c x bytes] ∧ bytes ≠ []

variable {o : Options} {s t : Manager} {a : Act} {as : List Act} {c : ConnId} {e : Event} {es : List Event}

/-! ### What goes in and what comes out -/

theorem applied_concat (o : Options) (c : ConnId) (s : Manager) (es : List Event) (e : Event) :
    applied o c s (es ++ [e]) = applied o c s es ++ e.brings o (es.foldl (Manager.step o) s) c := by
  induction es generalizing s with
  | nil => simp [applied]
  | cons f es ih => rw [List.cons_append, applied, applied, ih, List.append_assoc, List.foldl_cons]

theorem run_eq_foldl (o : Options) (s : Manager) (es : List Event) :
    (manager o).run s es = some (es.foldl (Manager.step o) s) := by
  induction es generalizing s with
  | nil => rfl
  | cons e es ih => exact ih (s.step o e)

theorem Moves.brings (h : Moves o s e as) (c : ConnId) : as.flatMap (Act.enqueues c) = e.brings o s c := by
  cases h with
  | data c' sender bytes as' hget hbytes has =>
      cases has <;> simp [Act.enqueues, Event.brings, hget]
  | ignored m hreceiver =>
      obtain ⟨sender, receiver, kind⟩ := m
      cases kind <;> simp_all [Event.brings]
  | dropped sender kind hkind hreason =>
      rcases hreason with hnone | ⟨rfl, -⟩ | rfl
      · cases kind <;> simp [Event.brings, hnone]
      · rfl
      · simp [Event.brings]
  | _ => simp [Act.enqueues, Event.brings, Manager.kills]

/-- What connection `c` has yielded and what waits on it, when `bytes` were put in. -/
structure Conveys (s : Manager) (c : ConnId) (bytes : Bytes) : Prop where
  live : s.Live c → yielded s c ++ (s.conn c).queue.flatten = bytes
  yielded : yielded s c <+: bytes
  unmade : s.created ≤ c → bytes = []

theorem Conveys.does (hs : Conveys s c bytes) (h : Does o s a t) : Conveys t c (bytes ++ a.enqueues c) := by
  have hdead : ¬ s.Live c → a.enqueues c = [] ∧ a.yields c = [] := by
    intro hdead
    constructor
    · by_contra henqueues
      exact hdead (h.enqueues_live henqueues)
    · by_contra hyields
      exact hdead (h.yields_live hyields).1
  have hlive : t.Live c → PeerManager.yielded t c ++ (t.conn c).queue.flatten = bytes ++ a.enqueues c := by
    intro hlive
    rcases h.live hlive with hbefore | ⟨rfl, -, hqueue⟩
    · rw [h.yielded, List.append_assoc, h.queue hbefore hlive, ← List.append_assoc, hs.live hbefore]
    · have hnew : ¬ s.Live s.created := fun hlive => Nat.lt_irrefl _ hlive.1
      have hbytes := hs.unmade (Nat.le_refl _)
      have hnone := hs.yielded
      rw [hbytes, List.prefix_nil] at hnone
      rw [h.yielded, hqueue, (hdead hnew).1, (hdead hnew).2, hnone, hbytes]
      rfl
  refine ⟨hlive, ?_, ?_⟩
  · by_cases hyields : a.yields c = []
    · rw [h.yielded, hyields, List.append_nil]
      exact hs.yielded.trans (List.prefix_append _ _)
    · exact ⟨_, hlive (h.yields_live hyields).2⟩
  · intro hc
    have hc' : s.created ≤ c := Nat.le_trans h.static.1 hc
    rw [hs.unmade hc', (hdead fun hlive => Nat.not_lt.mpr hc' hlive.1).1]
    rfl

theorem Conveys.acts (hs : Conveys s c bytes) (h : Acts o s as t) :
    Conveys t c (bytes ++ as.flatMap (Act.enqueues c)) := by
  induction h generalizing bytes with
  | nil => simpa using hs
  | cons hdoes _ ih =>
      have hrest := ih (hs.does hdoes)
      rwa [List.append_assoc, ← List.flatMap_cons] at hrest

/-! ### One call of `drain` -/

/-- No chunk waits that has no bytes, and a `recv()` is parked only where no chunk waits. -/
structure Fed (s : Manager) : Prop where
  chunks : ∀ c, [] ∉ (s.conn c).queue
  parked : ∀ c r, (s.conn c).wake = some r → 1 ≤ r.len ∧ (s.conn c).queue = []

theorem drainQueue_length_le (queue : List Bytes) (remaining : Nat) :
    (drainQueue queue remaining).1.flatten.length ≤ remaining := by
  induction queue generalizing remaining with
  | nil => exact Nat.zero_le _
  | cons head rest ih =>
      unfold drainQueue
      split
      · exact Nat.zero_le _
      · split
        · rw [List.flatten_singleton, List.length_take]
          exact Nat.min_le_left _ _
        · have hrest := ih (remaining - head.length)
          rw [List.flatten_cons, List.length_append]
          omega

/-- Neither what is written nor what is left has a chunk without bytes. -/
theorem drainQueue_chunks {queue : List Bytes} (hqueue : [] ∉ queue) (remaining : Nat) :
    [] ∉ (drainQueue queue remaining).1 ∧ [] ∉ (drainQueue queue remaining).2.1 := by
  induction queue generalizing remaining with
  | nil => exact ⟨List.not_mem_nil, List.not_mem_nil⟩
  | cons head rest ih =>
      rw [List.mem_cons, not_or] at hqueue
      obtain ⟨hhead, hrest⟩ := hqueue
      unfold drainQueue
      split
      · exact ⟨List.not_mem_nil, by simp [hhead, hrest]⟩
      · split
        · rename_i hpos hlt
          have htake : head.take remaining ≠ [] := by
            rw [ne_eq, List.take_eq_nil_iff, not_or]
            exact ⟨hpos, Ne.symm hhead⟩
          have hdrop : head.drop remaining ≠ [] := by
            rw [ne_eq, List.drop_eq_nil_iff]
            omega
          exact ⟨by simp [htake.symm], by simp [hdrop.symm, hrest]⟩
        · obtain ⟨hwrites, hleft⟩ := ih hrest (remaining - head.length)
          exact ⟨by simp [hhead, hwrites], hleft⟩

theorem drainQueue_writes {queue : List Bytes} {remaining : Nat} (hqueue : queue ≠ []) (h : 1 ≤ remaining) :
    (drainQueue queue remaining).1 ≠ [] := by
  cases queue with
  | nil => exact absurd rfl hqueue
  | cons head rest =>
      unfold drainQueue
      rw [if_neg (by omega)]
      split
      · exact List.cons_ne_nil _ _
      · exact List.cons_ne_nil _ _

theorem drain_nil (hqueue : (s.conn c).queue = []) (r : Recv) : s.drain c r = (0, s) := by
  have hconn : ({ s.conn c with queue := [], queuedBytes := (s.conn c).queuedBytes - (0 : Nat) } : Conn) =
      s.conn c := by
    rw [← hqueue]
    simp
  rw [Manager.drain, hqueue]
  simp only [drainQueue, hconn, update_eq_self, List.map_nil, List.append_nil]

/-- Where bytes wait, a call that asks for some is given some. -/
theorem drain_some (hchunks : [] ∉ (s.conn c).queue) (hqueue : (s.conn c).queue ≠ []) {r : Recv}
    (hr : 1 ≤ r.len) :
    ∃ (n : Nat) (queue writes : List Bytes), [] ∉ queue ∧ writes ≠ [] ∧ [] ∉ writes ∧
      writes.flatten.length ≤ r.len ∧
      s.drain c r = (n + 1, { s with
        conn := update s.conn c
          { s.conn c with queue := queue, queuedBytes := (s.conn c).queuedBytes - (n + 1 : Nat) }
        log := s.log ++ writes.map (.write c r.callback) }) := by
  have hwrites := drainQueue_writes hqueue hr
  obtain ⟨hsome, hleft⟩ := drainQueue_chunks hchunks r.len
  have hpos : 0 < (drainQueue (s.conn c).queue r.len).2.2 := by
    rw [drainQueue_written, List.length_pos_iff, ne_eq, List.flatten_eq_nil_iff]
    intro hall
    obtain ⟨head, hhead⟩ := List.exists_mem_of_ne_nil _ hwrites
    exact hsome (hall head hhead ▸ hhead)
  obtain ⟨n, hn⟩ := Nat.exists_eq_add_of_lt hpos
  rw [Nat.zero_add] at hn
  refine ⟨n, _, _, hleft, hwrites, hsome, drainQueue_length_le _ _, ?_⟩
  rw [← hn]
  rfl

/-! ### What a step says -/

/-- The act does not touch what waits on a connection, unless it empties it. -/
def Act.Calm : Act → Prop
  | .enqueue _ _ | .drain _ _ | .wake _ _ | .finish _ true => False
  | _ => True

/-- Neither bytes nor a `doneCB(true)`. -/
def Effect.Dull : Effect → Prop
  | .write _ _ _ | .recvDone _ true => False
  | _ => True

theorem Does.calm (h : Does o s a t) (ha : a.Calm) :
    (∃ effects, t.log = s.log ++ effects ∧ ∀ effect ∈ effects, effect.Dull) ∧
      ∀ c, ((t.conn c).queue = (s.conn c).queue ∨ (t.conn c).queue = []) ∧
        ((t.conn c).wake = (s.conn c).wake ∨ (t.conn c).wake = none) := by
  constructor
  · cases h with
    | quiet nextFd registrations effects hplain =>
        refine ⟨effects, rfl, fun effect hmem => ?_⟩
        have heffect := hplain effect hmem
        cases effect with
        | event => trivial
        | _ => exact heffect.elim
    | kill c' =>
        refine ⟨_, (List.append_assoc _ _ _).trans (List.append_assoc _ _ _), ?_⟩
        simp [or_imp, forall_and, Effect.Dull]
    | finish recv ok =>
        cases ok with
        | false => exact ⟨_, rfl, by simp [Effect.Dull]⟩
        | true => exact ha.elim
    | enqueue | drain | wake => exact ha.elim
    | refuse | incoming | outgoing | accept | connected | release => exact ⟨_, rfl, by simp [Effect.Dull]⟩
    | park | serve | send | hangUp => exact ⟨[], (List.append_nil _).symm, by simp⟩
  · intro c
    cases h with
    | enqueue | drain | wake => exact ha.elim
    | incoming | outgoing | connected | kill =>
        dsimp only
        rw [update_apply]
        split
        · simp_all
        · exact ⟨.inl rfl, .inl rfl⟩
    | _ => exact ⟨.inl rfl, .inl rfl⟩

theorem Acts.calm {P : Manager → Prop} (h : Acts o s as t) (has : ∀ a ∈ as, a.Calm)
    (hkeep : ∀ s a t, P s → Does o s a t → a.Calm → P t) (hs : P s) : P t := by
  induction h with
  | nil => exact hs
  | cons hdoes _ ih =>
      apply ih _ (hkeep _ _ _ hs hdoes (has _ List.mem_cons_self))
      exact fun a ha => has a (List.mem_cons_of_mem _ ha)

/-- What a step does to the callers of `recv()`. -/
inductive Feeds (o : Options) (s : Manager) : Event → Manager → Prop where
  | calm (e : Event) (as : List Act) (t : Manager) (hacts : Acts o s as t) (has : ∀ a ∈ as, a.Calm) :
      Feeds o s e t
  | parks (c : ConnId) (len : Nat) (callback : Callback) (hlive : s.Live c)
      (hqueue : (s.conn c).queue = []) :
      Feeds o s (.recv (s.conn c).fd len callback)
        (s.setConn c { s.conn c with wake := some ⟨(s.conn c).fd, len, callback⟩ })
  | queues (c : ConnId) (e : Event) (conn : Conn) (hlive : s.Live c) (hchunks : [] ∉ conn.queue)
      (hwake : conn.wake = none) (hbefore : (s.conn c).wake = none) :
      Feeds o s e (s.setConn c conn)
  | serves (c : ConnId) (r : Recv) (e : Event) (t : Manager) (conn : Conn) (writes : List Bytes)
      (hlive : s.Live c) (hcreated : t.created = s.created) (hconn : t.conn = update s.conn c conn)
      (hlog : t.log = s.log ++ writes.map (.write c r.callback) ++ [.recvDone r.callback true])
      (hchunks : [] ∉ conn.queue) (hwake : conn.wake = none) (hwrites : writes ≠ []) (hsome : [] ∉ writes)
      (hle : writes.flatten.length ≤ r.len)
      (hcall : e = .recv (s.conn c).fd r.len r.callback ∨ (s.conn c).wake = some r) : Feeds o s e t

theorem recv_feeds (hinv : Inv o s) (hfed : Fed s) (fd : Nat) {len : Nat} (hlen : 1 ≤ len)
    (callback : Callback) : Feeds o s (.recv fd len callback) (s.recv fd len callback) := by
  have hrefused : Feeds o s (.recv fd len callback) (s.push (.recvDone callback false)) :=
    .calm _ [.finish callback false] _ (Does.finish callback false).acts (by simp [Act.Calm])
  unfold Manager.recv
  cases hget : s.conns.get fd with
  | none => exact hrefused
  | some c =>
      obtain ⟨hlt, rfl, -⟩ := hinv.of_get fd c hget
      dsimp only
      split
      · exact hrefused
      · rename_i hopen
        have hlive : s.Live c := ⟨hlt, by simpa using hopen⟩
        by_cases hqueue : (s.conn c).queue = []
        · rw [drain_nil hqueue]
          exact .parks c len callback hlive hqueue
        · have hwake : (s.conn c).wake = none := by
            by_contra hwake
            obtain ⟨r, hr⟩ := Option.ne_none_iff_exists'.mp hwake
            exact hqueue (hfed.parked c r hr).2
          obtain ⟨n, queue, writes, hleft, hwrites, hsome, hle, hdrain⟩ :=
            drain_some (r := ⟨(s.conn c).fd, len, callback⟩) (hfed.chunks c) hqueue hlen
          rw [hdrain]
          exact .serves c ⟨(s.conn c).fd, len, callback⟩ _ _ _ writes hlive rfl rfl rfl hleft hwake hwrites
            hsome hle (.inl rfl)

theorem data_feeds (hinv : Inv o s) (hfed : Fed s) (sender : String) (bytes : Bytes) :
    Feeds o s (.message ⟨sender, o.nodeId, .data bytes⟩) (s.handleData sender bytes) := by
  unfold Manager.handleData
  cases hget : s.byRemote.get sender with
  | none => exact .calm _ [] _ (.nil s) (by simp)
  | some c =>
      have hlive := ((hinv.byRemote_iff _ _).mp hget).1
      dsimp only
      split
      · exact .calm _ [] _ (.nil s) (by simp)
      · rename_i hbytes
        have hchunks : [] ∉ (s.conn c).queue ++ [bytes] := by
          simpa [hfed.chunks c, eq_comm] using hbytes
        unfold Manager.wakeUp
        cases hwake : (s.conn c).wake with
        | none =>
            simp only [Manager.setConn_conn, update_self]
            exact .queues c _ _ hlive hchunks rfl hwake
        | some r =>
            obtain ⟨hlen, hqueue⟩ := hfed.parked c r hwake
            have hr := hinv.wake c r hwake
            have hconns := hinv.get_of_live c hlive
            simp only [Manager.setConn_conn, update_self]
            generalize hu : (s.setConn c _).setConn c _ = u
            have hself : u.conn c = { s.conn c with
                queue := [bytes]
                queuedBytes := (s.conn c).queuedBytes + bytes.length
                wake := none } := by
              simp [← hu, hqueue]
            obtain ⟨n, queue, writes, hleft, hwrites, hsome, hle, hdrain⟩ := drain_some (s := u) (c := c)
              (by simpa [hself, eq_comm] using hbytes) (by simp [hself]) hlen
            have hopen : ¬ (u.conns.get r.fd ≠ some c ∨ (u.conn c).closed = true) := by
              simp [← hu, hr, hconns, hlive.2]
            rw [Manager.runWake, if_neg hopen, hdrain, hself]
            refine .serves c r _ _ { s.conn c with
              queue := queue
              queuedBytes := (s.conn c).queuedBytes + bytes.length - (n + 1 : Nat)
              wake := none } writes hlive ?_ ?_ ?_ hleft rfl hwrites hsome hle (.inr hwake)
            · simp [← hu]
            · funext c'
              simp [← hu, Manager.setConn]
            · simp [← hu]

theorem step_feeds (hinv : Inv o s) (hfed : Fed s) {e : Event} (he : e.Asks) : Feeds o s e (s.step o e) := by
  obtain ⟨as, hmoves, hacts⟩ := step_moves hinv e
  cases hmoves with
  | recvRefused fd len callback | recv c bytes len callback | recvParked c bytes len callback =>
      exact recv_feeds hinv hfed _ he _
  | data c sender bytes as hget hbytes has =>
      have hdata := data_feeds hinv hfed sender bytes
      rw [Manager.step, Manager.onMessage, if_neg (by simp)]
      exact hdata
  | _ => exact .calm _ _ _ hacts (by simp [or_imp, forall_and, Act.Calm, Manager.kills])

/-! ### What every step keeps -/

theorem Fed.of_same (hs : Fed s) (h : ∀ c, ((t.conn c).queue = (s.conn c).queue ∨ (t.conn c).queue = []) ∧
    ((t.conn c).wake = (s.conn c).wake ∨ (t.conn c).wake = none)) : Fed t := by
  constructor
  · intro c
    rcases (h c).1 with hqueue | hqueue
    · rw [hqueue]
      exact hs.chunks c
    · rw [hqueue]
      exact List.not_mem_nil
  · intro c r hwake
    obtain ⟨hqueue, hsame | hnone⟩ := h c
    · obtain ⟨hlen, hempty⟩ := hs.parked c r (hsame ▸ hwake)
      exact ⟨hlen, hqueue.elim (fun hqueue => hqueue.trans hempty) id⟩
    · rw [hnone] at hwake
      cases hwake

theorem Fed.of_update (hs : Fed s) {conn : Conn} (hconn : t.conn = update s.conn c conn)
    (hchunks : [] ∉ conn.queue) (hparked : ∀ r, conn.wake = some r → 1 ≤ r.len ∧ conn.queue = []) : Fed t := by
  have hcases : ∀ c', t.conn c' = conn ∨ t.conn c' = s.conn c' := by
    intro c'
    rw [hconn, update_apply]
    split
    · exact .inl rfl
    · exact .inr rfl
  constructor
  · intro c'
    rcases hcases c' with h | h <;> rw [h]
    · exact hchunks
    · exact hs.chunks c'
  · intro c' r hwake
    rcases hcases c' with h | h <;> rw [h] at hwake ⊢
    · exact hparked r hwake
    · exact hs.parked c' r hwake

theorem Feeds.fed (h : Feeds o s e t) (hs : Fed s) (he : e.Asks) : Fed t := by
  cases h with
  | calm _ as _ hacts has => exact hacts.calm has (fun _ _ _ hu hdoes ha => hu.of_same (hdoes.calm ha).2) hs
  | parks c len callback hlive hqueue =>
      refine hs.of_update rfl (by simp [hqueue]) ?_
      rintro r ⟨⟩
      exact ⟨he, hqueue⟩
  | queues c _ conn hlive hchunks hwake => exact hs.of_update rfl hchunks (by simp [hwake])
  | serves c r _ _ conn writes _ _ hconn _ hchunks hwake =>
      exact hs.of_update hconn hchunks (by simp [hwake])

theorem Backed.append {log effects : List Effect} (h : Backed log)
    (heffects : ∀ x, .recvDone x true ∉ effects) : Backed (log ++ effects) := by
  intro before x after hsplit
  rcases List.append_eq_append_iff.mp hsplit with ⟨rest, -, hrest⟩ | ⟨rest, hlog, hrest⟩
  · exact absurd (by simp [hrest]) (heffects x)
  · cases rest with
    | nil =>
        rw [List.nil_append] at hrest
        exact absurd (by simp [← hrest]) (heffects x)
    | cons effect rest =>
        rw [List.cons_append, List.cons.injEq] at hrest
        exact h before x rest (by rw [hlog, hrest.1])

theorem Backed.served {log : List Effect} (h : Backed log) {writes : List Bytes} (hwrites : writes ≠ [])
    (hsome : [] ∉ writes) (c : ConnId) (x : Callback) :
    Backed (log ++ writes.map (.write c x) ++ [.recvDone x true]) := by
  intro before x' after hsplit
  rcases List.eq_nil_or_concat after with rfl | ⟨after, effect, rfl⟩
  · obtain ⟨hbefore, hlast⟩ := List.append_inj' hsplit rfl
    obtain ⟨writes', bytes, rfl⟩ := (List.eq_nil_or_concat writes).resolve_left hwrites
    simp only [List.cons.injEq, Effect.recvDone.injEq, and_true] at hlast
    refine ⟨log ++ writes'.map (.write c x), c, bytes, ?_, ?_⟩
    · rw [← hbefore, ← hlast, List.concat_eq_append, List.map_append, ← List.append_assoc]
      rfl
    · intro hbytes
      exact hsome (by simp [hbytes])
  · rw [List.concat_eq_append, ← List.cons_append, ← List.append_assoc] at hsplit
    have hwritten : Backed (log ++ writes.map (.write c x)) := h.append (by simp)
    exact hwritten before x' after (List.append_inj_left' hsplit rfl)

theorem Feeds.backed (h : Feeds o s e t) (hs : Backed s.log) : Backed t.log := by
  cases h with
  | calm _ as _ hacts has =>
      apply hacts.calm (P := fun u => Backed u.log) has _ hs
      intro u a v hu hdoes ha
      obtain ⟨⟨effects, hlog, hdull⟩, -⟩ := hdoes.calm ha
      exact hlog ▸ hu.append fun x hmem => (hdull _ hmem).elim
  | parks | queues => exact hs
  | serves c r _ _ conn writes _ _ _ hlog _ _ hwrites hsome =>
      rw [hlog]
      exact hs.served hwrites hsome c r.callback

/-! ### What a call may get -/

/-- What the parked `recv()` of a connection may write still. -/
def Conn.granted (conn : Conn) : List Callback :=
  conn.wake.toList.flatMap fun r => List.replicate r.len r.callback

theorem count_granted (conn : Conn) (x : Callback) :
    conn.granted.count x = (conn.wake.map fun r => if r.callback = x then r.len else 0).getD 0 := by
  rw [Conn.granted]
  cases conn.wake with
  | none => rfl
  | some r => simp [List.count_replicate]

/-- The bytes that were written for `x`, and those that may be. -/
def spent (s : Manager) (x : Callback) : Nat := (writtenFor s x).length + (stored Conn.granted s).count x

theorem writtenFor_append {effects : List Effect} (h : t.log = s.log ++ effects) (x : Callback) :
    writtenFor t x = writtenFor s x ++ effects.flatMap (Effect.bytesFor x) := by
  rw [writtenFor, h, List.flatMap_append]
  rfl

theorem writtenFor_dull {effects : List Effect} (h : t.log = s.log ++ effects)
    (hdull : ∀ effect ∈ effects, effect.Dull) (x : Callback) : writtenFor t x = writtenFor s x := by
  have hnone : effects.flatMap (Effect.bytesFor x) = [] := by
    rw [List.flatMap_eq_nil_iff]
    intro effect hmem
    have heffect := hdull effect hmem
    cases effect with
    | write => exact heffect.elim
    | _ => rfl
  rw [writtenFor_append h, hnone, List.append_nil]

theorem Does.spent_le (hinv : Inv o s) (hobjects : Objects s) (h : Does o s a t) (ha : a.Calm) (x : Callback) :
    spent t x ≤ spent s x := by
  obtain ⟨⟨effects, hlog, hdull⟩, hconn⟩ := h.calm ha
  have hstored := h.stored hinv Conn.granted x
  have hle : (a.after Conn.granted t).count x ≤ (a.before Conn.granted s).count x := by
    cases hc : a.conn? with
    | none => simp [Act.after, hc]
    | some c =>
        simp only [Act.after, Act.before, hc]
        rcases (hconn c).2 with hwake | hwake
        · rw [count_granted, hwake, ← count_granted]
          split
          · exact Nat.le_refl _
          · rename_i hlt
            have hnone := (hobjects.tombstone c (hobjects.unmade c (Nat.not_lt.mp hlt))).2.1
            simp [count_granted, hnone]
        · simp [count_granted, hwake]
  rw [spent, spent, writtenFor_dull hlog hdull]
  omega

theorem flatMap_bytesFor (writes : List Bytes) (c : ConnId) (callback x : Callback) :
    (writes.map (.write c callback)).flatMap (Effect.bytesFor x) =
      if callback = x then writes.flatten else [] := by
  induction writes with
  | nil => simp
  | cons bytes writes ih =>
      rw [List.map_cons, List.flatMap_cons, ih, List.flatten_cons, Effect.bytesFor]
      split <;> rfl

theorem count_granted_none {conn : Conn} (h : conn.wake = none) (x : Callback) :
    conn.granted.count x = 0 := by
  rw [count_granted, h]
  rfl

theorem count_granted_some {conn : Conn} {r : Recv} (h : conn.wake = some r) (x : Callback) :
    conn.granted.count x = if r.callback = x then r.len else 0 := by
  rw [count_granted, h]
  rfl

theorem count_granted_setConn (hc : c < s.created) (conn : Conn) (x : Callback) :
    (stored Conn.granted (s.setConn c conn)).count x + (s.conn c).granted.count x =
      (stored Conn.granted s).count x + conn.granted.count x :=
  count_stored_update (s := s) (t := s.setConn c conn) rfl rfl hc x

theorem Feeds.spent_le (hinv : Inv o s) (hobjects : Objects s) (h : Feeds o s e t) (x : Callback) :
    spent t x ≤ spent s x + e.grants x := by
  cases h with
  | calm _ as _ hacts has =>
      have hkept := hacts.calm (P := fun u => Inv o u ∧ Objects u ∧ spent u x ≤ spent s x) has
        (fun _ _ _ hu hdoes ha => ⟨hu.1.does hdoes, hu.2.1.does hu.1 hdoes,
          Nat.le_trans (hdoes.spent_le hu.1 hu.2.1 ha x) hu.2.2⟩)
        ⟨hinv, hobjects, Nat.le_refl _⟩
      omega
  | parks c len callback hlive hqueue =>
      generalize hconn : ({ s.conn c with wake := some ⟨(s.conn c).fd, len, callback⟩ } : Conn) = conn
      have hwake : conn.wake = some ⟨(s.conn c).fd, len, callback⟩ := by rw [← hconn]
      have hstored := count_granted_setConn hlive.1 conn x
      rw [count_granted_some hwake] at hstored
      dsimp only at hstored
      rw [spent, spent, Event.grants]
      show (writtenFor s x).length + _ ≤ _
      omega
  | queues c _ conn hlive hchunks hwake hbefore =>
      have hstored := count_granted_setConn hlive.1 conn x
      rw [count_granted_none hwake, count_granted_none hbefore] at hstored
      rw [spent, spent]
      show (writtenFor s x).length + _ ≤ _
      omega
  | serves c r _ _ conn writes hlive hcreated hconn hlog hchunks hwake hwrites hsome hle hcall =>
      have hstored := count_stored_update (f := Conn.granted) hcreated hconn hlive.1 x
      have hwritten := writtenFor_append (hlog.trans (List.append_assoc _ _ _)) x
      rw [List.flatMap_append, flatMap_bytesFor] at hwritten
      rw [count_granted_none hwake] at hstored
      have hcount : (if r.callback = x then r.len else 0) ≤ (s.conn c).granted.count x + e.grants x := by
        rcases hcall with rfl | hparked
        · exact Nat.le_add_left _ _
        · rw [count_granted_some hparked]
          exact Nat.le_add_right _ _
      have hlength : (writtenFor t x).length ≤ (writtenFor s x).length + if r.callback = x then r.len else 0 := by
        rw [hwritten]
        split
        · simpa [Effect.bytesFor, -List.length_flatten] using hle
        · simp [Effect.bytesFor]
      rw [spent, spent]
      omega

/-! ### A run -/

/-- What is known after a run in which no `recv()` asks for nothing. -/
structure Ready (o : Options) (es : List Event) (s : Manager) : Prop where
  inv : Inv o s
  objects : Objects s
  fed : Fed s
  backed : Backed s.log
  spent : ∀ x, spent s x ≤ (es.map (Event.grants x)).sum
  conveys : ∀ c, Conveys s c (applied o c .initial es)

theorem Ready.initial : Ready o [] .initial := by
  refine ⟨.initial, .initial, ⟨fun _ => List.not_mem_nil, ?_⟩, ?_, fun _ => Nat.le_refl _, fun c => ⟨?_, ?_, ?_⟩⟩
  · rintro c r ⟨⟩
  · intro before x after hlog
    simp [Manager.initial] at hlog
  · intro hlive
    exact absurd hlive.1 (Nat.not_lt_zero c)
  · exact List.prefix_rfl
  · exact fun _ => rfl

theorem Ready.step (hrun : (manager o).run .initial es = some s) (hs : Ready o es s) (he : e.Asks) :
    Ready o (es ++ [e]) (s.step o e) := by
  rw [run_eq_foldl, Option.some.injEq] at hrun
  obtain ⟨as, hmoves, hacts⟩ := step_moves hs.inv e
  have hfeeds := step_feeds hs.inv hs.fed he
  refine ⟨hs.inv.acts hacts, hs.objects.acts hs.inv hacts, hfeeds.fed hs.fed he, hfeeds.backed hs.backed, ?_, ?_⟩
  · intro x
    rw [List.map_append, List.sum_append, List.map_singleton, List.sum_singleton]
    exact Nat.le_trans (hfeeds.spent_le hs.inv hs.objects x) (Nat.add_le_add_right (hs.spent x) _)
  · intro c
    rw [applied_concat, hrun, ← hmoves.brings c]
    exact (hs.conveys c).acts hacts

/-- The bytes on their way through the connections. -/
structure Streams (o : Options) (es : List Event) (s : Manager) : Prop where
  /-- What came out of a live connection and what waits on it is what was put in. -/
  received : ∀ c, s.Live c → yielded s c ++ (s.conn c).queue.flatten = applied o c .initial es
  /-- Nothing else ever comes out, also when it is a tombstone since. -/
  delivered : ∀ c, yielded s c <+: applied o c .initial es
  granted : ∀ x, (writtenFor s x).length ≤ (es.map (Event.grants x)).sum
  backed : Backed s.log
  parked : ∀ c, (s.conn c).wake ≠ none → (s.conn c).queue = []
  /-- What one call of `send()` takes. -/
  sends : ∀ c data, s.Live c → data ≠ [] → ∃ n : Nat, (s.send o (s.conn c).fd data none).1 = n ∧ 1 ≤ n ∧
    n ≤ SEND_CHUNK_BYTES ∧ n ≤ data.length
  /-- What the calls of `send()` in a row come to. -/
  drives : ∀ c data between, s.Live c → (∀ n, ∀ e ∈ between n, Spared (s.conn c).fd e) →
    Drives o (s.conn c).fd c (sentOn s c) data 0 (sendPeerRetry o (s.conn c).fd between 0 s data)

theorem byte_stream (hasks : ∀ e ∈ es, e.Asks) (hrun : (manager o).run .initial es = some s) :
    Streams o es s := by
  have hready : (∀ e ∈ es, e.Asks) → Ready o es s := by
    refine run_history_along (P := fun es s => (∀ e ∈ es, e.Asks) → Ready o es s) (fun _ => .initial) ?_
      (along_of_forall (fun _ _ => trivial) Manager.initial es) hrun
    intro es s e t hrun hs _ hstep hall
    cases hstep
    exact (hs fun f hf => hall f (by simp [hf])).step hrun (hall e (by simp))
  obtain ⟨hinv, hobjects, hfed, hbacked, hspent, hconveys⟩ := hready hasks
  constructor
  · exact fun c => (hconveys c).live
  · exact fun c => (hconveys c).yielded
  · exact fun x => Nat.le_trans (Nat.le_add_right _ _) (hspent x)
  · exact hbacked
  · intro c hwake
    obtain ⟨r, hr⟩ := Option.ne_none_iff_exists'.mp hwake
    exact (hfed.parked c r hr).2
  · intro c data hlive hdata
    obtain ⟨htake, hone⟩ := send_live (o := o) (hinv.get_of_live c hlive) hlive.2 hdata
    exact ⟨_, htake, hone, Nat.min_le_left _ _, Nat.min_le_right _ _⟩
  · intro c data between hlive hbetween
    exact sendPeerRetry_drives ⟨hinv, hinv.get_of_live c hlive, rfl⟩ hbetween 0

/-- A `recv()` that waits for the first of two frames gets one byte less than it brings. -/
def splitFrame : List Event :=
  [.message ⟨"b", "a", .connect⟩, .recv 0 2 7, .message ⟨"b", "a", .data [1, 2, 3]⟩,
    .message ⟨"b", "a", .data [4, 5]⟩, .recv 0 2 8]

theorem byte_stream_splitFrame : ∃ s, Streams ⟨"a", 4⟩ splitFrame s ∧ writtenFor s 7 = [1, 2] ∧
    writtenFor s 8 = [3, 4] ∧ (s.conn 0).queue = [[5]] := by
  have hasks : ∀ e ∈ splitFrame, e.Asks := by decide
  exact ⟨_, byte_stream hasks rfl, by decide⟩

end LlmRuntime.PeerManager

import LlmRuntime.PeerManager.Representation
import Mathlib.Data.List.Basic

/-!
# No callback is lost

A callback of the Runtime is in one place at a time: in `acceptWaiters`, on its connection, or in the log
of the calls. The acts move it from one to the next, and `Kept` is what that comes to after a run in which
`recv()` is not called while another one waits on the same connection.
-/

namespace LlmRuntime.PeerManager

open Function Transition

namespace Event

def accept? : Event → Option Callback
  | .accept done => some done
  | _ => none

def connect? : Event → Option Callback
  | .connect _ done => some done
  | _ => none

def recv? : Event → Option Callback
  | .recv _ _ callback => some callback
  | _ => none

end Event

namespace Effect

def acceptDone? : Effect → Option Callback
  | .acceptDone _ done _ => some done
  | _ => none

/-- The connection that an `accept()` was given. -/
def accepted? : Effect → Option ConnId
  | .acceptDone c _ _ => some c
  | _ => none

def connectDone? : Effect → Option Callback
  | .connectDone _ done _ => some done
  | _ => none

def recvDone? : Effect → Option Callback
  | .recvDone callback _ => some callback
  | _ => none

/-- The call of the `done` that was stored on connection `c`, with the number it was given. -/
def answer? (c : ConnId) : Effect → Option (Callback × Int)
  | .connectDone c' done fd => if c' = some c then some (done, fd) else none
  | _ => none

end Effect

/-- What the connections store. -/
def stored (f : Conn → List Callback) (s : Manager) : List Callback :=
  (List.range s.created).flatMap fun c => f (s.conn c)

/-- The `done` of every `connect()` that waits for its answer. -/
def dialling (s : Manager) : List Callback := stored (fun conn => conn.accepted.toList) s

/-- The `doneCB` of every `recv()` that is parked. -/
def parked (s : Manager) : List Callback := stored (fun conn => conn.wake.toList.map Recv.callback) s

def answers (s : Manager) (c : ConnId) : List (Callback × Int) := (calls s).filterMap (Effect.answer? c)

/-- Connection `c` was made by a `connect()` with this `done`. -/
def Dialled (o : Options) (es : List Event) (c : ConnId) (done : Callback) : Prop :=
  ∃ es₁ remoteId es₂ u, es = es₁ ++ .connect remoteId done :: es₂ ∧
    (manager o).run .initial es₁ = some u ∧ u.created = c ∧ c < (u.connect o remoteId done).created

/-- Where the `done` of connection `c` is: on the connection, or called once. -/
def Settled (s : Manager) (c : ConnId) (done : Callback) : Prop :=
  s.Live c ∧ (s.conn c).accepted = some done ∧ answers s c = [] ∨
    (s.conn c).accepted = none ∧ (answers s c = [(done, ((s.conn c).fd : Int))] ∨
      (s.conn c).closed = true ∧ answers s c = [(done, -1)])

structure Kept (o : Options) (es : List Event) (s : Manager) : Prop where
  /-- The callbacks of `accept()` in the order in which they were passed: the called ones, then the waiting. -/
  accepts : es.filterMap Event.accept? = (calls s).filterMap Effect.acceptDone? ++ s.acceptWaiters
  given_once : ((calls s).filterMap Effect.accepted?).Nodup
  connects : (es.filterMap Event.connect?).Perm ((calls s).filterMap Effect.connectDone? ++ dialling s)
  settled : ∀ c done, Dialled o es c done → Settled s c done
  /-- Without a free number. -/
  refused : ∀ done fd, .connectDone none done fd ∈ calls s → fd = -1
  recvs : (es.filterMap Event.recv?).Perm ((calls s).filterMap Effect.recvDone? ++ parked s)
  parked_live : ∀ c, (s.conn c).wake ≠ none → s.Live c
  close_keeps : s.close.acceptWaiters = s.acceptWaiters

/-- What one step from `s` to `t` calls. -/
structure Answers (s : Manager) (e : Event) (t : Manager) (called : List Effect) : Prop where
  accept : ∀ c done fd, .acceptDone c done fd ∈ called →
    t.Live c ∧ (t.conn c).fd = fd ∧ ¬ Accepted s c
  /-- A parked `recv()` stays, or is told whether its connection is open still. -/
  woken : ∀ c r, (s.conn c).wake = some r →
    (t.conn c).wake = some r ∨ .recvDone r.callback (!(t.conn c).closed) ∈ called
  refused : ∀ fd len callback, e = .recv fd len callback →
    (∀ c, s.conns.get fd = some c → (s.conn c).closed = true) → .recvDone callback false ∈ called

/-- The Runtime does not call `recv()` on a number on which another one is parked. -/
def OneRecv (s : Manager) : Event → Prop
  | .recv fd _ _ => ∀ c ∈ s.conns.get fd, (s.conn c).wake = none
  | _ => True

instance (s : Manager) (e : Event) : Decidable (OneRecv s e) := by
  unfold OneRecv
  split <;> infer_instance

variable {o : Options} {s t u : Manager} {a : Act} {as : List Act} {c : ConnId} {x : Callback}

/-! ### What is stored -/

theorem stored_congr {f : Conn → List Callback} (hcreated : t.created = s.created)
    (hconn : ∀ c < s.created, f (t.conn c) = f (s.conn c)) : stored f t = stored f s := by
  rw [stored, stored, hcreated, List.flatMap_congr]
  intro c hc
  exact hconn c (List.mem_range.mp hc)

theorem stored_succ {f : Conn → List Callback} {conn : Conn} (hcreated : t.created = s.created + 1)
    (hconn : t.conn = update s.conn s.created conn) : stored f t = stored f s ++ f conn := by
  rw [stored, hcreated, List.range_succ, List.flatMap_append, List.flatMap_singleton, hconn, update_self,
    stored]
  congr 1
  apply List.flatMap_congr
  intro c hc
  rw [update_of_ne (Nat.ne_of_lt (List.mem_range.mp hc))]

theorem count_flatMap_update {conn : ConnId → Conn} {n : Nat} (f : Conn → List Callback) (hc : c < n)
    (new : Conn) (x : Callback) :
    ((List.range n).flatMap fun c' => f (update conn c new c')).count x + (f (conn c)).count x =
      ((List.range n).flatMap fun c' => f (conn c')).count x + (f new).count x := by
  induction n with
  | zero => exact absurd hc (Nat.not_lt_zero c)
  | succ n ih =>
      simp only [List.range_succ, List.flatMap_append, List.flatMap_singleton, List.count_append]
      by_cases hn : c = n
      · subst hn
        have hsame : ((List.range c).flatMap fun c' => f (update conn c new c')) =
            (List.range c).flatMap fun c' => f (conn c') := by
          apply List.flatMap_congr
          intro c' hc'
          rw [update_of_ne (Nat.ne_of_lt (List.mem_range.mp hc'))]
        rw [hsame, update_self]
        omega
      · have hrest := ih (Nat.lt_of_le_of_ne (Nat.le_of_lt_succ hc) hn)
        rw [update_of_ne (Ne.symm hn)]
        omega

theorem count_stored_update {f : Conn → List Callback} {conn : Conn} (hcreated : t.created = s.created)
    (hconn : t.conn = update s.conn c conn) (hc : c < s.created) (x : Callback) :
    (stored f t).count x + (f (s.conn c)).count x = (stored f s).count x + (f conn).count x := by
  rw [stored, stored, hcreated, hconn]
  exact count_flatMap_update f hc conn x

/-- What the connection of an act stores before it. -/
def Act.before (f : Conn → List Callback) (s : Manager) (a : Act) : List Callback :=
  match a.conn? with
  | none => []
  | some c => if c < s.created then f (s.conn c) else []

/-- What the connection of an act stores after it. -/
def Act.after (f : Conn → List Callback) (t : Manager) (a : Act) : List Callback :=
  match a.conn? with
  | none => []
  | some c => f (t.conn c)

theorem Does.stored (hinv : Inv o s) (h : Does o s a t) (f : Conn → List Callback) (x : Callback) :
    (stored f t).count x + (a.before f s).count x = (stored f s).count x + (a.after f t).count x := by
  cases hc : a.conn? with
  | none =>
      have hcreated : t.created = s.created := by
        rcases h.opens_or hinv with ⟨hcreated, -⟩ | ⟨-, hopens⟩
        · exact hcreated
        · rw [hc] at hopens
          cases hopens
      have hconn : ∀ c < s.created, f (t.conn c) = f (s.conn c) := by
        intro c _
        rw [h.conn_of_ne (by rw [hc]; exact Option.some_ne_none c |>.symm)]
      rw [stored_congr hcreated hconn]
      simp only [Act.before, Act.after, hc]
  | some c =>
      have hconn : t.conn = update s.conn c (t.conn c) := by
        funext c'
        by_cases hne : c' = c
        · rw [hne, update_self]
        · rw [update_of_ne hne]
          apply h.conn_of_ne
          rw [hc]
          exact fun heq => hne (Option.some.inj heq).symm
      simp only [Act.before, Act.after, hc]
      rcases h.opens_or hinv with ⟨hcreated, hlt⟩ | ⟨hcreated, hopens⟩
      · rw [if_pos (hlt c hc)]
        exact count_stored_update hcreated hconn (hlt c hc) x
      · rw [hc, Option.some.injEq] at hopens
        subst hopens
        rw [if_neg (Nat.lt_irrefl _), stored_succ hcreated hconn, List.count_append]
        rfl

/-- How often a callback was called or is stored. -/
def total (call? : Effect → Option Callback) (f : Conn → List Callback) (s : Manager) (x : Callback) : Nat :=
  ((calls s).filterMap call?).count x + (stored f s).count x

theorem Does.total (hinv : Inv o s) (h : Does o s a t) (call? : Effect → Option Callback)
    (f : Conn → List Callback) (x : Callback) :
    total call? f t x + (a.before f s).count x =
      total call? f s x + (a.after f t).count x + ((a.calls s).filterMap call?).count x := by
  have hstored := h.stored hinv f x
  have hcalls := congrArg (fun l => (l.filterMap call?).count x) h.calls
  simp only [List.filterMap_append, List.count_append] at hcalls
  rw [PeerManager.total, PeerManager.total]
  omega

/-! ### `connect()` -/

/-- The `done` that an act brings in. -/
def Act.dials : Act → List Callback
  | .refuse done | .outgoing _ _ done => [done]
  | _ => []

/-- How often a `done` of `connect()` was called or is stored. -/
def dialTotal (s : Manager) (x : Callback) : Nat :=
  total Effect.connectDone? (fun conn => conn.accepted.toList) s x

theorem Does.dials (hinv : Inv o s) (h : Does o s a t) (x : Callback) :
    dialTotal t x = dialTotal s x + a.dials.count x := by
  have htotal := h.total hinv Effect.connectDone? (fun conn => conn.accepted.toList) x
  rw [dialTotal, dialTotal]
  cases h with
  | release c hget =>
      have hlt := (hinv.of_get _ c hget).1
      simpa [Act.before, Act.after, Act.conn?, Act.calls, Act.dials, hlt] using htotal
  | connected c done hlive hwait =>
      simpa [Act.before, Act.after, Act.conn?, Act.calls, Act.dials, hlive.1, hwait, Effect.connectDone?,
        List.filterMap_cons] using htotal
  | kill c hlive =>
      have hcalls : (Act.calls s (.kill c)).filterMap Effect.connectDone? = (s.conn c).accepted.toList := by
        rw [Act.calls]
        cases (s.conn c).wake <;> cases (s.conn c).accepted <;> rfl
      rw [hcalls] at htotal
      simpa [Act.before, Act.after, Act.conn?, Act.dials, hlive.1] using htotal
  | accept c _ hlive | send c _ hlive | hangUp c hlive | enqueue c _ hlive | drain c _ _ _ hlive
  | wake c _ hlive =>
      simpa [Act.before, Act.after, Act.conn?, Act.calls, Act.dials, hlive.1, Effect.connectDone?,
        List.filterMap_cons] using htotal
  | _ =>
      simpa [Act.before, Act.after, Act.conn?, Act.calls, Act.dials, Effect.connectDone?,
        List.filterMap_cons] using htotal

theorem Acts.dials (hinv : Inv o s) (h : Acts o s as t) (x : Callback) :
    dialTotal t x = dialTotal s x + (as.flatMap Act.dials).count x := by
  induction h with
  | nil => rfl
  | cons hdoes _ ih =>
      rw [ih (hinv.does hdoes), hdoes.dials hinv, List.flatMap_cons, List.count_append]
      omega

theorem dials_step (hinv : Inv o s) (e : Event) (x : Callback) :
    dialTotal (s.step o e) x = dialTotal s x + e.connect?.toList.count x := by
  obtain ⟨as, hmoves, hacts⟩ := step_moves hinv e
  have hkills : ∀ remoteId, (s.kills remoteId).flatMap Act.dials = [] := by
    intro remoteId
    simp [Manager.kills, Act.dials]
  have hdials : as.flatMap Act.dials = e.connect?.toList := by
    cases hmoves with
    | data c sender bytes as hget hbytes has => cases has <;> rfl
    | close cs => simp [Act.dials, Event.connect?]
    | _ => simp [hkills, Act.dials, Event.connect?]
  rw [hacts.dials hinv, hdials]

/-! ### `recv()` -/

/-- How often a `doneCB` of `recv()` was called or is parked. -/
def askTotal (s : Manager) (x : Callback) : Nat :=
  total Effect.recvDone? (fun conn => conn.wake.toList.map Recv.callback) s x

/-- The `doneCB` that an act calls or parks. -/
def Act.asks : Act → List Callback
  | .finish callback _ => [callback]
  | .wake _ recv => recv.toList.map Recv.callback
  | _ => []

/-- The `doneCB` that an act takes off its connection. -/
def Act.takes (s : Manager) : Act → List Callback
  | .wake c _ => (s.conn c).wake.toList.map Recv.callback
  | _ => []

theorem Does.asks (hinv : Inv o s) (h : Does o s a t) (x : Callback) :
    askTotal t x + (a.takes s).count x = askTotal s x + a.asks.count x := by
  have htotal := h.total hinv Effect.recvDone? (fun conn => conn.wake.toList.map Recv.callback) x
  rw [askTotal, askTotal]
  cases h with
  | release c hget =>
      have hlt := (hinv.of_get _ c hget).1
      simpa [Act.before, Act.after, Act.conn?, Act.calls, Act.asks, Act.takes, hlt] using htotal
  | kill c hlive =>
      have hcalls : (Act.calls s (.kill c)).filterMap Effect.recvDone? =
          (s.conn c).wake.toList.map Recv.callback := by
        rw [Act.calls]
        cases (s.conn c).wake <;> cases (s.conn c).accepted <;> rfl
      rw [hcalls] at htotal
      simpa [Act.before, Act.after, Act.conn?, Act.asks, Act.takes, hlive.1] using htotal
  | connected c done hlive hwait =>
      simpa [Act.before, Act.after, Act.conn?, Act.calls, Act.asks, Act.takes, hlive.1, hwait, Effect.recvDone?,
        List.filterMap_cons] using htotal
  | accept c _ hlive | send c _ hlive | hangUp c hlive | enqueue c _ hlive | drain c _ _ _ hlive
  | wake c _ hlive =>
      simpa [Act.before, Act.after, Act.conn?, Act.calls, Act.asks, Act.takes, hlive.1, Effect.recvDone?,
        List.filterMap_cons] using htotal
  | _ =>
      simpa [Act.before, Act.after, Act.conn?, Act.calls, Act.asks, Act.takes, Effect.recvDone?,
        List.filterMap_cons] using htotal

/-- The act leaves every parked `recv()` where it is, unless it tombstones its connection. -/
def Act.Lets : Act → Prop
  | .wake _ _ => False
  | _ => True

theorem Acts.asks (hinv : Inv o s) (h : Acts o s as t) (has : ∀ a ∈ as, a.Lets) (x : Callback) :
    askTotal t x = askTotal s x + (as.flatMap Act.asks).count x := by
  induction h with
  | nil => rfl
  | cons hdoes _ ih =>
      rename_i s u t a as _
      have htakes : a.takes s = [] := by
        have ha := has a List.mem_cons_self
        cases a with
        | wake => exact ha.elim
        | _ => rfl
      have hfirst := hdoes.asks hinv x
      rw [htakes, List.count_nil, Nat.add_zero] at hfirst
      rw [ih (hinv.does hdoes) fun b hb => has b (List.mem_cons_of_mem _ hb), hfirst, List.flatMap_cons,
        List.count_append]
      omega

/-- Acts that leave a connection alone but for what travels through it. -/
theorem enqueue_wake {bytes : Bytes} (h : Does o s (.enqueue c bytes) t) :
    (t.conn c).wake = (s.conn c).wake := by
  cases h
  simp

theorem drain_wake {bytes : Bytes} (h : Does o s (.drain c bytes) t) :
    (t.conn c).wake = (s.conn c).wake := by
  cases h
  simp

theorem asks_step (hinv : Inv o s) {e : Event} (hone : OneRecv s e) (x : Callback) :
    askTotal (s.step o e) x = askTotal s x + e.recv?.toList.count x := by
  obtain ⟨as, hmoves, hacts⟩ := step_moves hinv e
  generalize s.step o e = t at hacts
  have hkills : ∀ remoteId, (s.kills remoteId).flatMap Act.asks = [] := by
    intro remoteId
    simp [Manager.kills, Act.asks]
  have hlets : (∀ a ∈ as, a.Lets) → as.flatMap Act.asks = e.recv?.toList →
      askTotal t x = askTotal s x + e.recv?.toList.count x := by
    intro has hasks
    rw [hacts.asks hinv has, hasks]
  cases hmoves with
  | recvParked c bytes len callback hlive =>
      have hnone : (s.conn c).wake = none := hone c (hinv.get_of_live c hlive)
      cases hacts with
      | cons hdrain hrest =>
          have hpark := hrest.does.asks (hinv.does hdrain) x
          have hfirst := hdrain.asks hinv x
          rw [Act.takes, drain_wake hdrain, hnone] at hpark
          simp [Act.takes, Act.asks, Event.recv?] at hfirst hpark ⊢
          omega
  | data c sender bytes as hget hbytes has =>
      cases has with
      | none => exact hlets (by simp [Act.Lets]) rfl
      | some r bytes' hwake =>
          cases hacts with
          | cons henqueue hrest =>
              cases hrest with
              | cons hclear hrest =>
                  have hinv₁ := hinv.does henqueue
                  have hinv₂ := hinv₁.does hclear
                  have hfirst := henqueue.asks hinv x
                  have hsecond := hclear.asks hinv₁ x
                  have hthird := hrest.asks hinv₂ (by simp [Act.Lets]) x
                  rw [Act.takes, enqueue_wake henqueue, hwake] at hsecond
                  simp [Act.takes, Act.asks, Event.recv?] at hfirst hsecond hthird ⊢
                  omega
  | connect | incoming | incomingAccepted =>
      apply hlets
      · simp [or_imp, forall_and, Act.Lets, Manager.kills]
      · simp [hkills, Act.asks, Event.recv?]
  | close cs =>
      apply hlets
      · simp [or_imp, forall_and, Act.Lets]
      · simp [Act.asks, Event.recv?]
  | _ =>
      apply hlets
      · simp [Act.Lets]
      · rfl

/-! ### `accept()` -/

/-- The calls of `accept()` callbacks that an act makes. -/
def Act.gives (s : Manager) : Act → List Effect
  | .accept c done => [.acceptDone c done (s.conn c).fd]
  | _ => []

theorem Does.gives {β : Type} {g : Effect → Option β} (h : Does o s a t)
    (hconnect : ∀ c done fd, g (.connectDone c done fd) = none) (hrecv : ∀ r ok, g (.recvDone r ok) = none) :
    (PeerManager.calls t).filterMap g = (PeerManager.calls s).filterMap g ++ (a.gives s).filterMap g := by
  rw [h.calls, List.filterMap_append]
  congr 1
  cases a with
  | kill c =>
      rw [Act.calls]
      cases (s.conn c).wake <;> cases (s.conn c).accepted <;>
        simp [Act.gives, hconnect, hrecv]
  | connected c =>
      rw [Act.calls]
      cases (s.conn c).accepted <;> simp [Act.gives, hconnect]
  | refuse | finish => simp [Act.calls, Act.gives, hconnect, hrecv]
  | _ => rfl

/-- The called ones, then the waiting. -/
def acceptQueue (s : Manager) : List Callback := (calls s).filterMap Effect.acceptDone? ++ s.acceptWaiters

/-- The act has nothing to do with `accept()`. -/
def Act.Aside : Act → Prop
  | .accept _ _ | .park _ | .serve _ => False
  | _ => True

theorem Does.aside (h : Does o s a t) (ha : a.Aside) :
    t.acceptWaiters = s.acceptWaiters ∧ acceptQueue t = acceptQueue s := by
  have hwaiters : t.acceptWaiters = s.acceptWaiters := by
    cases h with
    | park | serve => exact ha.elim
    | _ => rfl
  have hgives : a.gives s = [] := by
    cases a with
    | accept => exact ha.elim
    | _ => rfl
  refine ⟨hwaiters, ?_⟩
  rw [acceptQueue, acceptQueue, h.gives (fun _ _ _ => rfl) (fun _ _ => rfl), hgives, hwaiters,
    List.filterMap_nil, List.append_nil]

theorem Acts.aside (h : Acts o s as t) (has : ∀ a ∈ as, a.Aside) :
    t.acceptWaiters = s.acceptWaiters ∧ acceptQueue t = acceptQueue s := by
  induction h with
  | nil => exact ⟨rfl, rfl⟩
  | cons hdoes _ ih =>
      obtain ⟨hwaiters, hqueue⟩ := hdoes.aside (has _ List.mem_cons_self)
      obtain ⟨hwaiters', hqueue'⟩ := ih fun a ha => has a (List.mem_cons_of_mem _ ha)
      exact ⟨hwaiters'.trans hwaiters, hqueue'.trans hqueue⟩

theorem acceptQueue_of_accept {done : Callback} (h : Does o s (.accept c done) t)
    (hwaiters : s.acceptWaiters = []) : acceptQueue t = acceptQueue s ++ [done] := by
  have hgives := h.gives (g := Effect.acceptDone?) (fun _ _ _ => rfl) (fun _ _ => rfl)
  rw [acceptQueue, hgives, acceptQueue, h.waiters_nil (by simp) hwaiters, hwaiters, List.append_nil,
    List.append_nil]
  rfl

theorem acceptQueue_of_served {waiter : Callback}
    (h : Acts o s [.serve waiter, .accept c waiter] t) : acceptQueue t = acceptQueue s := by
  cases h with
  | cons hserve hrest =>
      have haccept := hrest.does
      have hgives := haccept.gives (g := Effect.acceptDone?) (fun _ _ _ => rfl) (fun _ _ => rfl)
      cases hserve with
      | serve _ rest hwaiters =>
          rw [acceptQueue, acceptQueue, hgives, hwaiters]
          cases haccept
          simp [Act.gives, Effect.acceptDone?, calls]

theorem accepts_step (hinv : Inv o s) (hidle : Idle s) (e : Event) :
    acceptQueue (s.step o e) = acceptQueue s ++ e.accept?.toList := by
  obtain ⟨as, hmoves, hacts⟩ := step_moves hinv e
  generalize s.step o e = t at hacts
  have haside : (∀ a ∈ as, a.Aside) → e.accept? = none →
      acceptQueue t = acceptQueue s ++ e.accept?.toList := by
    intro has he
    rw [(hacts.aside has).2, he]
    exact (List.append_nil _).symm
  cases hmoves with
  | acceptParked done hready =>
      have hpark := hacts.does
      cases hpark
      exact (List.append_assoc _ _ _).symm
  | accept c done rest hready hlive =>
      exact acceptQueue_of_accept hacts.does (hidle.resolve_left (by simp [hready]))
  | incomingAccepted fd sender hfd hfree waiter rest hwaiters =>
      rw [← List.cons_append] at hacts
      obtain ⟨u, hopen, hserved⟩ := hacts.split
      rw [acceptQueue_of_served hserved, (hopen.aside (by simp [or_imp, forall_and, Act.Aside, Manager.kills])).2]
      exact (List.append_nil _).symm
  | connect | incoming => exact haside (by simp [or_imp, forall_and, Act.Aside, Manager.kills]) rfl
  | close cs => exact haside (by simp [or_imp, forall_and, Act.Aside]) rfl
  | data c sender bytes as hget hbytes has =>
      apply haside _ rfl
      cases has <;> simp [Act.Aside]
  | _ =>
      apply haside
      · simp [Act.Aside]
      · rfl

theorem given_iff : c ∈ (calls s).filterMap Effect.accepted? ↔ Accepted s c := by
  rw [accepted_iff, List.mem_filterMap]
  constructor
  · rintro ⟨effect, hmem, hgiven⟩
    cases effect with
    | acceptDone c' done fd =>
        cases hgiven
        exact ⟨done, fd, hmem⟩
    | _ => cases hgiven
  · rintro ⟨done, fd, hmem⟩
    exact ⟨_, hmem, rfl⟩

theorem Does.given_once (hobjects : Objects s) (h : Does o s a t)
    (hs : ((PeerManager.calls s).filterMap Effect.accepted?).Nodup) :
    ((PeerManager.calls t).filterMap Effect.accepted?).Nodup := by
  rw [h.gives (fun _ _ _ => rfl) (fun _ _ => rfl)]
  cases h with
  | accept c done hlive hready =>
      have hnot := mt given_iff.mp (hobjects.ready c hlive hready).2
      have hgives : ((Act.accept c done).gives s).filterMap Effect.accepted? = [c] := rfl
      rw [hgives, List.nodup_append]
      refine ⟨hs, List.nodup_singleton c, ?_⟩
      intro c₁ h₁ c₂ h₂ heq
      rw [List.mem_singleton] at h₂
      exact hnot (h₂ ▸ heq ▸ h₁)
  | _ => exact (List.append_nil _).symm ▸ hs

/-! ### The `done` of one connection -/

theorem Does.answers (h : Does o s a t) (c : ConnId) :
    answers t c = answers s c ++ (a.calls s).filterMap (Effect.answer? c) := by
  rw [PeerManager.answers, h.calls, List.filterMap_append]
  rfl

theorem Settled.of_same {done : Callback} (hs : Settled s c done) (hcreated : s.created ≤ t.created)
    (hconn : (t.conn c).fd = (s.conn c).fd ∧ (t.conn c).closed = (s.conn c).closed ∧
      (t.conn c).accepted = (s.conn c).accepted) (hanswers : answers t c = answers s c) :
    Settled t c done := by
  obtain ⟨hfd, hclosed, haccepted⟩ := hconn
  rw [Settled, hanswers, haccepted, hfd, hclosed]
  apply hs.imp_left
  rintro ⟨hlive, hwait, hnone⟩
  exact ⟨⟨Nat.lt_of_lt_of_le hlive.1 hcreated, hclosed.trans hlive.2⟩, hwait, hnone⟩

theorem Settled.does {done : Callback} (hs : Settled s c done) (hc : c < s.created) (h : Does o s a t) :
    Settled t c done := by
  have hcreated := h.static.1
  have hanswers := h.answers c
  by_cases hconn : a.conn? = some c
  · cases h with
    | incoming | outgoing =>
        rw [Act.conn?, Option.some.injEq] at hconn
        exact absurd hc (by rw [← hconn]; exact Nat.lt_irrefl _)
    | connected c' done' hlive hwait =>
        rw [Act.conn?, Option.some.injEq] at hconn
        subst hconn
        rcases hs with ⟨-, hstored, hnone⟩ | ⟨hstored, -⟩
        · rw [hwait, Option.some.injEq] at hstored
          subst hstored
          rw [hnone, Act.calls, hwait] at hanswers
          right
          refine ⟨by simp, .inl ?_⟩
          rw [hanswers]
          simp [Effect.answer?]
        · rw [hwait] at hstored
          cases hstored
    | kill c' hlive =>
        rw [Act.conn?, Option.some.injEq] at hconn
        subst hconn
        right
        refine ⟨by simp, ?_⟩
        rcases hs with ⟨-, hstored, hnone⟩ | ⟨hstored, hanswered⟩
        · right
          refine ⟨by simp, ?_⟩
          rw [hanswers, hnone, Act.calls, hstored]
          cases (s.conn c').wake <;> simp [Effect.answer?, List.filterMap_cons]
        · have hnew : (Act.calls s (.kill c')).filterMap (Effect.answer? c') = [] := by
            rw [Act.calls, hstored]
            cases (s.conn c').wake <;> simp [Effect.answer?]
          rw [hanswers, hnew, List.append_nil]
          rcases hanswered with hanswered | ⟨hclosed, -⟩
          · left
            simpa using hanswered
          · rw [hlive.2] at hclosed
            cases hclosed
    | enqueue | drain | wake =>
        apply hs.of_same hcreated _ (hanswers.trans (List.append_nil _))
        rw [Act.conn?, Option.some.injEq] at hconn
        subst hconn
        simp
    | _ => exact hs.of_same hcreated ⟨rfl, rfl, rfl⟩ (hanswers.trans (List.append_nil _))
  · have hnew : (a.calls s).filterMap (Effect.answer? c) = [] := by
      cases a with
      | connected c' | kill c' =>
          have hne : c' ≠ c := fun hc' => hconn (congrArg some hc')
          rw [Act.calls]
          cases (s.conn c').wake <;> cases (s.conn c').accepted <;> simp [Effect.answer?, hne]
      | _ => rfl
    rw [hnew, List.append_nil] at hanswers
    apply hs.of_same hcreated _ hanswers
    rw [h.conn_of_ne hconn]
    exact ⟨rfl, rfl, rfl⟩

theorem Settled.acts {done : Callback} (hs : Settled s c done) (hc : c < s.created) (h : Acts o s as t) :
    Settled t c done ∧ c < t.created :=
  h.keeps (P := fun u => Settled u c done ∧ c < u.created)
    (fun _ _ _ hu hdoes => ⟨hu.1.does hu.2 hdoes, Nat.lt_of_lt_of_le hu.2 hdoes.static.1⟩) ⟨hs, hc⟩

/-! ### One step -/

/-- Where a call comes from. -/
theorem Acts.calls (h : Acts o s as t) : ∃ called, calls t = calls s ++ called ∧
    ∀ effect ∈ called, ∃ as₁ a as₂ u v, as = as₁ ++ a :: as₂ ∧ Acts o s as₁ u ∧ Does o u a v ∧
      Acts o v as₂ t ∧ effect ∈ a.calls u := by
  induction h with
  | nil s => exact ⟨[], (List.append_nil _).symm, by simp⟩
  | cons hdoes hrest ih =>
      rename_i s u t a as
      obtain ⟨called, hcalls, hcalled⟩ := ih
      refine ⟨a.calls s ++ called, by rw [hcalls, hdoes.calls, List.append_assoc], ?_⟩
      intro effect hmem
      rcases List.mem_append.mp hmem with hmem | hmem
      · exact ⟨[], a, as, s, u, rfl, .nil s, hdoes, hrest, hmem⟩
      · obtain ⟨as₁, b, as₂, v, w, rfl, hbefore, hb, hafter, heffect⟩ := hcalled effect hmem
        exact ⟨a :: as₁, b, as₂, v, w, rfl, .cons hdoes hbefore, hb, hafter, heffect⟩

theorem Moves.accept_last {e : Event} {as₁ as₂ : List Act} {done : Callback} (h : Moves o s e as)
    (has : as = as₁ ++ .accept c done :: as₂) : as₂ = [] := by
  by_contra hne
  have hlast : .accept c done ∈ as.dropLast := by
    rw [has, List.dropLast_append_of_ne_nil (List.cons_ne_nil _ _), List.dropLast_cons_of_ne_nil hne]
    simp
  have hmem := List.dropLast_subset as hlast
  revert hmem hlast
  clear has hne
  cases h with
  | accept => simp
  | incomingAccepted fd sender hfd hfree waiter rest hwaiters =>
      have hlast : Act.quiet :: (s.kills sender ++ [.incoming s.created sender] ++
          [.serve waiter, .accept s.created waiter]) =
          Act.quiet :: (s.kills sender ++ [.incoming s.created sender, .serve waiter]) ++
            [.accept s.created waiter] := by simp
      rw [hlast, List.dropLast_concat]
      simp [Manager.kills]
  | data c' sender bytes as' hget hbytes has' => cases has' <;> simp
  | _ => simp [Manager.kills]

theorem wake_live (hobjects : Objects s) {r : Recv} (hwake : (s.conn c).wake = some r) : s.Live c := by
  have hclosed : (s.conn c).closed = false := by
    by_contra hclosed
    have hnone := (hobjects.tombstone c (by simpa using hclosed)).2.1
    rw [hwake] at hnone
    cases hnone
  refine ⟨Nat.lt_of_not_le fun hle => ?_, hclosed⟩
  rw [hobjects.unmade c hle] at hclosed
  cases hclosed

theorem Acts.closed (hinv : Inv o s) (h : Acts o s as t) (hc : c < s.created)
    (hclosed : (s.conn c).closed = true) : (t.conn c).closed = true := by
  induction h with
  | nil => exact hclosed
  | cons hdoes _ ih =>
      apply ih (hinv.does hdoes) (Nat.lt_of_lt_of_le hc hdoes.static.1)
      by_contra hopen
      have hlive := hdoes.live ⟨Nat.lt_of_lt_of_le hc hdoes.static.1, by simpa using hopen⟩
      rcases hlive with hlive | ⟨hcreated, -, -⟩
      · have hfalse := hlive.2
        rw [hclosed] at hfalse
        cases hfalse
      · exact absurd hc (by rw [hcreated]; exact Nat.lt_irrefl _)

theorem Does.wake_kept (h : Does o s a t) {r : Recv} (hc : c < s.created) (hwake : (s.conn c).wake = some r)
    (ha : ∀ recv, a ≠ .wake c recv) : (t.conn c).wake = some r ∨ a = .kill c := by
  by_cases hconn : a.conn? = some c
  · cases h with
    | incoming | outgoing =>
        rw [Act.conn?, Option.some.injEq] at hconn
        exact absurd hc (by rw [← hconn]; exact Nat.lt_irrefl _)
    | kill c' =>
        rw [Act.conn?, Option.some.injEq] at hconn
        exact .inr (by rw [hconn])
    | wake c' recv =>
        rw [Act.conn?, Option.some.injEq] at hconn
        exact absurd (by rw [hconn]) (ha recv)
    | connected | enqueue | drain =>
        rw [Act.conn?, Option.some.injEq] at hconn
        subst hconn
        left
        simpa using hwake
    | _ => exact .inl hwake
  · rw [h.conn_of_ne hconn]
    exact .inl hwake

/-- A parked `recv()` that no act takes stays, or is told that its connection is gone. -/
theorem Acts.wake_kept (hinv : Inv o s) (h : Acts o s as t) {r : Recv} (hc : c < s.created)
    (hwake : (s.conn c).wake = some r) (has : ∀ recv, .wake c recv ∉ as) {called : List Effect}
    (hcalled : PeerManager.calls t = PeerManager.calls s ++ called) :
    (t.conn c).wake = some r ∨ (t.conn c).closed = true ∧ .recvDone r.callback false ∈ called := by
  induction h generalizing called with
  | nil => exact .inl hwake
  | cons hdoes hrest ih =>
      rename_i s u t a as
      simp only [List.mem_cons, not_or] at has
      have hlt := Nat.lt_of_lt_of_le hc hdoes.static.1
      obtain ⟨more, hmore, -⟩ := hrest.calls
      have hsplit : called = a.calls s ++ more := by
        rw [hmore, hdoes.calls, List.append_assoc] at hcalled
        exact (List.append_cancel_left hcalled).symm
      rcases hdoes.wake_kept hc hwake fun recv => Ne.symm (has recv).1 with hkept | rfl
      · apply (ih (hinv.does hdoes) hlt hkept (fun recv => (has recv).2) hmore).imp_right
        rintro ⟨hclosed, hmem⟩
        exact ⟨hclosed, hsplit ▸ List.mem_append_right _ hmem⟩
      · right
        have hclosed : (u.conn c).closed = true := by
          cases hdoes
          simp
        refine ⟨hrest.closed (hinv.does hdoes) hlt hclosed, ?_⟩
        rw [hsplit, Act.calls, hwake]
        simp

/-- The parked `recv()` of a connection that a frame of bytes comes in on. -/
theorem woken_of_data (hlive : s.Live c) {r : Recv} (hwake : (s.conn c).wake = some r) {bytes : Bytes}
    (has : Wakes s c as) (h : Acts o s (.enqueue c bytes :: as) t) {called : List Effect}
    (hcalled : calls t = calls s ++ called) : .recvDone r.callback (!(t.conn c).closed) ∈ called := by
  cases has with
  | none hnone =>
      rw [hwake] at hnone
      cases hnone
  | some r' bytes' hsome =>
      rw [hwake] at hsome
      cases hsome
      cases h with
      | cons henqueue hrest =>
          cases hrest with
          | cons hclear hrest =>
              cases hrest with
              | cons hdrain hrest =>
                  have hfinish := hrest.does
                  have hcalls := hfinish.calls
                  rw [hdrain.calls, hclear.calls, henqueue.calls, hcalled] at hcalls
                  have hopen : (t.conn c).closed = false := by
                    cases henqueue
                    cases hclear
                    cases hdrain
                    cases hfinish
                    simpa using hlive.2
                  simp [Act.calls] at hcalls
                  rw [hcalls, hopen]
                  simp

theorem answers_step (hinv : Inv o s) (hobjects : Objects s) {e : Event} (hone : OneRecv s e) :
    ∃ called, calls (s.step o e) = calls s ++ called ∧ Answers s e (s.step o e) called := by
  obtain ⟨as, hmoves, hacts⟩ := step_moves hinv e
  generalize s.step o e = t at hacts
  obtain ⟨called, hcalls, hcalled⟩ := hacts.calls
  refine ⟨called, hcalls, ?_, ?_, ?_⟩
  · intro c done fd hmem
    obtain ⟨as₁, a, as₂, u, v, has, hbefore, ha, hafter, heffect⟩ := hcalled _ hmem
    have hobjects' := hobjects.acts hinv hbefore
    obtain ⟨rfl, rfl⟩ : a = .accept c done ∧ (u.conn c).fd = fd := by
      cases a <;> simp_all [Act.calls]
    obtain rfl := hmoves.accept_last has
    cases hafter
    obtain ⟨called', hcalls', -⟩ := hbefore.calls
    cases ha with
    | accept c done hlive hready =>
        refine ⟨hlive, rfl, fun haccepted => (hobjects'.ready c hlive hready).2 ?_⟩
        obtain ⟨done, fd, hmem⟩ := accepted_iff.mp haccepted
        exact accepted_iff.mpr ⟨done, fd, by rw [hcalls']; exact List.mem_append_left _ hmem⟩
  · intro c r hwake
    have hlive := wake_live hobjects hwake
    have hkept : (∀ recv, .wake c recv ∉ as) →
        (t.conn c).wake = some r ∨ .recvDone r.callback (!(t.conn c).closed) ∈ called := by
      intro has
      apply (hacts.wake_kept hinv hlive.1 hwake has hcalls).imp_right
      rintro ⟨hclosed, hmem⟩
      rw [hclosed]
      exact hmem
    cases hmoves with
    | recvParked c' bytes len callback hlive' =>
        apply hkept
        intro recv hmem
        have hnone : (s.conn c').wake = none := hone c' (hinv.get_of_live c' hlive')
        obtain ⟨rfl, -⟩ : c = c' ∧ recv = some ⟨(s.conn c').fd, len, callback⟩ := by simpa using hmem
        rw [hwake] at hnone
        cases hnone
    | data c' sender bytes as' hget hbytes has' =>
        by_cases hc : c' = c
        · subst hc
          right
          exact woken_of_data hlive hwake has' hacts hcalls
        · apply hkept
          cases has' <;> simp [Ne.symm hc]
    | _ =>
        apply hkept
        simp [Manager.kills]
  · rintro fd len callback rfl hclosed
    cases hmoves with
    | recvRefused =>
        have hfinish := hacts.does.calls
        rw [hcalls] at hfinish
        rw [List.append_cancel_left hfinish]
        simp [Act.calls]
    | recv c bytes _ _ hlive | recvParked c bytes _ _ hlive =>
        have hfalse := hclosed c (hinv.get_of_live c hlive)
        rw [hlive.2] at hfalse
        cases hfalse

/-! ### A run -/

/-- Nothing was called for a connection that is not there yet, and no number is given without one. -/
def Sane (s : Manager) : Prop :=
  (∀ c, s.created ≤ c → answers s c = []) ∧ ∀ done fd, .connectDone none done fd ∈ calls s → fd = -1

theorem Sane.does (hs : Sane s) (h : Does o s a t) : Sane t := by
  constructor
  · intro c hc
    have hlt := Nat.le_trans h.static.1 hc
    have hnew : (a.calls s).filterMap (Effect.answer? c) = [] := by
      cases h with
      | connected c' done hlive hwait =>
          have hne : c' ≠ c := Nat.ne_of_lt (Nat.lt_of_lt_of_le hlive.1 hlt)
          rw [Act.calls, hwait]
          simp [Effect.answer?, hne]
      | kill c' hlive =>
          have hne : c' ≠ c := Nat.ne_of_lt (Nat.lt_of_lt_of_le hlive.1 hlt)
          rw [Act.calls]
          cases (s.conn c').wake <;> cases (s.conn c').accepted <;> simp [Effect.answer?, hne]
      | _ => rfl
    rw [h.answers, hs.1 c hlt, hnew]
    rfl
  · intro done fd hmem
    rw [h.calls, List.mem_append] at hmem
    rcases hmem with hmem | hmem
    · exact hs.2 done fd hmem
    · cases a <;> simp_all [Act.calls]

theorem settled_of_connect (hinv : Inv o s) (hsane : Sane s) (remoteId : String) (done : Callback)
    (hlt : s.created < (s.connect o remoteId done).created) :
    Settled (s.connect o remoteId done) s.created done := by
  obtain ⟨as, hmoves, hacts⟩ := connect_moves hinv remoteId done
  generalize s.connect o remoteId done = t at hacts hlt
  cases hmoves with
  | connectFull =>
      cases hacts with
      | cons hquiet hrest =>
          have hrefuse := hrest.does
          cases hquiet
          cases hrefuse
          exact absurd hlt (Nat.lt_irrefl _)
  | connect fd _ _ hfd hfree =>
      rw [← List.cons_append] at hacts
      obtain ⟨u, hbefore, hopen⟩ := hacts.split
      have hsane' : Sane u := hbefore.keeps (fun _ _ _ hu hdoes => hu.does hdoes) hsane
      have hopen := hopen.does
      have hanswers := hopen.answers s.created
      generalize s.created = c at hopen hanswers
      cases hopen with
      | outgoing =>
          left
          refine ⟨⟨Nat.lt_succ_self _, by simp⟩, by simp, ?_⟩
          rw [hanswers, hsane'.1 _ (Nat.le_refl _)]
          rfl

theorem dialled_concat {es : List Event} {e : Event} {done : Callback}
    (hrun : (manager o).run .initial es = some s) (h : Dialled o (es ++ [e]) c done) :
    Dialled o es c done ∨
      ∃ remoteId, e = .connect remoteId done ∧ s.created = c ∧ c < (s.connect o remoteId done).created := by
  obtain ⟨es₁, remoteId, es₂, u, hes, hbefore, hcreated, hlt⟩ := h
  rcases List.eq_nil_or_concat es₂ with rfl | ⟨es₃, e', rfl⟩
  · obtain ⟨rfl, heq⟩ := List.append_inj' hes rfl
    rw [hrun, Option.some.injEq] at hbefore
    subst hbefore
    exact .inr ⟨remoteId, by simpa using heq, hcreated, hlt⟩
  · rw [List.concat_eq_append, ← List.cons_append, ← List.append_assoc] at hes
    obtain ⟨rfl, -⟩ := List.append_inj' hes rfl
    exact .inl ⟨es₁, remoteId, es₃, u, rfl, hbefore, hcreated, hlt⟩

/-- What holds of a run and the state after it. -/
structure Ledger (o : Options) (es : List Event) (s : Manager) : Prop where
  accepts : es.filterMap Event.accept? = acceptQueue s
  given_once : ((calls s).filterMap Effect.accepted?).Nodup
  connects : ∀ x, dialTotal s x = (es.filterMap Event.connect?).count x
  recvs : ∀ x, askTotal s x = (es.filterMap Event.recv?).count x
  sane : Sane s
  settled : ∀ c done, Dialled o es c done → Settled s c done ∧ c < s.created

theorem Ledger.initial : Ledger o [] .initial := by
  constructor
  · rfl
  · exact List.nodup_nil
  · exact fun _ => rfl
  · exact fun _ => rfl
  · exact ⟨fun _ _ => rfl, fun _ _ hmem => absurd hmem List.not_mem_nil⟩
  · rintro c done ⟨es₁, remoteId, es₂, u, hes, -⟩
    simp at hes

theorem filterMap_concat {α β : Type} (f : α → Option β) (l : List α) (x : α) :
    (l ++ [x]).filterMap f = l.filterMap f ++ (f x).toList := by
  rw [List.filterMap_append, List.filterMap_cons]
  cases f x <;> rfl

theorem Ledger.step {es : List Event} {e : Event} (hrun : (manager o).run .initial es = some s)
    (hs : Ledger o es s) (hone : OneRecv s e) : Ledger o (es ++ [e]) (s.step o e) := by
  have hreachable : (manager o).Reachable s := ⟨es, hrun⟩
  have hinv := inv_of_reachable hreachable
  have hobjects := objects_of_reachable hreachable
  obtain ⟨as, -, hacts⟩ := step_moves hinv e
  constructor
  · rw [filterMap_concat, accepts_step hinv (idle_of_reachable hreachable), hs.accepts]
  · exact (hacts.keeps (P := fun u => Inv o u ∧ Objects u ∧ ((calls u).filterMap Effect.accepted?).Nodup)
      (fun _ _ _ hu hdoes => ⟨hu.1.does hdoes, hu.2.1.does hu.1 hdoes, hdoes.given_once hu.2.1 hu.2.2⟩)
      ⟨hinv, hobjects, hs.given_once⟩).2.2
  · intro x
    rw [dials_step hinv, hs.connects, filterMap_concat, List.count_append]
  · intro x
    rw [asks_step hinv hone, hs.recvs, filterMap_concat, List.count_append]
  · exact hacts.keeps (fun _ _ _ hu hdoes => hu.does hdoes) hs.sane
  · intro c done hdialled
    rcases dialled_concat hrun hdialled with hold | ⟨remoteId, rfl, rfl, hlt⟩
    · obtain ⟨hsettled, hlt⟩ := hs.settled c done hold
      exact hsettled.acts hlt hacts
    · exact ⟨settled_of_connect hinv hs.sane remoteId done hlt, hlt⟩

/-- **No callback is lost or called twice.** -/
theorem callbacks_kept {es : List Event} (halong : (manager o).Along OneRecv .initial es)
    (hrun : (manager o).run .initial es = some s) :
    Kept o es s ∧ ∀ e, OneRecv s e →
      ∃ called, calls (s.step o e) = calls s ++ called ∧ Answers s e (s.step o e) called := by
  have hreachable : (manager o).Reachable s := ⟨es, hrun⟩
  have hinv := inv_of_reachable hreachable
  have hobjects := objects_of_reachable hreachable
  have hledger : Ledger o es s := by
    refine run_history_along (P := Ledger o) .initial ?_ halong hrun
    intro es s e t hrun hs hone hstep
    cases hstep
    exact hs.step hrun hone
  refine ⟨?_, fun e hone => answers_step hinv hobjects hone⟩
  constructor
  · exact hledger.accepts
  · exact hledger.given_once
  · rw [List.perm_iff_count]
    intro x
    rw [List.count_append]
    exact (hledger.connects x).symm
  · exact fun c done hdialled => (hledger.settled c done hdialled).1
  · exact hledger.sane.2
  · rw [List.perm_iff_count]
    intro x
    rw [List.count_append]
    exact (hledger.recvs x).symm
  · intro c hwake
    obtain ⟨r, hr⟩ := Option.ne_none_iff_exists'.mp hwake
    exact wake_live hobjects hr
  · obtain ⟨as, hmoves, hacts⟩ := close_moves hinv
    cases hmoves with
    | close cs => exact (hacts.aside (by simp [or_imp, forall_and, Act.Aside])).1

/-- An `accept()` waits for the connection, whose remote goes while a `recv()` is parked on it. -/
def hungUp : List Event :=
  [.accept 0, .connect "c" 1, .message ⟨"b", "a", .connect⟩, .recv 1 8 2, .message ⟨"b", "a", .close⟩,
    .message ⟨"c", "a", .accepted⟩]

theorem callbacks_kept_hungUp : ∃ s, Kept ⟨"a", 4⟩ hungUp s ∧
    calls s = [.acceptDone 1 0 1, .recvDone 2 false, .connectDone (some 0) 1 0] := by
  have halong : (manager ⟨"a", 4⟩).Along OneRecv .initial hungUp := by decide
  exact ⟨_, (callbacks_kept halong rfl).1, by decide⟩

end LlmRuntime.PeerManager

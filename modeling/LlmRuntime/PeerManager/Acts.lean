import LlmRuntime.PeerManager.Model
import Mathlib.Data.List.Nodup

/-!
# What an operation does, act by act

Every operation and every frame comes down to a few acts: a connection is opened, tombstoned, accepted
or released, a frame is posted or taken in, bytes are drained. `Does` gives each act its guard and its
result, `Inv` is what all of them keep, and the operations are taken apart into acts once, here.
-/

namespace LlmRuntime.PeerManager

open Function

/-- What `onEvent` is told about no connection. -/
def Effect.Plain : Effect → Prop
  | .event (.error _) | .event (.registerBuf ..) | .event (.shutdown _) => True
  | _ => False

inductive Act where
  | quiet
  | refuse (done : Callback)
  | park (done : Callback)
  | serve (waiter : Callback)
  | finish (recv : Callback) (ok : Bool)
  | incoming (c : ConnId) (remoteId : String)
  | outgoing (c : ConnId) (remoteId : String) (done : Callback)
  | accept (c : ConnId) (done : Callback)
  | connected (c : ConnId)
  | kill (c : ConnId)
  | send (c : ConnId) (bytes : Bytes)
  | hangUp (c : ConnId)
  | enqueue (c : ConnId) (bytes : Bytes)
  | drain (c : ConnId) (bytes : Bytes)
  | wake (c : ConnId) (recv : Option Recv)
  | release (c : ConnId)
  deriving DecidableEq, Repr

/-- Not a tombstone. -/
def Manager.Live (s : Manager) (c : ConnId) : Prop := c < s.created ∧ (s.conn c).closed = false

inductive Does (o : Options) (s : Manager) : Act → Manager → Prop where
  | quiet (nextFd : Nat) (registrations : JsMap Nat Nat) (effects : List Effect)
      (h : ∀ effect ∈ effects, effect.Plain) :
      Does o s .quiet
        { s with
          registrationCounts := registrations
          nextFd := nextFd
          log := s.log ++ effects }
  | refuse (done : Callback) :
      Does o s (.refuse done) { s with log := s.log ++ [.connectDone none done (-1)] }
  | park (done : Callback) : Does o s (.park done) { s with acceptWaiters := s.acceptWaiters ++ [done] }
  | serve (waiter : Callback) (rest : List Callback) (h : s.acceptWaiters = waiter :: rest) :
      Does o s (.serve waiter) { s with acceptWaiters := rest }
  | finish (recv : Callback) (ok : Bool) :
      Does o s (.finish recv ok) { s with log := s.log ++ [.recvDone recv ok] }
  | incoming (fd : Nat) (remoteId : String) (hfd : fd < o.fdMax) (hfree : s.conns.get fd = none)
      (hnew : s.byRemote.get remoteId = none) :
      Does o s (.incoming s.created remoteId)
        { s with
          created := s.created + 1
          conn := update s.conn s.created ⟨fd, remoteId, false, [], 0, none, none⟩
          conns := s.conns.set fd s.created
          byRemote := s.byRemote.set remoteId s.created
          readyFds := s.readyFds ++ [fd]
          connectionCounts := bump s.connectionCounts fd
          log := s.log ++ [.event (.opened fd remoteId (count s.connectionCounts fd + 1))] }
  | outgoing (fd : Nat) (remoteId : String) (done : Callback) (hfd : fd < o.fdMax)
      (hfree : s.conns.get fd = none) (hnew : s.byRemote.get remoteId = none) :
      Does o s (.outgoing s.created remoteId done)
        { s with
          created := s.created + 1
          conn := update s.conn s.created ⟨fd, remoteId, false, [], 0, none, some done⟩
          conns := s.conns.set fd s.created
          byRemote := s.byRemote.set remoteId s.created
          connectionCounts := bump s.connectionCounts fd
          posts := s.posts ++ [⟨s.created, ⟨o.nodeId, remoteId, .connect⟩⟩]
          log := s.log ++ [.event (.opened fd remoteId (count s.connectionCounts fd + 1))] }
  | accept (c : ConnId) (done : Callback) (hlive : s.Live c) (hready : (s.conn c).fd ∈ s.readyFds) :
      Does o s (.accept c done)
        { s with
          readyFds := s.readyFds.erase (s.conn c).fd
          acceptedCounts := bump s.acceptedCounts (s.conn c).fd
          posts := s.posts ++ [⟨c, ⟨o.nodeId, (s.conn c).remoteId, .accepted⟩⟩]
          log := s.log ++ [.acceptDone c done (s.conn c).fd, .event (.accept (s.conn c).fd
            (s.conn c).remoteId (count s.acceptedCounts (s.conn c).fd + 1))] }
  | connected (c : ConnId) (done : Callback) (hlive : s.Live c)
      (hwait : (s.conn c).accepted = some done) :
      Does o s (.connected c)
        { s with
          conn := update s.conn c { s.conn c with accepted := none }
          log := s.log ++ [.connectDone (some c) done (s.conn c).fd] }
  | kill (c : ConnId) (hlive : s.Live c) :
      Does o s (.kill c)
        { s with
          conn := update s.conn c
            { s.conn c with
              closed := true, queue := [], queuedBytes := 0, wake := none, accepted := none }
          byRemote := s.byRemote.delete (s.conn c).remoteId
          readyFds := s.readyFds.erase (s.conn c).fd
          log := s.log ++ ((s.conn c).wake.toList.map fun r => .recvDone r.callback false) ++
            ((s.conn c).accepted.toList.map fun done => .connectDone (some c) done (-1)) ++
            [.event (.close (s.conn c).fd (s.conn c).remoteId)] }
  | send (c : ConnId) (bytes : Bytes) (hlive : s.Live c) (hbytes : bytes ≠ []) :
      Does o s (.send c bytes)
        { s with posts := s.posts ++ [⟨c, ⟨o.nodeId, (s.conn c).remoteId, .data bytes⟩⟩] }
  | hangUp (c : ConnId) (hlive : s.Live c) :
      Does o s (.hangUp c)
        { s with posts := s.posts ++ [⟨c, ⟨o.nodeId, (s.conn c).remoteId, .close⟩⟩] }
  | enqueue (c : ConnId) (bytes : Bytes) (hlive : s.Live c) :
      Does o s (.enqueue c bytes)
        { s with
          conn := update s.conn c
            { s.conn c with
              queue := (s.conn c).queue ++ [bytes]
              queuedBytes := (s.conn c).queuedBytes + bytes.length } }
  | drain (c : ConnId) (r : Recv) (writes queue : List Bytes) (hlive : s.Live c)
      (h : writes.flatten ++ queue.flatten = (s.conn c).queue.flatten) :
      Does o s (.drain c writes.flatten)
        { s with
          conn := update s.conn c
            { s.conn c with
              queue := queue
              queuedBytes := (s.conn c).queuedBytes - writes.flatten.length }
          log := s.log ++ writes.map (.write c r.callback) }
  | wake (c : ConnId) (wake : Option Recv) (hlive : s.Live c)
      (h : ∀ r, wake = some r → r.fd = (s.conn c).fd) :
      Does o s (.wake c wake) { s with conn := update s.conn c { s.conn c with wake := wake } }
  | release (c : ConnId) (hget : s.conns.get (s.conn c).fd = some c) (hclosed : (s.conn c).closed = true) :
      Does o s (.release c)
        { s with
          conns := s.conns.delete (s.conn c).fd
          runtimeCloseCounts := bump s.runtimeCloseCounts (s.conn c).fd
          log := s.log ++ [.event (.runtimeClose (s.conn c).fd (s.conn c).remoteId
            (count s.runtimeCloseCounts (s.conn c).fd + 1))] }

/-- A sequence of acts. -/
inductive Acts (o : Options) : Manager → List Act → Manager → Prop where
  | nil (s : Manager) : Acts o s [] s
  | cons {s t u : Manager} {a : Act} {as : List Act} (h : Does o s a t) (hrest : Acts o t as u) :
      Acts o s (a :: as) u

/-- How the maps, the objects and `readyFds` hang together. -/
structure Inv (o : Options) (s : Manager) : Prop where
  of_get : ∀ fd c, s.conns.get fd = some c → c < s.created ∧ (s.conn c).fd = fd ∧ fd < o.fdMax
  get_of_live : ∀ c, s.Live c → s.conns.get (s.conn c).fd = some c
  byRemote_iff : ∀ r c, s.byRemote.get r = some c ↔ s.Live c ∧ (s.conn c).remoteId = r
  ready : ∀ fd ∈ s.readyFds, ∃ c, s.conns.get fd = some c ∧ s.Live c
  ready_nodup : s.readyFds.Nodup
  wake : ∀ c r, (s.conn c).wake = some r → r.fd = (s.conn c).fd

variable {o : Options} {s t u : Manager} {a : Act} {as bs : List Act} {c : ConnId}

theorem Acts.append (h : Acts o s as t) (h' : Acts o t bs u) : Acts o s (as ++ bs) u := by
  induction h with
  | nil => exact h'
  | cons hdoes _ ih => exact .cons hdoes (ih h')

theorem Acts.split (h : Acts o s (as ++ bs) u) : ∃ t, Acts o s as t ∧ Acts o t bs u := by
  induction as generalizing s with
  | nil => exact ⟨s, .nil s, h⟩
  | cons a as ih =>
      rw [List.cons_append] at h
      cases h with
      | cons hdoes hrest =>
          obtain ⟨t, hacts, hacts'⟩ := ih hrest
          exact ⟨t, .cons hdoes hacts, hacts'⟩

theorem Acts.does (h : Acts o s [a] t) : Does o s a t := by
  cases h with
  | cons hdoes hnil =>
      cases hnil
      exact hdoes

theorem Does.acts (h : Does o s a t) : Acts o s [a] t := .cons h (.nil t)

theorem Acts.keeps {P : Manager → Prop} (hkeep : ∀ s a t, P s → Does o s a t → P t) (hs : P s)
    (h : Acts o s as t) : P t := by
  induction h with
  | nil => exact hs
  | cons hdoes _ ih => exact ih (hkeep _ _ _ hs hdoes)

/-! ### The invariant -/

theorem Inv.initial : Inv o .initial := by
  constructor <;> simp [Manager.initial, Manager.Live]

/-- Acts that leave the maps alone and change of each object at most what travels through it. -/
theorem Inv.of_same (hinv : Inv o s) (hcreated : t.created = s.created) (hconns : t.conns = s.conns)
    (hbyRemote : t.byRemote = s.byRemote) (hready : t.readyFds = s.readyFds)
    (hconn : ∀ c, (t.conn c).fd = (s.conn c).fd ∧ (t.conn c).remoteId = (s.conn c).remoteId ∧
      (t.conn c).closed = (s.conn c).closed ∧
      ∀ r, (t.conn c).wake = some r → r.fd = (s.conn c).fd) : Inv o t := by
  have hfd : ∀ c, (t.conn c).fd = (s.conn c).fd := fun c => (hconn c).1
  have hremote : ∀ c, (t.conn c).remoteId = (s.conn c).remoteId := fun c => (hconn c).2.1
  have hlive : ∀ c, t.Live c ↔ s.Live c := by
    intro c
    rw [Manager.Live, Manager.Live, hcreated, (hconn c).2.2.1]
  constructor
  · intro fd c hget
    rw [hcreated, hfd]
    exact hinv.of_get fd c (hconns ▸ hget)
  · intro c hc
    rw [hconns, hfd]
    exact hinv.get_of_live c ((hlive c).mp hc)
  · intro r c
    rw [hbyRemote, hlive, hremote]
    exact hinv.byRemote_iff r c
  · intro fd hmem
    obtain ⟨c, hget, hc⟩ := hinv.ready fd (hready ▸ hmem)
    exact ⟨c, hconns ▸ hget, (hlive c).mpr hc⟩
  · exact hready ▸ hinv.ready_nodup
  · intro c r hwake
    rw [hfd]
    exact (hconn c).2.2.2 r hwake

theorem Inv.of_opened (hinv : Inv o s) {fd : Nat} {remoteId : String} {conn : Conn} (hfd : fd < o.fdMax)
    (hfree : s.conns.get fd = none) (hnew : s.byRemote.get remoteId = none)
    (hopen : conn.fd = fd ∧ conn.remoteId = remoteId ∧ conn.closed = false ∧ conn.wake = none)
    (hcreated : t.created = s.created + 1) (hconn : t.conn = update s.conn s.created conn)
    (hconns : t.conns = s.conns.set fd s.created)
    (hbyRemote : t.byRemote = s.byRemote.set remoteId s.created)
    (hready : t.readyFds = s.readyFds ∨ t.readyFds = s.readyFds ++ [fd]) : Inv o t := by
  obtain ⟨hconnFd, hconnRemote, hconnOpen, hconnWake⟩ := hopen
  have hself : t.conn s.created = conn := by rw [hconn, update_self]
  have hother : ∀ c, c ≠ s.created → t.conn c = s.conn c := by
    intro c hc
    rw [hconn, update_of_ne hc]
  have hlive : ∀ c, t.Live c ↔ c = s.created ∨ s.Live c := by
    intro c
    by_cases hc : c = s.created
    · subst hc
      simp [Manager.Live, hcreated, hself, hconnOpen]
    · rw [Manager.Live, Manager.Live, hother c hc, hcreated]
      refine ⟨fun h => .inr ⟨Nat.lt_of_le_of_ne (Nat.le_of_lt_succ h.1) hc, h.2⟩, ?_⟩
      rintro (h | h)
      · exact absurd h hc
      · exact ⟨Nat.lt_succ_of_lt h.1, h.2⟩
  have hne : ∀ c, s.Live c → c ≠ s.created := fun c hc => Nat.ne_of_lt hc.1
  have hget : ∀ fd' c, s.conns.get fd' = some c → t.conns.get fd' = some c := by
    intro fd' c h
    rw [hconns, JsMap.get_set_of_ne _ ?_, h]
    rintro rfl
    simp [hfree] at h
  constructor
  · intro fd' c h
    rw [hconns, JsMap.get_set] at h
    split at h
    · rename_i hfd'
      cases h
      rw [hself, hconnFd, hcreated, hfd']
      exact ⟨Nat.lt_succ_self _, rfl, hfd⟩
    · obtain ⟨hlt, hc, hmax⟩ := hinv.of_get fd' c h
      rw [hother c (Nat.ne_of_lt hlt), hcreated]
      exact ⟨Nat.lt_succ_of_lt hlt, hc, hmax⟩
  · intro c hc
    rcases (hlive c).mp hc with rfl | hc
    · rw [hself, hconnFd, hconns, JsMap.get_set_self]
    · rw [hother c (hne c hc)]
      exact hget _ _ (hinv.get_of_live c hc)
  · intro r c
    rw [hbyRemote, JsMap.get_set, hlive]
    by_cases hr : r = remoteId
    · subst hr
      rw [if_pos rfl, Option.some.injEq]
      constructor
      · rintro rfl
        exact ⟨.inl rfl, by rw [hself, hconnRemote]⟩
      · rintro ⟨rfl | hc, hr⟩
        · rfl
        · rw [hother c (hne c hc)] at hr
          simp [(hinv.byRemote_iff _ c).mpr ⟨hc, hr⟩] at hnew
    · rw [if_neg hr, hinv.byRemote_iff]
      constructor
      · rintro ⟨hc, hr'⟩
        exact ⟨.inr hc, by rw [hother c (hne c hc), hr']⟩
      · rintro ⟨rfl | hc, hr'⟩
        · rw [hself, hconnRemote] at hr'
          exact absurd hr'.symm hr
        · exact ⟨hc, by rw [← hother c (hne c hc), hr']⟩
  · intro fd' hmem
    have hold : fd' ∈ s.readyFds → ∃ c, t.conns.get fd' = some c ∧ t.Live c := by
      intro hmem
      obtain ⟨c, h, hc⟩ := hinv.ready fd' hmem
      exact ⟨c, hget _ _ h, (hlive c).mpr (.inr hc)⟩
    rcases hready with hready | hready
    · exact hold (hready ▸ hmem)
    · rw [hready, List.mem_append, List.mem_singleton] at hmem
      rcases hmem with hmem | rfl
      · exact hold hmem
      · exact ⟨s.created, by rw [hconns, JsMap.get_set_self], (hlive _).mpr (.inl rfl)⟩
  · rcases hready with hready | hready
    · exact hready ▸ hinv.ready_nodup
    · rw [hready, List.nodup_append]
      refine ⟨hinv.ready_nodup, List.nodup_singleton fd, ?_⟩
      intro fd₁ h₁ fd₂ h₂ heq
      rw [List.mem_singleton] at h₂
      obtain ⟨c, h, -⟩ := hinv.ready fd₁ h₁
      rw [heq, h₂, hfree] at h
      cases h
  · intro c r hwake
    by_cases hc : c = s.created
    · subst hc
      simp [hself, hconnWake] at hwake
    · rw [hother c hc] at hwake ⊢
      exact hinv.wake c r hwake

theorem Inv.of_kill (hinv : Inv o s) (hc : s.Live c) (hcreated : t.created = s.created)
    (hconn : t.conn = update s.conn c
      { s.conn c with closed := true, queue := [], queuedBytes := 0, wake := none, accepted := none })
    (hconns : t.conns = s.conns) (hbyRemote : t.byRemote = s.byRemote.delete (s.conn c).remoteId)
    (hready : t.readyFds = s.readyFds.erase (s.conn c).fd) : Inv o t := by
  have hfd : ∀ c', (t.conn c').fd = (s.conn c').fd := by
    intro c'
    by_cases hne : c' = c
    · rw [hconn, hne, update_self]
    · rw [hconn, update_of_ne hne]
  have hremote : ∀ c', (t.conn c').remoteId = (s.conn c').remoteId := by
    intro c'
    by_cases hne : c' = c
    · rw [hconn, hne, update_self]
    · rw [hconn, update_of_ne hne]
  have hlive : ∀ c', t.Live c' ↔ s.Live c' ∧ c' ≠ c := by
    intro c'
    by_cases hne : c' = c
    · simp [Manager.Live, hconn, hne]
    · simp [Manager.Live, hconn, hcreated, hne]
  constructor
  · intro fd c' h
    rw [hcreated, hfd]
    exact hinv.of_get fd c' (hconns ▸ h)
  · intro c' hc'
    rw [hconns, hfd]
    exact hinv.get_of_live c' ((hlive c').mp hc').1
  · intro r c'
    rw [hbyRemote, JsMap.get_delete, hlive, hremote]
    by_cases hr : r = (s.conn c).remoteId
    · rw [if_pos hr]
      constructor
      · intro h
        cases h
      rintro ⟨⟨hc', hne⟩, hr'⟩
      have hget := (hinv.byRemote_iff r c').mpr ⟨hc', hr'⟩
      rw [(hinv.byRemote_iff r c).mpr ⟨hc, hr.symm⟩, Option.some.injEq] at hget
      exact absurd hget.symm hne
    · rw [if_neg hr, hinv.byRemote_iff]
      constructor
      · rintro ⟨hc', hr'⟩
        refine ⟨⟨hc', ?_⟩, hr'⟩
        rintro rfl
        exact hr hr'.symm
      · rintro ⟨⟨hc', -⟩, hr'⟩
        exact ⟨hc', hr'⟩
  · intro fd hmem
    rw [hready, hinv.ready_nodup.mem_erase_iff] at hmem
    obtain ⟨c', h, hc'⟩ := hinv.ready fd hmem.2
    refine ⟨c', hconns ▸ h, (hlive c').mpr ⟨hc', ?_⟩⟩
    rintro rfl
    exact hmem.1 (hinv.of_get fd c' h).2.1.symm
  · exact hready ▸ hinv.ready_nodup.erase _
  · intro c' r hwake
    rw [hfd]
    by_cases hne : c' = c
    · simp [hconn, hne] at hwake
    · rw [hconn, update_of_ne hne] at hwake
      exact hinv.wake c' r hwake

theorem Inv.of_release (hinv : Inv o s) (hget : s.conns.get (s.conn c).fd = some c)
    (hclosed : (s.conn c).closed = true) (hcreated : t.created = s.created) (hconn : t.conn = s.conn)
    (hconns : t.conns = s.conns.delete (s.conn c).fd) (hbyRemote : t.byRemote = s.byRemote)
    (hready : t.readyFds = s.readyFds) : Inv o t := by
  have hlive : ∀ c', t.Live c' ↔ s.Live c' := fun c' => by simp [Manager.Live, hcreated, hconn]
  -- the number of a live connection is not the released one
  have hne : ∀ c' fd, s.Live c' → s.conns.get fd = some c' → fd ≠ (s.conn c).fd := by
    rintro c' fd hc' h rfl
    rw [hget, Option.some.injEq] at h
    subst h
    exact absurd hc'.2 (by simp [hclosed])
  constructor
  · intro fd c' h
    rw [hconns, JsMap.get_delete] at h
    split at h
    · cases h
    · rw [hcreated, hconn]
      exact hinv.of_get fd c' h
  · intro c' hc'
    have h := hinv.get_of_live c' ((hlive c').mp hc')
    rw [hconn, hconns, JsMap.get_delete_of_ne _ (hne c' _ ((hlive c').mp hc') h), h]
  · intro r c'
    rw [hbyRemote, hlive, hconn]
    exact hinv.byRemote_iff r c'
  · intro fd hmem
    obtain ⟨c', h, hc'⟩ := hinv.ready fd (hready ▸ hmem)
    exact ⟨c', by rw [hconns, JsMap.get_delete_of_ne _ (hne c' fd hc' h), h], (hlive c').mpr hc'⟩
  · exact hready ▸ hinv.ready_nodup
  · intro c' r
    rw [hconn]
    exact hinv.wake c' r

theorem conn_update_same {conn : Conn} (hfd : conn.fd = (s.conn c).fd)
    (hremote : conn.remoteId = (s.conn c).remoteId) (hclosed : conn.closed = (s.conn c).closed)
    (hwake : ∀ r, conn.wake = some r → r.fd = (s.conn c).fd)
    (hold : ∀ c r, (s.conn c).wake = some r → r.fd = (s.conn c).fd) (c' : ConnId) :
    (update s.conn c conn c').fd = (s.conn c').fd ∧
      (update s.conn c conn c').remoteId = (s.conn c').remoteId ∧
      (update s.conn c conn c').closed = (s.conn c').closed ∧
      ∀ r, (update s.conn c conn c').wake = some r → r.fd = (s.conn c').fd := by
  by_cases hc : c' = c
  · subst hc
    rw [update_self]
    exact ⟨hfd, hremote, hclosed, hwake⟩
  · rw [update_of_ne hc]
    exact ⟨rfl, rfl, rfl, hold c'⟩

theorem Inv.does (hinv : Inv o s) (h : Does o s a t) : Inv o t := by
  have hid : ∀ c, (s.conn c).fd = (s.conn c).fd ∧ (s.conn c).remoteId = (s.conn c).remoteId ∧
      (s.conn c).closed = (s.conn c).closed ∧ ∀ r, (s.conn c).wake = some r → r.fd = (s.conn c).fd :=
    fun c => ⟨rfl, rfl, rfl, hinv.wake c⟩
  cases h with
  | quiet | refuse | park | serve | finish | send | hangUp => exact hinv.of_same rfl rfl rfl rfl hid
  | connected c | enqueue c | drain c =>
      exact hinv.of_same rfl rfl rfl rfl (conn_update_same rfl rfl rfl (hinv.wake c) hinv.wake)
  | wake c wake _ hwake =>
      exact hinv.of_same rfl rfl rfl rfl (conn_update_same rfl rfl rfl hwake hinv.wake)
  | incoming fd remoteId hfd hfree hnew =>
      exact hinv.of_opened hfd hfree hnew ⟨rfl, rfl, rfl, rfl⟩ rfl rfl rfl rfl (.inr rfl)
  | outgoing fd remoteId done hfd hfree hnew =>
      exact hinv.of_opened hfd hfree hnew ⟨rfl, rfl, rfl, rfl⟩ rfl rfl rfl rfl (.inl rfl)
  | accept c done hlive hready =>
      constructor
      · exact hinv.of_get
      · exact hinv.get_of_live
      · exact hinv.byRemote_iff
      · exact fun fd hmem => hinv.ready fd (List.mem_of_mem_erase hmem)
      · exact hinv.ready_nodup.erase _
      · exact hinv.wake
  | kill c hlive => exact hinv.of_kill hlive rfl rfl rfl rfl rfl
  | release c hget hclosed => exact hinv.of_release hget hclosed rfl rfl rfl rfl rfl

/-- Objects are never unmade, and keep their number and their remote. -/
theorem Does.static (h : Does o s a t) : s.created ≤ t.created ∧
    ∀ c < s.created, (t.conn c).fd = (s.conn c).fd ∧ (t.conn c).remoteId = (s.conn c).remoteId := by
  have hupdate : ∀ (c : ConnId) (conn : Conn), conn.fd = (s.conn c).fd →
      conn.remoteId = (s.conn c).remoteId → ∀ c', (update s.conn c conn c').fd = (s.conn c').fd ∧
        (update s.conn c conn c').remoteId = (s.conn c').remoteId := by
    intro c conn hfd hremote c'
    by_cases hc : c' = c
    · rw [hc, update_self]
      exact ⟨hfd, hremote⟩
    · rw [update_of_ne hc]
      exact ⟨rfl, rfl⟩
  cases h with
  | incoming | outgoing =>
      refine ⟨Nat.le_succ _, fun c hc => ?_⟩
      dsimp only
      rw [update_of_ne (Nat.ne_of_lt hc)]
      exact ⟨rfl, rfl⟩
  | connected c | kill c | enqueue c | drain c | wake c =>
      refine ⟨Nat.le_refl _, fun c' _ => ?_⟩
      apply hupdate c
      · rfl
      · rfl
  | _ => exact ⟨Nat.le_refl _, fun _ _ => ⟨rfl, rfl⟩⟩

end LlmRuntime.PeerManager

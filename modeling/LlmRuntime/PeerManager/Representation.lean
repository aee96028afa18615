import LlmRuntime.PeerManager.Observed
import Mathlib.Algebra.GroupWithZero.Nat

/-!
# The four indexes

`conns`, `byRemote`, `readyFds` and `acceptWaiters` are four views of the same connections. `Represented`
says how they agree with each other and with the objects, after every operation and every frame.
-/

namespace LlmRuntime.PeerManager

open Function Transition

/-- `handleConnect` made the connection: no `connect` frame was posted on it. -/
def Incoming (s : Manager) (c : ConnId) : Prop :=
  ∀ post ∈ s.posts, post.conn = c → post.message.kind ≠ .connect

structure Represented (s : Manager) : Prop where
  fd_eq : ∀ fd c, s.conns.get fd = some c → (s.conn c).fd = fd
  live_iff : ∀ fd c, s.conns.get fd = some c →
    ((s.conn c).closed = false ↔ s.byRemote.get (s.conn c).remoteId = some c)
  one_live : ∀ fd fd' c c', s.conns.get fd = some c → s.conns.get fd' = some c' →
    (s.conn c).closed = false → (s.conn c').closed = false →
      (s.conn c).remoteId = (s.conn c').remoteId → c = c'
  byRemote : ∀ remoteId c, s.byRemote.get remoteId = some c →
    (s.conn c).closed = false ∧ (s.conn c).remoteId = remoteId ∧ ∃ fd, s.conns.get fd = some c
  ready_nodup : s.readyFds.Nodup
  ready : ∀ fd ∈ s.readyFds, ∃ c, s.conns.get fd = some c ∧ (s.conn c).closed = false ∧
    Incoming s c ∧ ¬ Accepted s c
  /-- Nobody waits in `accept()` while a connection waits to be accepted. -/
  idle : ¬ (s.readyFds ≠ [] ∧ s.acceptWaiters ≠ [])
  tombstone : ∀ fd c, s.conns.get fd = some c → (s.conn c).closed = true →
    (s.conn c).queue = [] ∧ (s.conn c).wake = none ∧ (s.conn c).accepted = none
  queued : ∀ fd c, s.conns.get fd = some c →
    (s.conn c).queuedBytes = (((s.conn c).queue.map List.length).sum : Nat)

/-- What the acts keep of the objects themselves. -/
structure Objects (s : Manager) : Prop where
  tombstone : ∀ c, (s.conn c).closed = true →
    (s.conn c).queue = [] ∧ (s.conn c).wake = none ∧ (s.conn c).accepted = none
  queued : ∀ c, (s.conn c).queuedBytes = (s.conn c).queue.flatten.length
  unmade : ∀ c, s.created ≤ c → (s.conn c).closed = true
  posted : ∀ post ∈ s.posts, post.conn < s.created
  accepted : ∀ c, Accepted s c → c < s.created
  ready : ∀ c, s.Live c → (s.conn c).fd ∈ s.readyFds → Incoming s c ∧ ¬ Accepted s c

variable {o : Options} {s t : Manager} {a : Act} {as : List Act} {c : ConnId}

theorem Objects.initial : Objects .initial := by
  constructor <;> simp [Manager.initial, Manager.Live, Accepted]

/-- An act is about a connection that is there, or opens the next one. -/
theorem Does.opens_or (hinv : Inv o s) (h : Does o s a t) :
    (t.created = s.created ∧ ∀ c, a.conn? = some c → c < s.created) ∨
      t.created = s.created + 1 ∧ a.conn? = some s.created := by
  cases h with
  | incoming | outgoing => exact .inr ⟨rfl, rfl⟩
  | accept c _ hlive | connected c _ hlive | kill c hlive | send c _ hlive | hangUp c hlive
  | enqueue c _ hlive | drain c _ _ _ hlive | wake c _ hlive =>
      refine .inl ⟨rfl, fun c' hc' => ?_⟩
      cases hc'
      exact hlive.1
  | release c hget =>
      refine .inl ⟨rfl, fun c' hc' => ?_⟩
      cases hc'
      exact (hinv.of_get _ c hget).1
  | _ => exact .inl ⟨rfl, fun c' hc' => by cases hc'⟩

theorem Does.tombstone (h : Does o s a t) (hs : ∀ c, (s.conn c).closed = true →
      (s.conn c).queue = [] ∧ (s.conn c).wake = none ∧ (s.conn c).accepted = none) (c : ConnId)
    (hclosed : (t.conn c).closed = true) :
    (t.conn c).queue = [] ∧ (t.conn c).wake = none ∧ (t.conn c).accepted = none := by
  by_cases hc : a.conn? = some c
  · cases h with
    | incoming | outgoing =>
        rw [Act.conn?, Option.some.injEq] at hc
        subst hc
        simp at hclosed
    | kill c' =>
        rw [Act.conn?, Option.some.injEq] at hc
        subst hc
        simp
    | connected c' _ hlive | enqueue c' _ hlive | drain c' _ _ _ hlive | wake c' _ hlive =>
        rw [Act.conn?, Option.some.injEq] at hc
        subst hc
        simp [hlive.2] at hclosed
    | _ => exact hs c hclosed
  · rw [h.conn_of_ne hc] at hclosed ⊢
    exact hs c hclosed

theorem Does.queued (h : Does o s a t)
    (hs : ∀ c, (s.conn c).queuedBytes = (s.conn c).queue.flatten.length) (c : ConnId) :
    (t.conn c).queuedBytes = (t.conn c).queue.flatten.length := by
  by_cases hc : a.conn? = some c
  · cases h with
    | incoming | outgoing | kill =>
        rw [Act.conn?, Option.some.injEq] at hc
        subst hc
        simp
    | connected c' | wake c' =>
        rw [Act.conn?, Option.some.injEq] at hc
        subst hc
        simpa using hs c'
    | enqueue c' bytes =>
        rw [Act.conn?, Option.some.injEq] at hc
        subst hc
        have hold := hs c'
        simp only [update_self, List.flatten_append, List.length_append, List.flatten_singleton]
        omega
    | drain c' r writes queue hlive hqueue =>
        rw [Act.conn?, Option.some.injEq] at hc
        subst hc
        have hold := hs c'
        rw [← hqueue, List.length_append] at hold
        simp only [update_self]
        omega
    | _ => exact hs c
  · rw [h.conn_of_ne hc]
    exact hs c

/-- A frame is posted on a connection that is there, and says `connect` only where it is opened. -/
theorem Does.of_posts (h : Does o s a t) :
    ∀ post ∈ a.posts o s, post.conn < t.created ∧ (post.message.kind = .connect → post.conn = s.created) := by
  cases h with
  | outgoing => simp [Act.posts]
  | accept c _ hlive | send c _ hlive | hangUp c hlive =>
      intro post hpost
      rw [Act.posts, List.mem_singleton] at hpost
      subst hpost
      exact ⟨hlive.1, by simp⟩
  | _ => simp [Act.posts]

theorem Incoming.does (h : Does o s a t) (hc : c ≠ s.created) (hincoming : Incoming s c) : Incoming t c := by
  intro post hpost hconn
  rw [h.posts, List.mem_append] at hpost
  rcases hpost with hpost | hpost
  · exact hincoming post hpost hconn
  · intro hkind
    exact hc (hconn ▸ (h.of_posts post hpost).2 hkind)

/-- A connection that waits to be accepted waited before the act, or has just come in. -/
theorem Does.ready (hinv : Inv o s) (h : Does o s a t) (hlive : t.Live c)
    (hready : (t.conn c).fd ∈ t.readyFds) :
    (s.Live c ∧ (s.conn c).fd ∈ s.readyFds ∧ ∀ done, a ≠ .accept c done) ∨
      c = s.created ∧ ∃ remoteId, a = .incoming c remoteId := by
  have hinv' := hinv.does h
  rcases h.live hlive with hold | ⟨hc, hopens, -⟩
  · left
    rw [(h.static.2 c hold.1).1] at hready
    have hget := hinv.get_of_live c hold
    refine ⟨hold, ?_, ?_⟩
    · cases h with
      | incoming fd remoteId hfd hfree =>
          rw [List.mem_append, List.mem_singleton] at hready
          rcases hready with hready | hready
          · exact hready
          · rw [hready, hfree] at hget
            cases hget
      | accept | kill => exact List.mem_of_mem_erase hready
      | _ => exact hready
    · rintro done rfl
      cases h with
      | accept => exact (hinv.ready_nodup.mem_erase_iff.mp hready).1 rfl
  · right
    refine ⟨hc, ?_⟩
    obtain ⟨remoteId, rfl | ⟨done, rfl⟩⟩ := hopens
    · exact ⟨remoteId, rfl⟩
    · cases h with
      | outgoing fd _ _ hfd hfree =>
          dsimp only at hready
          rw [update_self] at hready
          obtain ⟨c', hget, -⟩ := hinv.ready fd hready
          rw [hfree] at hget
          cases hget

theorem Objects.does (hinv : Inv o s) (hs : Objects s) (h : Does o s a t) : Objects t := by
  have hcreated := h.static.1
  have haccepted : ∀ c, Accepted t c → c < s.created := by
    intro c hc
    rcases h.of_accepted hc with hc | ⟨done, rfl⟩
    · exact hs.accepted c hc
    · cases h with
      | accept c done hlive => exact hlive.1
  constructor
  · exact h.tombstone hs.tombstone
  · exact h.queued hs.queued
  · intro c hc
    have hne : a.conn? ≠ some c := by
      intro hconn
      rcases h.opens_or hinv with ⟨-, hlt⟩ | ⟨hsucc, hopens⟩
      · exact absurd (hlt c hconn) (Nat.not_lt_of_le (Nat.le_trans hcreated hc))
      · rw [hopens, Option.some.injEq] at hconn
        rw [hsucc, ← hconn] at hc
        exact absurd hc (Nat.not_succ_le_self _)
    rw [h.conn_of_ne hne]
    exact hs.unmade c (Nat.le_trans hcreated hc)
  · intro post hpost
    rw [h.posts, List.mem_append] at hpost
    rcases hpost with hpost | hpost
    · exact Nat.lt_of_lt_of_le (hs.posted post hpost) hcreated
    · exact (h.of_posts post hpost).1
  · intro c hc
    exact Nat.lt_of_lt_of_le (haccepted c hc) hcreated
  · intro c hlive hready
    rcases h.ready hinv hlive hready with ⟨hold, hready, hne⟩ | ⟨rfl, remoteId, rfl⟩
    · obtain ⟨hincoming, hnot⟩ := hs.ready c hold hready
      refine ⟨hincoming.does h (Nat.ne_of_lt hold.1), fun hc => ?_⟩
      rcases h.of_accepted hc with hc | ⟨done, rfl⟩
      · exact hnot hc
      · exact hne done rfl
    · constructor
      · intro post hpost hconn
        have hnone : Act.posts o s (.incoming s.created remoteId) = [] := rfl
        rw [h.posts, hnone, List.append_nil] at hpost
        exact absurd (hs.posted post hpost) (by rw [hconn]; exact Nat.lt_irrefl _)
      · intro hc
        exact Nat.lt_irrefl _ (haccepted _ hc)

theorem Objects.acts (hinv : Inv o s) (hs : Objects s) (h : Acts o s as t) : Objects t :=
  (h.keeps (P := fun u => Inv o u ∧ Objects u)
    (fun _ _ _ hu hdoes => ⟨hu.1.does hdoes, hu.2.does hu.1 hdoes⟩) ⟨hinv, hs⟩).2

/-! ### Nobody waits for what is there -/

def Idle (s : Manager) : Prop := s.readyFds = [] ∨ s.acceptWaiters = []

theorem Does.waiters_nil (h : Does o s a t) (ha : ∀ done, a ≠ .park done) (hs : s.acceptWaiters = []) :
    t.acceptWaiters = [] := by
  cases h with
  | park done => exact absurd rfl (ha done)
  | serve waiter rest hwaiters =>
      rw [hs] at hwaiters
      cases hwaiters
  | _ => exact hs

theorem Does.ready_nil (h : Does o s a t) (ha : ∀ c remoteId, a ≠ .incoming c remoteId)
    (hs : s.readyFds = []) : t.readyFds = [] := by
  cases h with
  | incoming fd remoteId => exact absurd rfl (ha _ remoteId)
  | accept | kill =>
      dsimp only
      rw [hs, List.erase_nil]
  | _ => exact hs

theorem Acts.waiters_nil (h : Acts o s as t) (has : ∀ done, .park done ∉ as) (hs : s.acceptWaiters = []) :
    t.acceptWaiters = [] := by
  induction h with
  | nil => exact hs
  | cons hdoes _ ih =>
      simp only [List.mem_cons, not_or] at has
      exact ih (fun done => (has done).2) (hdoes.waiters_nil (fun done => Ne.symm (has done).1) hs)

theorem Acts.ready_nil (h : Acts o s as t) (has : ∀ c remoteId, .incoming c remoteId ∉ as)
    (hs : s.readyFds = []) : t.readyFds = [] := by
  induction h with
  | nil => exact hs
  | cons hdoes _ ih =>
      simp only [List.mem_cons, not_or] at has
      exact ih (fun c remoteId => (has c remoteId).2)
        (hdoes.ready_nil (fun c remoteId => Ne.symm (has c remoteId).1) hs)

theorem Acts.idle (h : Acts o s as t) (hpark : ∀ done, .park done ∉ as)
    (hincoming : ∀ c remoteId, .incoming c remoteId ∉ as) (hs : Idle s) : Idle t :=
  hs.imp (h.ready_nil hincoming) (h.waiters_nil hpark)

/-- The connection comes in and is given away at once. -/
theorem ready_nil_of_served {remoteId : String} {waiter done : Callback} (hs : s.readyFds = [])
    (h : Acts o s [.incoming c remoteId, .serve waiter, .accept c done] t) :
    t.readyFds = [] := by
  cases h with
  | cons hopen hrest =>
      cases hrest with
      | cons hserve hrest =>
          have haccept := hrest.does
          cases hopen with
          | incoming fd =>
              cases hserve
              cases haccept
              simp [hs]

theorem idle_step (hinv : Inv o s) (hs : Idle s) (e : Event) : Idle (s.step o e) := by
  obtain ⟨as, hmoves, hacts⟩ := step_moves hinv e
  generalize s.step o e = t at hacts
  have hkills : ∀ remoteId, (∀ done, .park done ∉ s.kills remoteId) ∧
      ∀ c r, .incoming c r ∉ s.kills remoteId := by
    intro remoteId
    simp [Manager.kills]
  cases hmoves with
  | acceptParked done hready =>
      left
      exact hacts.ready_nil (by simp) hready
  | incoming fd sender hfd hfree hwaiters =>
      right
      exact hacts.waiters_nil (by simp [hkills]) hwaiters
  | incomingAccepted fd sender hfd hfree waiter rest hwaiters =>
      left
      have hready : s.readyFds = [] := hs.resolve_right (by simp [hwaiters])
      rw [List.append_assoc, ← List.cons_append] at hacts
      obtain ⟨u, hkill, hserved⟩ := hacts.split
      exact ready_nil_of_served (hkill.ready_nil (by simp [hkills]) hready) hserved
  | data c sender bytes as hget hbytes has =>
      apply hacts.idle _ _ hs
      · cases has <;> simp
      · cases has <;> simp
  | _ => exact hacts.idle (by simp [hkills]) (by simp [hkills]) hs

/-! ### The invariant -/

theorem objects_of_reachable (hreachable : (manager o).Reachable s) : Objects s := by
  refine hreachable.keeps_reachable .initial ?_
  intro s e t hs hobjects hstep
  cases hstep
  obtain ⟨as, -, hacts⟩ := step_moves (inv_of_reachable hs) e
  exact hobjects.acts (inv_of_reachable hs) hacts

theorem idle_of_reachable (hreachable : (manager o).Reachable s) : Idle s := by
  refine hreachable.keeps_reachable (.inl rfl) ?_
  intro s e t hs hidle hstep
  cases hstep
  exact idle_step (inv_of_reachable hs) hidle e

theorem represented (hreachable : (manager o).Reachable s) : Represented s := by
  have hinv := inv_of_reachable hreachable
  have hobjects := objects_of_reachable hreachable
  have hidle := idle_of_reachable hreachable
  have hlive : ∀ {fd c}, s.conns.get fd = some c → (s.conn c).closed = false → s.Live c :=
    fun hget => live_of_get hinv hget
  constructor
  · intro fd c hget
    exact (hinv.of_get fd c hget).2.1
  · intro fd c hget
    rw [hinv.byRemote_iff]
    exact ⟨fun hclosed => ⟨hlive hget hclosed, rfl⟩, fun h => h.1.2⟩
  · intro fd fd' c c' hget hget' hclosed hclosed' hremote
    have hc := (hinv.byRemote_iff _ c).mpr ⟨hlive hget hclosed, rfl⟩
    have hc' := (hinv.byRemote_iff _ c').mpr ⟨hlive hget' hclosed', hremote.symm⟩
    rw [hc] at hc'
    exact Option.some.inj hc'
  · intro remoteId c hget
    obtain ⟨hc, hremote⟩ := (hinv.byRemote_iff _ _).mp hget
    exact ⟨hc.2, hremote, _, hinv.get_of_live c hc⟩
  · exact hinv.ready_nodup
  · intro fd hready
    obtain ⟨c, hget, hc⟩ := hinv.ready fd hready
    rw [← (hinv.of_get fd c hget).2.1] at hready
    obtain ⟨hincoming, hnot⟩ := hobjects.ready c hc hready
    exact ⟨c, hget, hc.2, hincoming, hnot⟩
  · rintro ⟨hready, hwaiters⟩
    exact hidle.elim hready hwaiters
  · intro fd c _
    exact hobjects.tombstone c
  · intro fd c _
    rw [hobjects.queued, List.length_flatten]

/-- The remote connects again while its first connection waits to be accepted. -/
theorem represented_superseded : ∃ s, Represented s ∧ s.readyFds = [1] ∧ s.reservedFds = [0, 1] := by
  have hrun : (manager ⟨"a", 2⟩).Reachable _ :=
    ⟨[.message ⟨"b", "a", .connect⟩, .message ⟨"b", "a", .data [1, 2]⟩,
      .message ⟨"b", "a", .connect⟩], rfl⟩
  exact ⟨_, represented hrun, by decide, by decide⟩

end LlmRuntime.PeerManager

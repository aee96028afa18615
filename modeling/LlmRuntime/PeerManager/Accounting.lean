import LlmRuntime.PeerManager.Steps
import Mathlib.Data.List.Chain

/-!
# Whose number it is

The counters of the manager against the numbers it holds. Opening a connection and the Runtime's
`close_connection()` alternate for every fd number, and nothing else touches a reservation.
-/

namespace LlmRuntime.PeerManager

open Function Transition

def Effect.opens (fd : Nat) : Effect → Bool
  | .event (.opened fd' _ _) => fd' = fd
  | _ => false

def Effect.releases (fd : Nat) : Effect → Bool
  | .event (.runtimeClose fd' _ _) => fd' = fd
  | _ => false

/-- The openings (`true`) and the releases (`false`) of a number, in order. -/
def ledger (fd : Nat) (log : List Effect) : List Bool :=
  log.filterMap fun effect =>
    if effect.opens fd then some true else if effect.releases fd then some false else none

structure Books (s : Manager) : Prop where
  connections : ∀ fd, count s.connectionCounts fd =
    count s.runtimeCloseCounts fd + if s.conns.has fd then 1 else 0
  accepted : ∀ fd, count s.acceptedCounts fd + (if fd ∈ s.readyFds then 1 else 0) ≤
    count s.connectionCounts fd
  alternates : ∀ fd, (ledger fd s.log).IsChain (· ≠ ·)
  last : ∀ fd, (ledger fd s.log).getLast? = some true ↔ s.conns.has fd = true

/-- What the counters and the numbers of a manager say to each other. -/
structure Accounts (o : Options) (s : Manager) : Prop where
  connections : ∀ fd, count s.connectionCounts fd =
    count s.runtimeCloseCounts fd + if s.conns.has fd then 1 else 0
  accepted : ∀ fd, count s.acceptedCounts fd ≤ count s.connectionCounts fd
  /-- Between one connection and the next on a number the Runtime closed that number once. -/
  one_release : ∀ fd l₁ first l₂ second l₃, s.log = l₁ ++ first :: (l₂ ++ second :: l₃) →
    first.opens fd = true → second.opens fd = true → (∀ effect ∈ l₂, effect.opens fd = false) →
    l₂.countP (Effect.releases fd) = 1
  only_close_releases : ∀ e fd, s.conns.has fd = true → (s.step o e).conns.has fd = false →
    e = .closeConnection fd
  newFd_some : ∀ nextFd fd, ((s.setNextFd nextFd).newFd o).1 = some fd →
    fd < o.fdMax ∧ s.conns.has fd = false
  newFd_none : ∀ nextFd, ((s.setNextFd nextFd).newFd o).1 = none ↔
    ∀ fd < o.fdMax, s.conns.has fd = true
  connect_fails : ∀ nextFd remoteId done,
    .connectDone none done (-1) ∈ ((s.setNextFd nextFd).connect o remoteId done).log.drop s.log.length ↔
      ∀ fd < o.fdMax, s.conns.has fd = true

variable {o : Options} {s t : Manager} {a : Act} {c : ConnId} {fd : Nat}

/-! ### Counters and ledgers -/

theorem count_bump (counter : JsMap Nat Nat) (fd fd' : Nat) :
    count (bump counter fd) fd' = count counter fd' + if fd' = fd then 1 else 0 := by
  rw [count, bump, JsMap.get_set]
  split
  · rename_i h
    rw [h, Option.getD_some]
  · rfl

theorem ledger_append (fd : Nat) (l₁ l₂ : List Effect) :
    ledger fd (l₁ ++ l₂) = ledger fd l₁ ++ ledger fd l₂ :=
  List.filterMap_append

theorem ledger_eq_nil {l : List Effect}
    (h : ∀ effect ∈ l, effect.opens fd = false ∧ effect.releases fd = false) : ledger fd l = [] := by
  rw [ledger, List.filterMap_eq_nil_iff]
  intro effect hmem
  simp [h effect hmem]

theorem releases_of_opens {effect : Effect} (h : effect.opens fd = true) :
    effect.releases fd = false := by
  cases effect with
  | event notice => cases notice <;> first | rfl | simp [Effect.opens] at h
  | _ => rfl

theorem ledger_cons (fd : Nat) (effect : Effect) (l : List Effect) :
    ledger fd (effect :: l) =
      (if effect.opens fd then [true] else if effect.releases fd then [false] else []) ++
        ledger fd l := by
  rw [ledger, List.filterMap_cons]
  cases effect.opens fd <;> cases effect.releases fd <;> rfl

theorem count_false_ledger (fd : Nat) (l : List Effect) :
    (ledger fd l).count false = l.countP (Effect.releases fd) := by
  induction l with
  | nil => rfl
  | cons effect rest ih =>
      rw [ledger_cons, List.count_append, ih, List.countP_cons, Nat.add_comm]
      by_cases hopens : effect.opens fd = true
      · simp [hopens, releases_of_opens hopens]
      · cases effect.releases fd <;> simp [hopens]

theorem true_notMem_ledger {l : List Effect} (h : ∀ effect ∈ l, effect.opens fd = false) :
    true ∉ ledger fd l := by
  rw [ledger, List.mem_filterMap]
  rintro ⟨effect, hmem, hbook⟩
  rw [h effect hmem] at hbook
  cases hrel : effect.releases fd <;> simp [hrel] at hbook

/-- Between two openings that follow each other in an alternating ledger there is one release. -/
theorem eq_singleton_of_alternates {l : List Bool} (h : (true :: (l ++ [true])).IsChain (· ≠ ·))
    (hl : true ∉ l) : l = [false] := by
  match l, h, hl with
  | [], h, _ => simp at h
  | [false], _, _ => rfl
  | [true], _, hl => simp at hl
  | false :: false :: rest, h, _ => simp at h
  | false :: true :: rest, _, hl => simp at hl
  | true :: _ :: rest, _, hl => simp at hl

/-! ### The books are kept -/

theorem Books.initial : Books .initial := by
  constructor <;> simp [Manager.initial, count, JsMap.has, ledger]

theorem Books.of_same (hbooks : Books s) (hconns : t.conns = s.conns)
    (hconnections : t.connectionCounts = s.connectionCounts)
    (hreleases : t.runtimeCloseCounts = s.runtimeCloseCounts)
    (haccepted : t.acceptedCounts = s.acceptedCounts) (hready : ∀ fd ∈ t.readyFds, fd ∈ s.readyFds)
    (hlog : ∃ more, t.log = s.log ++ more ∧
      ∀ effect ∈ more, ∀ fd, effect.opens fd = false ∧ effect.releases fd = false) :
    Books t := by
  obtain ⟨more, hlog, hmore⟩ := hlog
  have hledger : ∀ fd, ledger fd t.log = ledger fd s.log := by
    intro fd
    rw [hlog, ledger_append, ledger_eq_nil fun effect hmem => hmore effect hmem fd, List.append_nil]
  constructor
  · intro fd
    rw [hconnections, hreleases, hconns]
    exact hbooks.connections fd
  · intro fd
    have hold := hbooks.accepted fd
    have hmem := hready fd
    rw [haccepted, hconnections]
    split at hold <;> split <;> simp_all
    omega
  · intro fd
    rw [hledger]
    exact hbooks.alternates fd
  · intro fd
    rw [hledger, hconns]
    exact hbooks.last fd

theorem Books.of_opened (hbooks : Books s) {remoteId : String} {n : Nat} {c : ConnId}
    (hfree : s.conns.get fd = none) (hconns : t.conns = s.conns.set fd c)
    (hconnections : t.connectionCounts = bump s.connectionCounts fd)
    (hreleases : t.runtimeCloseCounts = s.runtimeCloseCounts)
    (haccepted : t.acceptedCounts = s.acceptedCounts)
    (hready : t.readyFds = s.readyFds ∨ t.readyFds = s.readyFds ++ [fd] ∧ fd ∉ s.readyFds)
    (hlog : t.log = s.log ++ [.event (.opened fd remoteId n)]) : Books t := by
  have hhas : ∀ fd', t.conns.has fd' = if fd' = fd then true else s.conns.has fd' := by
    intro fd'
    rw [JsMap.has, hconns, JsMap.get_set, JsMap.has]
    split <;> rfl
  have hnot : s.conns.has fd = false := by simp [JsMap.has, hfree]
  have hledger : ∀ fd', ledger fd' t.log = ledger fd' s.log ++ if fd' = fd then [true] else [] := by
    intro fd'
    rw [hlog, ledger_append]
    by_cases hfd : fd' = fd <;> simp [ledger, Effect.opens, Effect.releases, hfd, Ne.symm]
  constructor
  · intro fd'
    have hold := hbooks.connections fd'
    rw [hconnections, count_bump, hreleases, hhas]
    by_cases hfd : fd' = fd
    · subst hfd
      simp [hold, hnot]
    · simp [hold, hfd]
  · intro fd'
    have hold := hbooks.accepted fd'
    rw [haccepted, hconnections, count_bump]
    by_cases hfd : fd' = fd
    · subst hfd
      rcases hready with hready | ⟨hready, hmem⟩
      · rw [hready, if_pos rfl]
        omega
      · rw [if_neg hmem] at hold
        rw [hready, if_pos rfl, if_pos (by simp)]
        omega
    · rw [if_neg hfd]
      rcases hready with hready | ⟨hready, -⟩
      · rwa [hready]
      · simpa [hready, hfd] using hold
  · intro fd'
    rw [hledger, List.isChain_append]
    by_cases hfd : fd' = fd
    · subst hfd
      rw [if_pos rfl]
      refine ⟨hbooks.alternates fd', List.isChain_singleton true, ?_⟩
      intro x hx y hy heq
      rw [List.head?_singleton, Option.mem_some_iff] at hy
      rw [Option.mem_def, heq, ← hy, hbooks.last fd', hnot] at hx
      cases hx
    · rw [if_neg hfd]
      exact ⟨hbooks.alternates fd', List.isChain_nil, by simp⟩
  · intro fd'
    rw [hledger, hhas]
    by_cases hfd : fd' = fd
    · simp [hfd]
    · simpa [hfd] using hbooks.last fd'

theorem Books.of_release (hbooks : Books s) {remoteId : String} {n : Nat} {c : ConnId}
    (hget : s.conns.get fd = some c) (hconns : t.conns = s.conns.delete fd)
    (hconnections : t.connectionCounts = s.connectionCounts)
    (hreleases : t.runtimeCloseCounts = bump s.runtimeCloseCounts fd)
    (haccepted : t.acceptedCounts = s.acceptedCounts) (hready : t.readyFds = s.readyFds)
    (hlog : t.log = s.log ++ [.event (.runtimeClose fd remoteId n)]) : Books t := by
  have hhas : ∀ fd', t.conns.has fd' = if fd' = fd then false else s.conns.has fd' := by
    intro fd'
    rw [JsMap.has, hconns, JsMap.get_delete, JsMap.has]
    split <;> rfl
  have hreserved : s.conns.has fd = true := by simp [JsMap.has, hget]
  have hledger : ∀ fd', ledger fd' t.log = ledger fd' s.log ++ if fd' = fd then [false] else [] := by
    intro fd'
    rw [hlog, ledger_append]
    by_cases hfd : fd' = fd <;> simp [ledger, Effect.opens, Effect.releases, hfd, Ne.symm]
  constructor
  · intro fd'
    have hold := hbooks.connections fd'
    rw [hconnections, hreleases, count_bump, hhas]
    by_cases hfd : fd' = fd
    · subst hfd
      simp [hold, hreserved]
    · simp [hold, hfd]
  · intro fd'
    rw [haccepted, hready, hconnections]
    exact hbooks.accepted fd'
  · intro fd'
    rw [hledger, List.isChain_append]
    by_cases hfd : fd' = fd
    · subst hfd
      rw [if_pos rfl]
      refine ⟨hbooks.alternates fd', List.isChain_singleton false, ?_⟩
      intro x hx y hy
      rw [List.head?_singleton, Option.mem_some_iff] at hy
      rw [Option.mem_def, (hbooks.last fd').mpr hreserved, Option.some.injEq] at hx
      simp [← hx, ← hy]
    · rw [if_neg hfd]
      exact ⟨hbooks.alternates fd', List.isChain_nil, by simp⟩
  · intro fd'
    rw [hledger, hhas]
    by_cases hfd : fd' = fd
    · simp [hfd]
    · simpa [hfd] using hbooks.last fd'

theorem Books.does (hinv : Inv o s) (hbooks : Books s) (h : Does o s a t) : Books t := by
  cases h with
  | quiet _ _ effects hplain =>
      refine hbooks.of_same rfl rfl rfl rfl (fun _ h => h) ⟨effects, rfl, ?_⟩
      intro effect hmem fd
      have h := hplain effect hmem
      cases effect with
      | event notice => cases notice <;> simp_all [Effect.Plain, Effect.opens, Effect.releases]
      | _ => exact ⟨rfl, rfl⟩
  | incoming fd remoteId _ hfree _ =>
      refine hbooks.of_opened hfree rfl rfl rfl rfl (.inr ⟨rfl, ?_⟩) rfl
      intro hmem
      obtain ⟨c, hget, -⟩ := hinv.ready fd hmem
      simp [hfree] at hget
  | outgoing fd remoteId done _ hfree _ => exact hbooks.of_opened hfree rfl rfl rfl rfl (.inl rfl) rfl
  | release c hget => exact hbooks.of_release hget rfl rfl rfl rfl rfl rfl
  | connected | drain | refuse | finish =>
      refine hbooks.of_same rfl rfl rfl rfl (fun _ h => h) ⟨_, rfl, ?_⟩
      simp [Effect.opens, Effect.releases]
  | kill c _ =>
      refine hbooks.of_same rfl rfl rfl rfl (fun _ => List.mem_of_mem_erase)
        ⟨_, by rw [List.append_assoc, List.append_assoc], ?_⟩
      simp only [List.mem_append, List.mem_map, List.mem_singleton]
      rintro effect (⟨r, -, rfl⟩ | ⟨done, -, rfl⟩ | rfl) fd <;> exact ⟨rfl, rfl⟩
  | park | serve | send | hangUp | enqueue | wake =>
      exact hbooks.of_same rfl rfl rfl rfl (fun _ h => h) ⟨[], (List.append_nil _).symm, by simp⟩
  | accept c done hlive hready =>
      have hledger : ∀ fd, ledger fd (s.log ++ [.acceptDone c done (s.conn c).fd, .event (.accept
          (s.conn c).fd (s.conn c).remoteId (count s.acceptedCounts (s.conn c).fd + 1))]) =
          ledger fd s.log := by
        intro fd
        simp [ledger, Effect.opens, Effect.releases]
      constructor
      · exact hbooks.connections
      · intro fd
        have hold := hbooks.accepted fd
        rw [count_bump]
        by_cases hfd : fd = (s.conn c).fd
        · subst hfd
          rw [if_pos hready] at hold
          rw [if_pos rfl, if_neg (by simp [hinv.ready_nodup.mem_erase_iff])]
          omega
        · simpa only [if_neg hfd, List.mem_erase_of_ne hfd, Nat.add_zero] using hold
      · intro fd
        rw [hledger]
        exact hbooks.alternates fd
      · intro fd
        rw [hledger]
        exact hbooks.last fd

theorem books_of_reachable (h : (manager o).Reachable s) : Books s := by
  refine h.keeps_reachable .initial ?_
  intro s e t hs hbooks hstep
  obtain ⟨as, -, hacts⟩ := step_moves (inv_of_reachable hs) e
  cases hstep
  exact (hacts.keeps (P := fun u => Inv o u ∧ Books u)
    (fun u a v hu hdoes => ⟨hu.1.does hdoes, hu.2.does hu.1 hdoes⟩)
    ⟨inv_of_reachable hs, hbooks⟩).2

/-! ### What the books say -/

theorem one_release_between {l₁ l₂ l₃ : List Effect} {first second : Effect} (hbooks : Books s)
    (hlog : s.log = l₁ ++ first :: (l₂ ++ second :: l₃)) (hfirst : first.opens fd = true)
    (hsecond : second.opens fd = true) (hnone : ∀ effect ∈ l₂, effect.opens fd = false) :
    l₂.countP (Effect.releases fd) = 1 := by
  have hchain := hbooks.alternates fd
  rw [hlog, ledger_append, ledger_cons, ledger_append, ledger_cons, if_pos hfirst, if_pos hsecond] at hchain
  have hmid : (true :: (ledger fd l₂ ++ [true])).IsChain (· ≠ ·) := by
    refine hchain.infix ⟨ledger fd l₁, ledger fd l₃, ?_⟩
    simp
  have hledger := eq_singleton_of_alternates hmid (true_notMem_ledger hnone)
  rw [← count_false_ledger, hledger]
  rfl

/-- Only `release` gives a number back. -/
theorem has_of_does (h : Does o s a t) (ha : ∀ c, a = .release c → (s.conn c).fd ≠ fd)
    (hhas : s.conns.has fd = true) : t.conns.has fd = true := by
  cases h with
  | incoming fd' _ _ hfree _ | outgoing fd' _ _ _ hfree _ =>
      rw [JsMap.has, JsMap.get_set]
      split
      · rfl
      · exact hhas
  | release c _ _ =>
      rw [JsMap.has, JsMap.get_delete_of_ne _ (ha c rfl).symm]
      exact hhas
  | _ => exact hhas

theorem has_of_acts {as : List Act} (h : Acts o s as t)
    (has : ∀ c, .release c ∈ as → c < s.created ∧ (s.conn c).fd ≠ fd)
    (hhas : s.conns.has fd = true) : t.conns.has fd = true := by
  induction h with
  | nil => exact hhas
  | cons hdoes _ ih =>
      obtain ⟨hcreated, hstatic⟩ := hdoes.static
      refine ih ?_ (has_of_does hdoes ?_ hhas)
      · intro c hmem
        obtain ⟨hc, hfd⟩ := has c (List.mem_cons_of_mem _ hmem)
        exact ⟨Nat.lt_of_lt_of_le hc hcreated, (hstatic c hc).1 ▸ hfd⟩
      · rintro c rfl
        exact (has c List.mem_cons_self).2

theorem only_close_releases (hinv : Inv o s) {e : Event} (hhas : s.conns.has fd = true)
    (hfree : (s.step o e).conns.has fd = false) : e = .closeConnection fd := by
  obtain ⟨as, hmoves, hacts⟩ := step_moves hinv e
  by_contra hne
  rw [has_of_acts hacts ?_ hhas] at hfree
  · cases hfree
  intro c hmem
  have hkills : ∀ remoteId, .release c ∉ s.kills remoteId := by simp [Manager.kills]
  cases hmoves with
  | closeTombstone c' hget _ =>
      rw [List.mem_singleton, Act.release.injEq] at hmem
      subst hmem
      exact ⟨(hinv.of_get _ c hget).1, fun hfd => hne (by rw [hfd])⟩
  | closeLive c' hlive =>
      simp only [List.mem_cons, Act.release.injEq, List.not_mem_nil, or_false, reduceCtorEq,
        false_or] at hmem
      subst hmem
      exact ⟨hlive.1, fun hfd => hne (by rw [hfd])⟩
  | data c' sender bytes as hget _ has =>
      cases has <;> simp at hmem
  | _ => simp [hkills] at hmem

theorem newFd_none_iff : (s.newFd o).1 = none ↔ ∀ fd < o.fdMax, s.conns.has fd = true := by
  constructor
  · intro h
    exact (newFd_eq_none h).1
  · intro hfull
    by_contra hsome
    obtain ⟨fd, hfd⟩ := Option.ne_none_iff_exists'.mp hsome
    obtain ⟨hlt, hfree, -⟩ := newFd_eq_some hfd
    have hhas := hfull fd hlt
    simp [JsMap.has, hfree] at hhas

/-- The calls back of an act that opens or tombstones a connection are about a connection. -/
theorem log_of_does (h : Does o s a t) (ha : ∀ done, a ≠ .refuse done) :
    ∃ more, t.log = s.log ++ more ∧ ∀ done fd, .connectDone none done fd ∉ more := by
  cases h with
  | refuse done => exact absurd rfl (ha done)
  | quiet _ _ effects hplain => exact ⟨effects, rfl, fun done fd hmem => hplain _ hmem⟩
  | finish => exact ⟨_, rfl, by simp⟩
  | incoming | outgoing | accept | connected | release => exact ⟨_, rfl, by simp⟩
  | drain => exact ⟨_, rfl, by simp⟩
  | kill => exact ⟨_, by rw [List.append_assoc, List.append_assoc], by simp⟩
  | park | serve | send | hangUp | enqueue | wake =>
      exact ⟨[], (List.append_nil _).symm, by simp⟩

theorem log_of_acts {as : List Act} (h : Acts o s as t) (has : ∀ done, .refuse done ∉ as) :
    ∃ more, t.log = s.log ++ more ∧ ∀ done fd, .connectDone none done fd ∉ more := by
  induction h with
  | nil => exact ⟨[], (List.append_nil _).symm, by simp⟩
  | cons hdoes _ ih =>
      simp only [List.mem_cons, not_or] at has
      obtain ⟨first, hfirst, hnone⟩ := log_of_does hdoes fun done => Ne.symm (has done).1
      obtain ⟨rest, hrest, hnone'⟩ := ih fun done => (has done).2
      refine ⟨first ++ rest, by rw [hrest, hfirst, List.append_assoc], fun done fd hmem => ?_⟩
      rcases List.mem_append.mp hmem with hmem | hmem
      · exact hnone done fd hmem
      · exact hnone' done fd hmem

theorem connect_fails_iff (hinv : Inv o s) (remoteId : String) (done : Callback) :
    .connectDone none done (-1) ∈ (s.connect o remoteId done).log.drop s.log.length ↔
      ∀ fd < o.fdMax, s.conns.has fd = true := by
  rw [← newFd_none_iff, Manager.connect]
  cases hfd : (s.newFd o).1 with
  | none =>
      rw [show s.newFd o = (none, (s.newFd o).2) from Prod.ext hfd rfl]
      have hquiet := (newFd_eq_none hfd).2
      generalize (s.newFd o).2 = t at hquiet
      cases hquiet
      simp
  | some fd =>
      obtain ⟨hlt, hfree, nextFd, hnext⟩ := newFd_eq_some hfd
      rw [show s.newFd o = (some fd, s.setNextFd nextFd) from Prod.ext hfd hnext]
      have hacts := createConn_outgoing (hinv.does (setNextFd_does nextFd)) remoteId hlt hfree done
      obtain ⟨more, hmore, hnone⟩ := log_of_acts hacts (by simp [Manager.kills])
      dsimp only at hmore ⊢
      rw [hmore, Manager.setNextFd_log, List.drop_left]
      simp [hnone]

/-- **fd ownership and accounting.** -/
theorem fd_accounting (hs : (manager o).Reachable s) : Accounts o s where
  connections := (books_of_reachable hs).connections
  accepted fd := Nat.le_trans (Nat.le_add_right _ _) ((books_of_reachable hs).accepted fd)
  one_release fd l₁ first l₂ second l₃ hlog hfirst hsecond hnone :=
    one_release_between (books_of_reachable hs) hlog hfirst hsecond hnone
  only_close_releases e fd hhas hfree := only_close_releases (inv_of_reachable hs) hhas hfree
  newFd_some nextFd fd h := by
    obtain ⟨hlt, hfree, -⟩ := newFd_eq_some h
    exact ⟨hlt, by simpa [JsMap.has] using hfree⟩
  newFd_none nextFd := newFd_none_iff
  connect_fails nextFd remoteId done :=
    connect_fails_iff ((inv_of_reachable hs).does (setNextFd_does nextFd)) remoteId done

/-- A connection comes in, is accepted, closed by the remote and released, and its only number is used
again. -/
theorem fd_accounting_reuse : ∃ s, Accounts ⟨"a", 1⟩ s := by
  have hrun : (manager ⟨"a", 1⟩).Reachable _ := ⟨[.accept 0, .message ⟨"b", "a", .connect⟩,
    .message ⟨"b", "a", .close⟩, .closeConnection 0, .message ⟨"b", "a", .connect⟩], rfl⟩
  exact ⟨_, fd_accounting hrun⟩

end LlmRuntime.PeerManager

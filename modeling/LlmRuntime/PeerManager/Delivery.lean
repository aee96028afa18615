import LlmRuntime.PeerManager.Steps

/-!
# Numbers the Runtime was never given

A tombstone keeps its number until the Runtime closes it, and the Runtime can only close a number that
some `done` callback gave it. A connection that dies while it is queued in `readyFds`, or while its
`connect()` is not answered, breaks that: `Spares` says where, and along runs that avoid it every
tombstone was delivered.
-/

namespace LlmRuntime.PeerManager

open Function Transition

/-- The callback gave the Runtime number `fd` for connection `c`. -/
def Effect.Gives (c : ConnId) (fd : Nat) : Effect → Prop
  | .acceptDone c' _ fd' => c' = c ∧ fd' = fd
  | .connectDone c' _ fd' => c' = some c ∧ fd' = fd
  | _ => False

instance (c : ConnId) (fd : Nat) : DecidablePred (Effect.Gives c fd) := fun effect => by
  cases effect <;> unfold Effect.Gives <;> infer_instance

def Delivered (s : Manager) (c : ConnId) : Prop := ∃ effect ∈ s.log, effect.Gives c (s.conn c).fd

instance (s : Manager) (c : ConnId) : Decidable (Delivered s c) :=
  inferInstanceAs (Decidable (∃ effect ∈ s.log, _))

/-- Alive, and its number still to be delivered. -/
def Undelivered (s : Manager) (c : ConnId) : Prop :=
  s.Live c ∧ ((s.conn c).fd ∈ s.readyFds ∨ (s.conn c).accepted ≠ none)

instance (s : Manager) (c : ConnId) : Decidable (s.Live c) := inferInstanceAs (Decidable (_ ∧ _))

instance (s : Manager) (c : ConnId) : Decidable (Undelivered s c) := inferInstanceAs (Decidable (_ ∧ _))

/-- The condition on a step: only the Runtime's own `close_connection()` ends a connection whose number
was not delivered. -/
def Spares (o : Options) (s : Manager) : Event → Prop
  | .connect remoteId _ =>
      (s.newFd o).1 ≠ none → ∀ c ∈ s.byRemote.get remoteId, ¬ Undelivered s c
  | .message ⟨sender, receiver, .connect⟩ =>
      receiver = o.nodeId → (s.newFd o).1 ≠ none → ∀ c ∈ s.byRemote.get sender, ¬ Undelivered s c
  | .message ⟨sender, receiver, .close⟩ =>
      receiver = o.nodeId → ∀ c ∈ s.byRemote.get sender, ¬ Undelivered s c
  | .close => ∀ c < s.created, ¬ Undelivered s c
  | _ => True

/-- No number is lost in a state. -/
structure NoneLost (o : Options) (s : Manager) : Prop where
  delivered : ∀ fd c, s.conns.get fd = some c → (s.conn c).closed = true → Delivered s c
  /-- Once the Runtime has closed all it was given, only live connections hold numbers, -/
  only_live : (∀ fd c, s.conns.get fd = some c → ¬ Delivered s c) →
    ∀ fd c, s.conns.get fd = some c → s.Live c
  /-- and numbers run out only when as many connections are alive. -/
  not_exhausted : (∀ fd c, s.conns.get fd = some c → ¬ Delivered s c) → (s.newFd o).1 = none →
    ∀ fd < o.fdMax, ∃ c, s.conns.get fd = some c ∧ s.Live c

/-- A connection comes in, and its remote closes it before `accept()`: the only number is gone. -/
theorem not_noneLost_of_early_close : ∃ s, (manager ⟨"a", 1⟩).run .initial
    [.message ⟨"b", "a", .connect⟩, .message ⟨"b", "a", .close⟩] = some s ∧ ¬ NoneLost ⟨"a", 1⟩ s := by
  refine ⟨_, rfl, fun h => ?_⟩
  have hdelivered := h.delivered 0 0 (by decide) (by decide)
  revert hdelivered
  decide

/-! ### Delivered or still to be delivered -/

/-- Every reserved number was delivered, will be, or belongs to a connection in `P`. -/
def KnownBut (P : ConnId → Prop) (s : Manager) : Prop :=
  ∀ fd c, s.conns.get fd = some c → P c ∨ Delivered s c ∨ Undelivered s c

variable {o : Options} {s t : Manager} {a : Act} {c : ConnId} {P : ConnId → Prop}

theorem log_mono (h : Does o s a t) : s.log <+: t.log := by
  cases h with
  | kill => exact ⟨_, by rw [List.append_assoc, List.append_assoc]⟩
  | park | serve | send | hangUp | enqueue | wake => exact List.prefix_refl _
  | _ => exact List.prefix_append _ _

theorem Delivered.does (hc : c < s.created) (h : Does o s a t) (hdelivered : Delivered s c) :
    Delivered t c := by
  obtain ⟨effect, hmem, hgives⟩ := hdelivered
  refine ⟨effect, (log_mono h).subset hmem, ?_⟩
  rwa [(h.static.2 c hc).1]

theorem fd_ne (hc : s.conns.get (s.conn c).fd = some c) {c' : ConnId}
    (hc' : s.conns.get (s.conn c').fd = some c') (hne : c' ≠ c) : (s.conn c').fd ≠ (s.conn c).fd := by
  intro hfd
  rw [hfd, hc, Option.some.injEq] at hc'
  exact hne hc'.symm

theorem Undelivered.of_frame (hu : Undelivered s c) (hcreated : s.created ≤ t.created)
    (hconn : (t.conn c).fd = (s.conn c).fd ∧ (t.conn c).closed = (s.conn c).closed ∧
      (t.conn c).accepted = (s.conn c).accepted)
    (hready : (s.conn c).fd ∈ s.readyFds → (s.conn c).fd ∈ t.readyFds) : Undelivered t c := by
  obtain ⟨hlive, hwait⟩ := hu
  obtain ⟨hfd, hclosed, haccepted⟩ := hconn
  refine ⟨⟨Nat.lt_of_lt_of_le hlive.1 hcreated, hclosed ▸ hlive.2⟩, ?_⟩
  rw [hfd, haccepted]
  exact hwait.imp_left hready

theorem Undelivered.does (hinv : Inv o s) (h : Does o s a t) (ha : a ≠ .kill c) (hu : Undelivered s c) :
    Delivered t c ∨ Undelivered t c := by
  have hget := hinv.get_of_live c hu.1
  cases h with
  | quiet | refuse | park | serve | finish | send | hangUp | release =>
      exact .inr (hu.of_frame (Nat.le_refl _) ⟨rfl, rfl, rfl⟩ fun h => h)
  | incoming fd remoteId =>
      refine .inr (hu.of_frame (Nat.le_succ _) ?_ (List.mem_append_left _))
      simp [update_of_ne (Nat.ne_of_lt hu.1.1)]
  | outgoing fd remoteId =>
      refine .inr (hu.of_frame (Nat.le_succ _) ?_ fun h => h)
      simp [update_of_ne (Nat.ne_of_lt hu.1.1)]
  | accept c' done hlive' hready =>
      by_cases hc : c = c'
      · subst hc
        exact .inl ⟨_, List.mem_append_right _ List.mem_cons_self, rfl, rfl⟩
      · refine .inr (hu.of_frame (Nat.le_refl _) ⟨rfl, rfl, rfl⟩ fun hmem => ?_)
        exact (List.mem_erase_of_ne (fd_ne (hinv.get_of_live c' hlive') hget hc)).mpr hmem
  | connected c' done hlive' hdone =>
      by_cases hc : c = c'
      · subst hc
        exact .inl ⟨_, List.mem_append_right _ List.mem_cons_self, rfl, by simp⟩
      · exact .inr (hu.of_frame (Nat.le_refl _) (by simp [update_of_ne hc]) fun h => h)
  | kill c' hlive' =>
      have hc : c ≠ c' := by
        rintro rfl
        exact ha rfl
      refine .inr (hu.of_frame (Nat.le_refl _) (by simp [update_of_ne hc]) fun hmem => ?_)
      exact (List.mem_erase_of_ne (fd_ne (hinv.get_of_live c' hlive') hget hc)).mpr hmem
  | enqueue c' | drain c' | wake c' =>
      refine .inr (hu.of_frame (Nat.le_refl _) ?_ fun h => h)
      by_cases hc : c = c' <;> simp [hc]

/-- A number that is reserved after an act was reserved before it, or has just been opened. -/
theorem get_of_does (h : Does o s a t) {fd : Nat} (hget : t.conns.get fd = some c) :
    s.conns.get fd = some c ∨ Undelivered t c := by
  cases h with
  | incoming fd' remoteId =>
      rw [JsMap.get_set] at hget
      split at hget
      · cases hget
        exact .inr ⟨⟨Nat.lt_succ_self _, by simp⟩, .inl (by simp)⟩
      · exact .inl hget
  | outgoing fd' remoteId =>
      rw [JsMap.get_set] at hget
      split at hget
      · cases hget
        exact .inr ⟨⟨Nat.lt_succ_self _, by simp⟩, .inr (by simp)⟩
      · exact .inl hget
  | release c' =>
      rw [JsMap.get_delete] at hget
      split at hget
      · cases hget
      · exact .inl hget
  | _ => exact .inl hget

theorem KnownBut.does (hinv : Inv o s) (hknown : KnownBut P s) (h : Does o s a t)
    (ha : ∀ c, a = .kill c → P c ∨ Delivered s c) : KnownBut P t := by
  intro fd c hget
  rcases get_of_does h hget with hget | hnew
  · have hc := (hinv.of_get fd c hget).1
    rcases hknown fd c hget with hP | hdelivered | hu
    · exact .inl hP
    · exact .inr (.inl (hdelivered.does hc h))
    · by_cases hkill : a = .kill c
      · exact (ha c hkill).imp_right fun hdelivered => .inl (hdelivered.does hc h)
      · exact .inr (hu.does hinv h hkill)
  · exact .inr (.inr hnew)

theorem KnownBut.acts (hinv : Inv o s) (hknown : KnownBut P s) {as : List Act} (h : Acts o s as t)
    (has : ∀ c, .kill c ∈ as → c < s.created ∧ (P c ∨ Delivered s c)) : KnownBut P t := by
  induction h with
  | nil => exact hknown
  | cons hdoes _ ih =>
      refine ih (hinv.does hdoes) (hknown.does hinv hdoes ?_) ?_
      · rintro c rfl
        exact (has c List.mem_cons_self).2
      · intro c hmem
        obtain ⟨hc, hP⟩ := has c (List.mem_cons_of_mem _ hmem)
        exact ⟨Nat.lt_of_lt_of_le hc hdoes.static.1, hP.imp_right fun hd => hd.does hc hdoes⟩

/-! ### Runs that spare the undelivered -/

theorem delivered_of_live (hknown : KnownBut (fun _ => False) s) (hinv : Inv o s) (hlive : s.Live c)
    (hu : ¬ Undelivered s c) : c < s.created ∧ (False ∨ Delivered s c) := by
  rcases hknown _ c (hinv.get_of_live c hlive) with hfalse | hdelivered | hu'
  · exact hfalse.elim
  · exact ⟨hlive.1, .inr hdelivered⟩
  · exact absurd hu' hu

/-- The Runtime's own close of a live connection takes its number with it. -/
theorem known_of_closeLive (hinv : Inv o s) (hknown : KnownBut (fun _ => False) s) (hlive : s.Live c)
    (h : Acts o s [.hangUp c, .kill c, .release c] t) : KnownBut (fun _ => False) t := by
  have hbut : KnownBut (· = c) t := by
    refine KnownBut.acts hinv (fun fd c' hget => (hknown fd c' hget).imp_left False.elim) h ?_
    intro c' hmem
    simp only [List.mem_cons, reduceCtorEq, Act.kill.injEq, List.not_mem_nil, or_false,
      false_or] at hmem
    exact ⟨hmem ▸ hlive.1, .inl hmem⟩
  have hinv' := hinv.acts h
  intro fd c' hget
  refine (hbut fd c' hget).imp_left ?_
  rintro rfl
  -- the number of the released object is free
  cases h with
  | cons hpost hrest =>
      cases hrest with
      | cons hkill hrest =>
          cases hrest with
          | cons hrelease hnil =>
              cases hnil
              have hfd := (hinv'.of_get fd c' hget).2.1
              cases hrelease
              simp [← hfd] at hget

theorem known_step (hinv : Inv o s) (hknown : KnownBut (fun _ => False) s) {e : Event}
    (hspares : Spares o s e) : KnownBut (fun _ => False) (s.step o e) := by
  obtain ⟨as, hmoves, hacts⟩ := step_moves hinv e
  have hfree : ∀ fd, fd < o.fdMax → s.conns.get fd = none → (s.newFd o).1 ≠ none := by
    intro fd hlt hget hnone
    have hhas := (newFd_eq_none hnone).1 fd hlt
    simp [JsMap.has, hget] at hhas
  have hkills : ∀ remoteId, (∀ c ∈ s.byRemote.get remoteId, ¬ Undelivered s c) →
      ∀ c, .kill c ∈ s.kills remoteId → c < s.created ∧ (False ∨ Delivered s c) := by
    intro remoteId hnot c hmem
    simp only [Manager.kills, List.mem_map, Option.mem_toList, Act.kill.injEq,
      exists_eq_right] at hmem
    exact delivered_of_live hknown hinv ((hinv.byRemote_iff _ c).mp hmem).1 (hnot c hmem)
  cases hmoves with
  | closeLive c hlive => exact known_of_closeLive hinv hknown hlive hacts
  | connect fd remoteId done hfd hget =>
      refine KnownBut.acts hinv hknown hacts fun c hmem => hkills remoteId ?_ c (by simpa using hmem)
      exact hspares (hfree fd hfd hget)
  | incoming fd sender hfd hget =>
      refine KnownBut.acts hinv hknown hacts fun c hmem => hkills sender ?_ c (by simpa using hmem)
      exact hspares rfl (hfree fd hfd hget)
  | incomingAccepted fd sender hfd hget =>
      refine KnownBut.acts hinv hknown hacts fun c hmem => hkills sender ?_ c (by simpa using hmem)
      exact hspares rfl (hfree fd hfd hget)
  | close cs hlive =>
      refine KnownBut.acts hinv hknown hacts fun c hmem => ?_
      have hc : s.Live c := hlive c (by simpa using hmem)
      exact delivered_of_live hknown hinv hc (hspares c hc.1)
  | closed c sender hget =>
      refine KnownBut.acts hinv hknown hacts fun c' hmem => ?_
      simp only [List.mem_singleton, Act.kill.injEq] at hmem
      subst hmem
      exact delivered_of_live hknown hinv ((hinv.byRemote_iff _ _).mp hget).1 (hspares rfl c' hget)
  | data c sender bytes as hget _ has =>
      refine KnownBut.acts hinv hknown hacts fun c' hmem => ?_
      cases has <;> simp at hmem
  | _ => exact KnownBut.acts hinv hknown hacts (by simp)

theorem KnownBut.initial : KnownBut (fun _ => False) .initial := by
  intro fd c hget
  simp [Manager.initial] at hget

/-- **No number is lost** along a run in which nothing but `close_connection()` ends an undelivered
connection. -/
theorem none_lost {es : List Event} (hspares : (manager o).Along (Spares o) .initial es)
    (hrun : (manager o).run .initial es = some s) : NoneLost o s := by
  have hknown : Inv o s ∧ KnownBut (fun _ => False) s := by
    refine run_keeps_along (P := fun u => Inv o u ∧ KnownBut (fun _ => False) u) ?_
      ⟨.initial, .initial⟩ hspares hrun
    rintro u e v ⟨hinv, hknown⟩ hspares hstep
    cases hstep
    obtain ⟨as, -, hacts⟩ := step_moves hinv e
    exact ⟨hinv.acts hacts, known_step hinv hknown hspares⟩
  obtain ⟨hinv, hknown⟩ := hknown
  have honly : (∀ fd c, s.conns.get fd = some c → ¬ Delivered s c) →
      ∀ fd c, s.conns.get fd = some c → s.Live c := by
    intro hclosed fd c hget
    rcases hknown fd c hget with hfalse | hdelivered | hu
    · exact hfalse.elim
    · exact absurd hdelivered (hclosed fd c hget)
    · exact hu.1
  refine ⟨?_, honly, ?_⟩
  · intro fd c hget hclosed
    rcases hknown fd c hget with hfalse | hdelivered | hu
    · exact hfalse.elim
    · exact hdelivered
    · simp [hu.1.2] at hclosed
  · intro hclosed hnone fd hfd
    have hhas := (newFd_eq_none hnone).1 fd hfd
    obtain ⟨c, hget⟩ := Option.isSome_iff_exists.mp hhas
    exact ⟨c, hget, honly hclosed fd c hget⟩

instance (o : Options) (s : Manager) (e : Event) : Decidable (Spares o s e) := by
  unfold Spares
  split <;> infer_instance

/-- The same close after `accept()`, and the Runtime's close after it. -/
theorem none_lost_accepted : ∃ s, NoneLost ⟨"a", 1⟩ s := by
  have hspares : (manager ⟨"a", 1⟩).Along (Spares ⟨"a", 1⟩) .initial
      [.message ⟨"b", "a", .connect⟩, .accept 0, .message ⟨"b", "a", .close⟩, .closeConnection 0,
        .message ⟨"b", "a", .connect⟩] := by
    decide
  exact ⟨_, none_lost hspares rfl⟩

end LlmRuntime.PeerManager

import LlmRuntime.PeerManager.Steps

/-!
# What can be seen of a connection

The bytes that went in by `send()`, the bytes that came out of `recv()`, the callbacks that were called
and the frames that were posted, each with what one act adds to it.
-/

namespace LlmRuntime.PeerManager

open Function

def Effect.bytesOn (c : ConnId) : Effect → Bytes
  | .write c' _ bytes => if c' = c then bytes else []
  | _ => []

def Post.bytesOn (c : ConnId) (post : Post) : Bytes :=
  match post.message.kind with
  | .data bytes => if post.conn = c then bytes else []
  | _ => []

/-- The bytes that `recv()` calls got out of connection `c`, in order. -/
def yielded (s : Manager) (c : ConnId) : Bytes := s.log.flatMap (Effect.bytesOn c)

/-- The bytes that `send()` accepted on connection `c`, in order. -/
def sentOn (s : Manager) (c : ConnId) : Bytes := s.posts.flatMap (Post.bytesOn c)

/-- Some `accept()` was given connection `c`. -/
def Accepted (s : Manager) (c : ConnId) : Prop := ∃ done fd, .acceptDone c done fd ∈ s.log

/-- The `connect()` of connection `c` was told a number. -/
def Connected (s : Manager) (c : ConnId) : Prop := ∃ done fd, .connectDone (some c) done fd ∈ s.log ∧ 0 ≤ fd

namespace Act

def sends (c : ConnId) : Act → Bytes
  | .send c' bytes => if c' = c then bytes else []
  | _ => []

def enqueues (c : ConnId) : Act → Bytes
  | .enqueue c' bytes => if c' = c then bytes else []
  | _ => []

def yields (c : ConnId) : Act → Bytes
  | .drain c' bytes => if c' = c then bytes else []
  | _ => []

def posts (o : Options) (s : Manager) : Act → List Post
  | .outgoing c remoteId _ => [⟨c, ⟨o.nodeId, remoteId, .connect⟩⟩]
  | .accept c _ => [⟨c, ⟨o.nodeId, (s.conn c).remoteId, .accepted⟩⟩]
  | .send c bytes => [⟨c, ⟨o.nodeId, (s.conn c).remoteId, .data bytes⟩⟩]
  | .hangUp c => [⟨c, ⟨o.nodeId, (s.conn c).remoteId, .close⟩⟩]
  | _ => []

/-- The act opens connection `c`. -/
def Opens (c : ConnId) (remoteId : String) (a : Act) : Prop :=
  a = .incoming c remoteId ∨ ∃ done, a = .outgoing c remoteId done

/-- The connection an act is about. -/
def conn? : Act → Option ConnId
  | .quiet | .refuse _ | .park _ | .serve _ | .finish _ _ => none
  | .incoming c _ | .outgoing c _ _ | .accept c _ | .connected c | .kill c | .send c _ | .hangUp c
  | .enqueue c _ | .drain c _ | .wake c _ | .release c => some c

end Act

variable {o : Options} {s t : Manager} {a : Act} {c : ConnId}

theorem Does.posts (h : Does o s a t) : t.posts = s.posts ++ a.posts o s := by
  cases h with
  | outgoing | accept | send | hangUp => rfl
  | _ => exact (List.append_nil _).symm

theorem Does.conn_of_ne (h : Does o s a t) (hc : a.conn? ≠ some c) : t.conn c = s.conn c := by
  have hne : ∀ c', a.conn? = some c' → c ≠ c' := by
    rintro c' hc' rfl
    exact hc hc'
  cases h with
  | incoming | outgoing | connected | kill | enqueue | drain | wake =>
      exact update_of_ne (hne _ rfl) _ _
  | _ => rfl

theorem sentOn_append {posts : List Post} (h : t.posts = s.posts ++ posts) (c : ConnId) :
    sentOn t c = sentOn s c ++ posts.flatMap (Post.bytesOn c) := by
  rw [sentOn, h, List.flatMap_append]
  rfl

theorem Does.sentOn (h : Does o s a t) (c : ConnId) : sentOn t c = sentOn s c ++ a.sends c := by
  rw [sentOn_append h.posts]
  cases a <;> simp [Act.posts, Act.sends, Post.bytesOn]

/-- `send()` accepts as many bytes as it returns, from the front. -/
theorem sentOn_send (o : Options) (s : Manager) (fd : Nat) (data : Bytes) (postError : Option String)
    (c : ConnId) : sentOn (s.send o fd data postError).2 c = sentOn s c ++
      if s.conns.get fd = some c then data.take (s.send o fd data postError).1.toNat else [] := by
  unfold Manager.send
  cases hget : s.conns.get fd with
  | none => simp
  | some c' =>
      dsimp only
      split
      · simp
      · split
        · simp
        · cases postError with
          | some error => simp [PeerManager.sentOn, Manager.emit]
          | none =>
              rw [sentOn_append (Manager.post_posts _ _ _ _)]
              simp only [Int.toNat_natCast]
              simp [Post.bytesOn]

theorem yielded_append {effects : List Effect} (h : t.log = s.log ++ effects) (c : ConnId) :
    yielded t c = yielded s c ++ effects.flatMap (Effect.bytesOn c) := by
  rw [yielded, h, List.flatMap_append]
  rfl

theorem flatMap_write (writes : List Bytes) (c c' : ConnId) (callback : Callback) :
    (writes.map (.write c' callback)).flatMap (Effect.bytesOn c) = if c' = c then writes.flatten else [] := by
  induction writes with
  | nil => simp
  | cons bytes writes ih =>
      rw [List.map_cons, List.flatMap_cons, ih, List.flatten_cons, Effect.bytesOn]
      split <;> rfl

theorem flatMap_plain {effects : List Effect} (h : ∀ effect ∈ effects, effect.Plain) (c : ConnId) :
    effects.flatMap (Effect.bytesOn c) = [] := by
  rw [List.flatMap_eq_nil_iff]
  intro effect hmem
  have hplain := h effect hmem
  cases effect with
  | write => exact absurd hplain (by simp [Effect.Plain])
  | _ => rfl

/-- What an act adds to the log. -/
theorem Does.log (h : Does o s a t) : ∃ effects, t.log = s.log ++ effects ∧
    (∀ c, effects.flatMap (Effect.bytesOn c) = a.yields c) ∧
    (∀ c done, a = .accept c done → ∃ fd, .acceptDone c done fd ∈ effects) ∧
    ∀ c done fd, .connectDone (some c) done fd ∈ effects → 0 ≤ fd → a = .connected c := by
  cases h with
  | quiet nextFd registrations effects hplain =>
      refine ⟨effects, rfl, flatMap_plain hplain, by simp, ?_⟩
      intro c done fd hmem
      exact absurd (hplain _ hmem) (by simp [Effect.Plain])
  | drain c' r writes queue hlive hqueue =>
      exact ⟨_, rfl, fun c => flatMap_write writes c c' r.callback, by simp, by simp⟩
  | kill c' hlive =>
      refine ⟨_, (List.append_assoc _ _ _).trans (List.append_assoc _ _ _), ?_, by simp, ?_⟩
      · intro c
        simp [Act.yields, List.flatMap_map, Effect.bytesOn]
      · intro c done fd hmem hfd
        simp at hmem
        omega
  | accept c' done hlive hready =>
      refine ⟨_, rfl, fun c => rfl, ?_, by simp⟩
      rintro c done ⟨⟩
      exact ⟨_, List.mem_cons_self⟩
  | connected c' done hlive hwait =>
      refine ⟨_, rfl, fun c => rfl, by simp, ?_⟩
      intro c done' fd hmem _
      simp at hmem
      rw [hmem.1]
  | release | incoming | outgoing => exact ⟨_, rfl, fun c => rfl, by simp, by simp⟩
  | refuse | finish => exact ⟨_, rfl, fun c => rfl, by simp, by simp⟩
  | park | serve | send | hangUp | enqueue | wake =>
      exact ⟨[], (List.append_nil _).symm, fun c => rfl, by simp, by simp⟩

/-! ### The callbacks that were called -/

/-- The end of a `connect()`, `accept()` or `recv()` call. -/
def Effect.isCall : Effect → Bool
  | .connectDone .. | .acceptDone .. | .recvDone .. => true
  | .write .. | .event _ => false

def calls (s : Manager) : List Effect := s.log.filter Effect.isCall

def Act.calls (s : Manager) : Act → List Effect
  | .refuse done => [.connectDone none done (-1)]
  | .finish recv ok => [.recvDone recv ok]
  | .accept c done => [.acceptDone c done (s.conn c).fd]
  | .connected c => (s.conn c).accepted.toList.map fun done => .connectDone (some c) done (s.conn c).fd
  | .kill c =>
      ((s.conn c).wake.toList.map fun r => .recvDone r.callback false) ++
        (s.conn c).accepted.toList.map fun done => .connectDone (some c) done (-1)
  | _ => []

theorem calls_append {effects : List Effect} (h : t.log = s.log ++ effects) :
    calls t = calls s ++ effects.filter Effect.isCall := by
  rw [calls, h, List.filter_append]
  rfl

theorem filter_plain {effects : List Effect} (h : ∀ effect ∈ effects, effect.Plain) :
    effects.filter Effect.isCall = [] := by
  rw [List.filter_eq_nil_iff]
  intro effect hmem
  have hplain := h effect hmem
  cases effect with
  | event => exact Bool.false_ne_true
  | _ => exact hplain.elim

theorem Does.calls (h : Does o s a t) : calls t = calls s ++ a.calls s := by
  cases h with
  | quiet nextFd registrations effects hplain =>
      rw [calls_append rfl, filter_plain hplain]
      rfl
  | refuse | finish | accept | incoming | outgoing | release =>
      rw [calls_append rfl]
      rfl
  | connected c done hlive hwait =>
      rw [calls_append rfl, Act.calls, hwait]
      rfl
  | kill c hlive =>
      rw [calls_append ((List.append_assoc _ _ _).trans (List.append_assoc _ _ _)), Act.calls]
      cases (s.conn c).wake <;> cases (s.conn c).accepted <;> rfl
  | drain c r writes queue hlive hqueue =>
      rw [calls_append rfl, List.filter_eq_nil_iff.mpr]
      · rfl
      · simp [Effect.isCall]
  | park | serve | send | hangUp | enqueue | wake => exact (List.append_nil _).symm

theorem accepted_iff : Accepted s c ↔ ∃ done fd, .acceptDone c done fd ∈ calls s := by
  simp [Accepted, calls, Effect.isCall]

theorem Does.of_accepted (h : Does o s a t) (hc : Accepted t c) :
    Accepted s c ∨ ∃ done, a = .accept c done := by
  obtain ⟨done, fd, hmem⟩ := accepted_iff.mp hc
  rw [h.calls, List.mem_append] at hmem
  rcases hmem with hmem | hmem
  · exact .inl (accepted_iff.mpr ⟨done, fd, hmem⟩)
  · right
    cases a <;> simp_all [Act.calls]

theorem Does.yielded (h : Does o s a t) (c : ConnId) : yielded t c = yielded s c ++ a.yields c := by
  obtain ⟨effects, hlog, hbytes, -⟩ := h.log
  rw [yielded_append hlog, hbytes]

theorem Does.accepted (h : Does o s a t) (hc : Accepted s c ∨ ∃ done, a = .accept c done) : Accepted t c := by
  obtain ⟨effects, hlog, -, haccept, -⟩ := h.log
  rcases hc with ⟨done, fd, hmem⟩ | ⟨done, ha⟩
  · exact ⟨done, fd, by rw [hlog]; exact List.mem_append_left _ hmem⟩
  · obtain ⟨fd, hmem⟩ := haccept c done ha
    exact ⟨done, fd, by rw [hlog]; exact List.mem_append_right _ hmem⟩

theorem Does.of_connected (h : Does o s a t) (hc : Connected t c) : Connected s c ∨ a = .connected c := by
  obtain ⟨effects, hlog, -, -, hconnected⟩ := h.log
  obtain ⟨done, fd, hmem, hfd⟩ := hc
  rw [hlog, List.mem_append] at hmem
  rcases hmem with hmem | hmem
  · exact .inl ⟨done, fd, hmem, hfd⟩
  · exact .inr (hconnected c done fd hmem hfd)

theorem Does.live (h : Does o s a t) (hc : t.Live c) :
    s.Live c ∨ (c = s.created ∧ (∃ remoteId, a.Opens c remoteId) ∧ (t.conn c).queue = []) := by
  have hnew : ∀ {conn : Conn}, c < s.created + 1 →
      (update s.conn s.created conn c).closed = false → s.Live c ∨ c = s.created := by
    intro conn hlt hopen
    rcases Nat.lt_succ_iff_lt_or_eq.mp hlt with hlt | hlt
    · rw [update_of_ne (Nat.ne_of_lt hlt)] at hopen
      exact .inl ⟨hlt, hopen⟩
    · exact .inr hlt
  obtain ⟨hlt, hopen⟩ := hc
  cases h with
  | incoming fd remoteId =>
      refine (hnew hlt hopen).imp_right fun hc => ⟨hc, ⟨remoteId, ?_⟩, ?_⟩
      · rw [hc]
        exact .inl rfl
      · rw [hc]
        simp
  | outgoing fd remoteId done =>
      refine (hnew hlt hopen).imp_right fun hc => ⟨hc, ⟨remoteId, ?_⟩, ?_⟩
      · rw [hc]
        exact .inr ⟨done, rfl⟩
      · rw [hc]
        simp
  | connected c' | kill c' | enqueue c' | drain c' | wake c' =>
      refine .inl ⟨hlt, ?_⟩
      dsimp only at hopen
      rw [update_apply] at hopen
      split at hopen
      · simp_all
      · exact hopen
  | _ => exact .inl ⟨hlt, hopen⟩

theorem Does.sends_live (h : Does o s a t) (hsends : a.sends c ≠ []) : s.Live c := by
  cases h with
  | send c' bytes hlive =>
      simp only [Act.sends, ne_eq, ite_eq_right_iff, not_forall] at hsends
      exact hsends.1 ▸ hlive
  | _ => exact absurd rfl hsends

theorem Does.enqueues_live (h : Does o s a t) (henqueues : a.enqueues c ≠ []) : s.Live c := by
  cases h with
  | enqueue c' bytes hlive =>
      simp only [Act.enqueues, ne_eq, ite_eq_right_iff, not_forall] at henqueues
      exact henqueues.1 ▸ hlive
  | _ => exact absurd rfl henqueues

theorem Does.yields_live (h : Does o s a t) (hyields : a.yields c ≠ []) : s.Live c ∧ t.Live c := by
  cases h with
  | drain c' r writes queue hlive hqueue =>
      simp only [Act.yields, ne_eq, ite_eq_right_iff, not_forall] at hyields
      obtain ⟨rfl, -⟩ := hyields
      exact ⟨hlive, by simpa [Manager.Live] using hlive⟩
  | _ => exact absurd rfl hyields

/-- What was waiting on a connection is yielded, or waits on. -/
theorem Does.queue (h : Does o s a t) (hlive : s.Live c) (hlive' : t.Live c) :
    a.yields c ++ (t.conn c).queue.flatten = (s.conn c).queue.flatten ++ a.enqueues c := by
  by_cases hc : a.conn? = some c
  · cases h with
    | incoming | outgoing =>
        rw [Act.conn?, Option.some.injEq] at hc
        exact absurd hlive.1 (by rw [← hc]; exact Nat.lt_irrefl _)
    | kill c' =>
        rw [Act.conn?, Option.some.injEq] at hc
        subst hc
        simp [Manager.Live] at hlive'
    | drain c' r writes queue hlive hqueue =>
        rw [Act.conn?, Option.some.injEq] at hc
        subst hc
        simpa [Act.yields, Act.enqueues] using hqueue
    | _ =>
        rw [Act.conn?] at hc
        simp_all [Act.yields, Act.enqueues]
  · rw [h.conn_of_ne hc]
    cases a <;> simp_all [Act.conn?, Act.yields, Act.enqueues]

theorem Does.waiting (h : Does o s a t) (hwait : (t.conn c).accepted ≠ none) :
    (s.conn c).accepted ≠ none ∨ ∃ remoteId done, a = .outgoing c remoteId done := by
  by_cases hc : a.conn? = some c
  · cases h with
    | outgoing fd remoteId done =>
        rw [Act.conn?, Option.some.injEq] at hc
        exact .inr ⟨remoteId, done, by rw [hc]⟩
    | quiet | refuse | park | serve | finish => cases hc
    | _ =>
        rw [Act.conn?, Option.some.injEq] at hc
        subst hc
        simp_all
  · rw [h.conn_of_ne hc] at hwait
    exact .inl hwait

end LlmRuntime.PeerManager

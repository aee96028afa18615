import LlmRuntime.ChunkCache.Model

/-!
# Every call is answered

A thread that waits for a `get` waits for good if its promise is rejected, or never settled. It is not
rejected, and it is settled with the transaction. A `put` that is answered has been stored, one that is
rejected never is, and the store has nothing else.
-/

namespace LlmRuntime.ChunkCache

open Transition List
open VirtualFile (Bytes)

variable {op op' : Op} {database database' : Database} {lost : Bool} {e : OpEvent}

/-! ### A call -/

/-- What an event makes of a call. -/
inductive Moves (database : Database) (lost : Bool) (op : Op) : Database → Op → Prop where
  | succeeded (hlost : lost = false) (htx : op.tx = .active) (hrequest : op.request = .pending) :
      Moves database lost op database (op.succeed (op.call.result database.puts))
  | failed (error : Option String) (htx : op.tx = .active) (hrequest : op.request = .pending) :
      Moves database lost op database (op.fail error)
  | committed (hlost : lost = false) (htx : op.tx = .active) (hrequest : op.request = .unplaced) :
      Moves database lost op database op.commit
  | stored (result : Option Bytes) (hlost : lost = false) (htx : op.tx = .active)
      (hrequest : op.request = .done result) :
      Moves database lost op (op.commit.stored.elim database database.commit) op.commit
  | completed (htx : op.tx = .committed) : Moves database lost op database op.complete
  | aborted (error : Option String) (htx : op.tx = .active) (hrequest : op.request ≠ .pending) :
      Moves database lost op database (op.abort error)

theorem moves_of_step (h : op.step database lost e = some (database', op')) :
    Moves database lost op database' op' := by
  cases e with
  | succeeded =>
      simp only [Op.step] at h
      split at h
      · rename_i htx hrequest
        cases h
        exact .succeeded rfl htx hrequest
      · cases h
  | failed error =>
      simp only [Op.step] at h
      split at h
      · rename_i htx hrequest
        cases h
        exact .failed error htx hrequest
      · cases h
  | committed =>
      simp only [Op.step] at h
      split at h
      · rename_i htx hrequest
        cases h
        exact .committed rfl htx hrequest
      · rename_i result htx hrequest
        cases h
        exact .stored result rfl htx hrequest
      · cases h
  | completed =>
      simp only [Op.step] at h
      split at h
      · rename_i htx
        cases h
        exact .completed htx
      · cases h
  | aborted error =>
      simp only [Op.step] at h
      split at h
      · rename_i htx hrequest
        cases h
        exact .aborted error htx (by simp [hrequest])
      · rename_i htx hrequest
        cases h
        exact .aborted error htx (by simp [hrequest])
      · rename_i htx hrequest
        cases h
        exact .aborted error htx (by simp [hrequest])
      · cases h

/-- How far request and transaction are, and what their promises say. -/
inductive Shape : Request → Tx → Promise (Option Bytes) → Promise Unit → Prop where
  | refused (error : String) : Shape .unplaced (.refused error) .pending .pending
  | waiting : Shape .pending .active .pending .pending
  | unplaced (error : String) : Shape .unplaced .active (.rejected error) .pending
  | done (result : Option Bytes) : Shape (.done result) .active (.fulfilled result) .pending
  | failed (error error' : String) : Shape .failed .active (.rejected error) (.rejected error')
  | committedUnplaced (error : String) : Shape .unplaced .committed (.rejected error) .pending
  | committed (result : Option Bytes) : Shape (.done result) .committed (.fulfilled result) .pending
  | completeUnplaced (error : String) : Shape .unplaced .complete (.rejected error) (.fulfilled ())
  | complete (result : Option Bytes) : Shape (.done result) .complete (.fulfilled result) (.fulfilled ())
  | abortedUnplaced (error error' : String) : Shape .unplaced .aborted (.rejected error) (.rejected error')
  | aborted (result : Option Bytes) (error' : String) :
      Shape (.done result) .aborted (.fulfilled result) (.rejected error')
  | abortedFailed (error error' : String) : Shape .failed .aborted (.rejected error) (.rejected error')

namespace Op

def Sound (op : Op) : Prop := Shape op.request op.tx op.promises.first op.promises.second

theorem Sound.refuse (call : Call) (error : String) : (Op.refuse call error).Sound := .refused error

theorem Sound.place (call : Call) (refusal : Option String) : (Op.place call refusal).Sound := by
  cases refusal with
  | none => exact .waiting
  | some error => exact .unplaced error

theorem Sound.waiting (h : op.Sound) (htx : op.tx = .active) (hrequest : op.request = .pending) :
    op.promises.first = .pending ∧ op.promises.second = .pending := by
  rw [Sound, htx, hrequest] at h
  generalize op.promises.first = p at h
  generalize op.promises.second = q at h
  cases h
  exact ⟨rfl, rfl⟩

theorem Sound.moves (h : op.Sound) (hmoves : Moves database lost op database' op') : op'.Sound := by
  cases hmoves with
  | succeeded _ htx hrequest =>
      obtain ⟨hfirst, hsecond⟩ := h.waiting htx hrequest
      simp only [Sound, succeed, htx, Promise.All.settleFirst_first, Promise.All.settleFirst_second, hfirst,
        hsecond, Promise.pending_settle]
      exact .done _
  | failed error htx hrequest =>
      obtain ⟨hfirst, hsecond⟩ := h.waiting htx hrequest
      simp only [Sound, fail, htx, Promise.All.settleFirst_first, Promise.All.settleFirst_second,
        Promise.All.settleSecond_first, Promise.All.settleSecond_second, hfirst, hsecond,
        Promise.pending_settle]
      exact .failed _ _
  | committed _ htx hrequest =>
      simp only [Sound, commit, htx, hrequest] at h ⊢
      generalize op.promises.first = p at h ⊢
      generalize op.promises.second = q at h ⊢
      cases h
      exact .committedUnplaced _
  | stored result _ htx hrequest =>
      simp only [Sound, commit, htx, hrequest] at h ⊢
      generalize op.promises.first = p at h ⊢
      generalize op.promises.second = q at h ⊢
      cases h
      exact .committed _
  | completed htx =>
      simp only [Sound, complete, htx, Promise.All.settleSecond_first,
        Promise.All.settleSecond_second] at h ⊢
      generalize op.request = request at h ⊢
      generalize op.promises.first = p at h ⊢
      generalize op.promises.second = q at h ⊢
      cases h with
      | committedUnplaced error => exact .completeUnplaced error
      | committed result => exact .complete result
  | aborted error htx hrequest =>
      simp only [Sound, abort, htx, Promise.All.settleSecond_first, Promise.All.settleSecond_second] at h ⊢
      generalize op.request = request at h hrequest ⊢
      generalize op.promises.first = p at h ⊢
      generalize op.promises.second = q at h ⊢
      cases h with
      | waiting => exact absurd rfl hrequest
      | unplaced error' => exact .abortedUnplaced error' _
      | done result => exact .aborted result _
      | failed error' error'' => exact .abortedFailed error' error''

/-! ### What a call comes to -/

theorem stored_eq_some {put : String × Bytes} : op.stored = some put ↔
    op.call = .put put.1 put.2 ∧ (∃ result, op.request = .done result) ∧
      (op.tx = .committed ∨ op.tx = .complete) := by
  obtain ⟨key, chunk⟩ := put
  rw [stored]
  split
  · rename_i hcall hrequest htx
    simp [hcall, hrequest, htx]
  · rename_i hcall hrequest htx
    simp [hcall, hrequest, htx]
  · rename_i hcommitted hcomplete
    refine iff_of_false (by simp) ?_
    intro h
    obtain ⟨hcall, ⟨result, hrequest⟩, htx⟩ := h
    rcases htx with htx | htx
    · exact hcommitted key chunk result hcall hrequest htx
    · exact hcomplete key chunk result hcall hrequest htx

theorem outcome_of_moves (h : op.tx = .active ∨ op.tx = .committed) :
    op.outcome = op.promises.result.map Prod.fst := by
  rcases h with h | h <;> simp only [outcome, h]

/-- An event comes to a call that has its transaction, and leaves it with one. -/
theorem tx_of_moves (hmoves : Moves database lost op database' op') :
    (op.tx = .active ∨ op.tx = .committed) ∧ ∀ error, op'.tx ≠ .refused error := by
  cases hmoves with
  | succeeded _ htx _ | failed _ htx _ => exact ⟨.inl htx, by simp [succeed, fail, htx]⟩
  | committed _ htx _ | stored _ _ htx _ => exact ⟨.inl htx, by simp [commit]⟩
  | completed htx => exact ⟨.inr htx, by simp [complete]⟩
  | aborted _ htx _ => exact ⟨.inl htx, by simp [abort]⟩

theorem call_of_moves (hmoves : Moves database lost op database' op') : op'.call = op.call := by
  cases hmoves <;> rfl

theorem result_stays_of_moves (hmoves : Moves database lost op database' op')
    (h : op.promises.result ≠ .pending) : op'.promises.result = op.promises.result := by
  cases hmoves with
  | succeeded => exact Promise.All.result_stays _ _ h
  | failed error =>
      have hfirst := Promise.All.result_stays (.rejected (error.getD op.call.failure)) .pending h
      refine Eq.trans (Promise.All.result_stays _ _ ?_) hfirst
      rwa [Promise.All.settleFirst, hfirst]
  | committed | stored => rfl
  | completed => exact Promise.All.result_stays _ _ h
  | aborted => exact Promise.All.result_stays _ _ h

/-- What has been settled stays. -/
theorem outcome_stays (hmoves : Moves database lost op database' op') (h : op.outcome ≠ .pending) :
    op'.outcome = op.outcome := by
  obtain ⟨htx, htx'⟩ := tx_of_moves hmoves
  rw [outcome_of_moves htx] at h ⊢
  have hresult := result_stays_of_moves hmoves fun hpending => h (by rw [hpending]; rfl)
  rw [← hresult, outcome]
  split
  · rename_i error hrefused
    exact absurd hrefused (htx' error)
  · rfl

theorem outcome_eq (op : Op) : (∃ error, op.tx = .refused error ∧ op.outcome = .rejected error) ∨
    (∀ error, op.tx ≠ .refused error) ∧ op.outcome = op.promises.result.map Prod.fst := by
  rw [outcome]
  split
  · rename_i error htx
    exact .inl ⟨error, htx, rfl⟩
  · rename_i htx
    exact .inr ⟨htx, rfl⟩

theorem Sound.of_fulfilled {result : Option Bytes} (h : op.Sound) (houtcome : op.outcome = .fulfilled result) :
    op.request = .done result ∧ op.tx = .complete := by
  rcases op.outcome_eq with ⟨error, -, hrejected⟩ | ⟨htx, heq⟩
  · rw [hrejected] at houtcome
    cases houtcome
  · rw [heq, Promise.map_eq_fulfilled] at houtcome
    obtain ⟨value, hvalue, rfl⟩ := houtcome
    obtain ⟨hfirst, hsecond⟩ := (op.promises.fulfilled_iff value.1 value.2).mp hvalue
    rw [Sound, hfirst, hsecond] at h
    generalize op.request = request at h ⊢
    generalize op.tx = tx at h ⊢
    cases h
    exact ⟨rfl, rfl⟩

theorem Sound.of_rejected {error : String} (h : op.Sound) (houtcome : op.outcome = .rejected error) :
    op.stored = none := by
  rcases op.outcome_eq with ⟨error, htx, -⟩ | ⟨-, heq⟩
  · cases hstored : op.stored with
    | none => rfl
    | some put =>
        obtain ⟨-, -, hcommitted⟩ := stored_eq_some.mp hstored
        simp [htx] at hcommitted
  · rw [heq, Promise.map_eq_rejected] at houtcome
    have hrejected := op.promises.of_rejected error houtcome
    rw [Sound] at h
    rw [stored]
    generalize op.request = request at h ⊢
    generalize op.tx = tx at h ⊢
    generalize op.promises.first = p at h hrejected
    generalize op.promises.second = q at h hrejected
    cases h with
    | committed | complete => simp at hrejected
    | refused | waiting | unplaced | done | failed | committedUnplaced | completeUnplaced | abortedUnplaced
      | aborted | abortedFailed => simp

theorem Sound.of_pending (h : op.Sound) (houtcome : op.outcome = .pending) :
    op.tx = .active ∨ op.tx = .committed := by
  rcases op.outcome_eq with ⟨error, -, hrejected⟩ | ⟨htx, heq⟩
  · rw [hrejected] at houtcome
    cases houtcome
  · rw [heq, Promise.map_eq_pending] at houtcome
    have hnone := op.promises.of_pending houtcome
    have hboth := (op.promises.fulfilled_iff · ())
    rw [Sound] at h
    generalize op.request = request at h
    generalize op.tx = tx at h htx ⊢
    generalize op.promises.first = p at h hnone hboth
    generalize op.promises.second = q at h hnone hboth
    cases h with
    | waiting | unplaced | done | failed => exact .inl rfl
    | committed | committedUnplaced => exact .inr rfl
    | complete result =>
        have hfulfilled := (hboth result).mpr ⟨rfl, rfl⟩
        rw [houtcome] at hfulfilled
        cases hfulfilled
    | completeUnplaced error | abortedUnplaced error | abortedFailed error =>
        exact absurd rfl (hnone error).1
    | aborted _ error => exact absurd rfl (hnone error).2
    | refused error => exact absurd rfl (htx error)

/-- An event that commits a put, or does nothing to the store. -/
theorem stored_of_moves (hmoves : Moves database lost op database' op') :
    database' = database ∧ op'.stored = op.stored ∨
      ∃ put, op.stored = none ∧ op'.stored = some put ∧ database' = database.commit put := by
  have hactive : op.tx = .active → op.stored = none := by
    intro htx
    simp [stored, htx]
  cases hmoves with
  | succeeded _ htx _ | failed _ htx _ =>
      rw [hactive htx]
      exact .inl ⟨rfl, by simp [stored, succeed, fail, htx]⟩
  | committed _ htx hrequest =>
      rw [hactive htx]
      exact .inl ⟨rfl, by simp [stored, commit, hrequest]⟩
  | stored result _ htx _ =>
      rw [hactive htx]
      cases hstored : op.commit.stored with
      | none => exact .inl ⟨rfl, rfl⟩
      | some put => exact .inr ⟨put, rfl, rfl, rfl⟩
  | completed htx =>
      refine .inl ⟨rfl, ?_⟩
      apply Option.ext
      intro put
      simp [stored_eq_some, complete, htx]
  | aborted _ htx _ =>
      rw [hactive htx]
      exact .inl ⟨rfl, by simp [stored, abort]⟩

/-- A `get` that has come to its `catch`. -/
def Missed (op : Op) : Prop := ∃ key error, op.call = .get key ∧ op.outcome = .rejected error

end Op

/-! ### A connection -/

namespace Connection

variable {conn conn' : Connection} {event : ConnectionEvent}

/-- What an event makes of a connection. -/
inductive Steps (database : Database) (conn : Connection) : Database → Connection → Prop where
  | phase (phase : Phase) : Steps database conn database { conn with phase }
  | opened : Steps database conn database.upgrade { conn with phase := .opened }
  | refuse (call : Call) (error : String) : Steps database conn database (conn.call (.refuse call error))
  | place (call : Call) (refusal : Option String) (puts : List (String × Bytes))
      (hstore : database = .withStore puts) : Steps database conn database (conn.call (.place call refusal))
  | op (i : Nat) (op op' : Op) (after : Database) (hop : conn.ops[i]? = some op)
      (hmoves : Moves database (conn.phase = .lost) op after op') :
      Steps database conn after (conn.settle i op op')

theorem exists_store (h : conn.transacts database = true) : ∃ puts, database = .withStore puts := by
  cases database with
  | missing | withoutStore => cases h
  | withStore puts => exact ⟨puts, rfl⟩

theorem steps_call (call : Call) (thrown : String) (refusal : Option String)
    (h : (if conn.transacts database then some (database, conn.call (.place call refusal))
      else some (database, conn.call (.refuse call thrown))) = some (database', conn')) :
    Steps database conn database' conn' := by
  split at h
  · rename_i htransacts
    obtain ⟨puts, hstore⟩ := exists_store htransacts
    cases h
    exact .place call refusal puts hstore
  · cases h
    exact .refuse call thrown

theorem steps_of_step (h : conn.step database event = some (database', conn')) :
    Steps database conn database' conn' := by
  cases event with
  | opened =>
      simp only [step] at h
      split at h
      · cases h
        exact .opened
      · cases h
  | openFailed error =>
      simp only [step] at h
      split at h
      · cases h
        exact .phase _
      · cases h
  | called call thrown refusal =>
      simp only [step] at h
      split at h
      · cases h
      · cases h
      · exact steps_call call thrown refusal h
  | op i e =>
      simp only [step] at h
      split at h
      · cases h
      · rename_i op hop
        rw [Option.map_eq_some_iff] at h
        obtain ⟨⟨database₁, op'⟩, hstep, hpair⟩ := h
        cases hpair
        exact .op i op op' database₁ hop (moves_of_step hstep)
  | close =>
      simp only [step] at h
      split at h
      · cases h
        exact .phase _
      · cases h
        exact .phase _
      · cases h
        exact .phase _
      · cases h
  | lose =>
      simp only [step] at h
      split at h
      · cases h
        exact .phase _
      · cases h
        exact .phase _
      · cases h

variable {before after : Promise (Option Bytes)}

theorem follow_cases (conn : Connection) (call : Call) (before after : Promise (Option Bytes)) :
    (∃ key error, call = .get key ∧ before = .pending ∧ after = .rejected error ∧
      conn.follow call before after = conn.caught error) ∨
    (¬ (∃ key error, call = .get key ∧ before = .pending ∧ after = .rejected error) ∧
      conn.follow call before after = conn) := by
  by_cases h : ∃ key error, call = .get key ∧ before = .pending ∧ after = .rejected error
  · obtain ⟨key, error, rfl, rfl, rfl⟩ := h
    exact .inl ⟨key, error, rfl, rfl, rfl, rfl⟩
  · refine .inr ⟨h, ?_⟩
    unfold follow
    split
    · rename_i key error
      exact absurd ⟨key, error, rfl, rfl, rfl⟩ h
    · rfl

@[simp] theorem follow_ops (call : Call) : (conn.follow call before after).ops = conn.ops := by
  rcases conn.follow_cases call before after with ⟨key, error, -, -, -, heq⟩ | ⟨-, heq⟩
  · rw [heq, caught]
    split <;> rfl
  · rw [heq]

/-- The flag goes up with the warning, and a connection warns once. -/
def Warns (conn : Connection) : Prop := conn.warnings.length = if conn.getFailureLogged then 1 else 0

theorem Warns.follow (h : conn.Warns) (call : Call) (before after : Promise (Option Bytes)) :
    (conn.follow call before after).Warns := by
  rcases conn.follow_cases call before after with ⟨key, error, -, -, -, heq⟩ | ⟨-, heq⟩
  · rw [heq, caught]
    split
    · exact h
    · rename_i hlogged
      rw [Warns, if_neg hlogged] at h
      rw [Warns, List.length_append, h]
      rfl
  · rwa [heq]

theorem follow_logged (call : Call) : (conn.follow call before after).getFailureLogged = true ↔
    conn.getFailureLogged = true ∨
      ∃ key error, call = .get key ∧ before = .pending ∧ after = .rejected error := by
  rcases conn.follow_cases call before after with ⟨key, error, hcall, hbefore, hafter, heq⟩ | ⟨hnone, heq⟩
  · rw [heq, caught]
    refine iff_of_true ?_ (.inr ⟨key, error, hcall, hbefore, hafter⟩)
    split
    · assumption
    · rfl
  · rw [heq]
    exact (or_iff_left hnone).symm

structure Sound (conn : Connection) : Prop where
  ops : ∀ op ∈ conn.ops, op.Sound
  warns : conn.Warns
  logged : conn.getFailureLogged = true ↔ ∃ op ∈ conn.ops, op.Missed

theorem Sound.opening : opening.Sound := by
  refine ⟨?_, rfl, ?_⟩
  · simp [Connection.opening]
  · simp [Connection.opening]

theorem Sound.called (h : conn.Sound) (hop : op.Sound) : (conn.call op).Sound := by
  refine ⟨?_, ?_, ?_⟩
  · intro op₁ hmem
    rw [Connection.call, follow_ops, mem_append, mem_singleton] at hmem
    rcases hmem with hmem | rfl
    · exact h.ops op₁ hmem
    · exact hop
  · apply Warns.follow
    exact h.warns
  · rw [Connection.call, follow_logged, follow_ops]
    simp only [mem_append, mem_singleton, or_and_right, exists_or, exists_eq_left, h.logged, true_and,
      Op.Missed]

/-- A call of which the answer turns out, or has turned out. -/
theorem missed_of_moves (hmoves : Moves database lost op database' op') : op'.Missed ↔
    op.Missed ∨ ∃ key error, op.call = .get key ∧ op.outcome = .pending ∧ op'.outcome = .rejected error := by
  rw [Op.Missed, Op.Missed, Op.call_of_moves hmoves]
  by_cases hpending : op.outcome = .pending
  · simp [hpending]
  · rw [Op.outcome_stays hmoves hpending]
    simp [hpending]

theorem Sound.settle {i : Nat} (h : conn.Sound) (hop : conn.ops[i]? = some op)
    (hmoves : Moves database lost op database' op') : (conn.settle i op op').Sound := by
  have hset : ∀ j, j ≠ i → (conn.ops.set i op')[j]? = conn.ops[j]? := by
    intro j hj
    rw [List.getElem?_set_ne (Ne.symm hj)]
  have hself : (conn.ops.set i op')[i]? = some op' := by
    rw [List.getElem?_set_self (List.getElem?_eq_some_iff.mp hop).1]
  refine ⟨?_, ?_, ?_⟩
  · intro op₁ hmem
    rw [Connection.settle, follow_ops] at hmem
    rcases mem_or_eq_of_mem_set hmem with hmem | rfl
    · exact h.ops op₁ hmem
    · exact (h.ops op (mem_of_getElem? hop)).moves hmoves
  · apply Warns.follow
    exact h.warns
  · rw [Connection.settle, follow_logged, follow_ops, h.logged]
    constructor
    · intro hmissed
      rcases hmissed with ⟨op₁, hmem, hmissed⟩ | hturned
      · obtain ⟨j, hj⟩ := mem_iff_getElem?.mp hmem
        by_cases hji : j = i
        · rw [hji, hop, Option.some.injEq] at hj
          refine ⟨op', mem_of_getElem? hself, (missed_of_moves hmoves).mpr (.inl ?_)⟩
          rwa [hj]
        · rw [← hset j hji] at hj
          exact ⟨op₁, mem_of_getElem? hj, hmissed⟩
      · exact ⟨op', mem_of_getElem? hself, (missed_of_moves hmoves).mpr (.inr hturned)⟩
    · intro hmissed
      obtain ⟨op₁, hmem, hmissed⟩ := hmissed
      rcases mem_or_eq_of_mem_set hmem with hmem | rfl
      · exact .inl ⟨op₁, hmem, hmissed⟩
      · exact ((missed_of_moves hmoves).mp hmissed).imp_left fun hmissed =>
          ⟨op, mem_of_getElem? hop, hmissed⟩

theorem Sound.steps (h : conn.Sound) (hsteps : Steps database conn database' conn') : conn'.Sound := by
  cases hsteps with
  | phase | opened => exact ⟨h.ops, h.warns, h.logged⟩
  | refuse call error => exact h.called (.refuse call error)
  | place call refusal => exact h.called (.place call refusal)
  | op i op op' after hop hmoves => exact h.settle hop hmoves

/-! ### The store -/

/-- What the calls of a connection have put. -/
def stored (conn : Connection) : List (String × Bytes) := conn.ops.filterMap Op.stored

theorem stored_eq (conn : Connection) : conn.stored = conn.ops.flatMap fun op => op.stored.toList :=
  filterMap_eq_flatMap_toList _ _

theorem stored_called (conn : Connection) (hop : op.stored = none) : (conn.call op).stored = conn.stored := by
  rw [stored, Connection.call, follow_ops, filterMap_append]
  simp [hop, stored]

theorem not_refused (hmoves : Moves database lost op database' op') (error : String) :
    op.tx ≠ .refused error := by
  intro hrefused
  have hactive := (Op.tx_of_moves hmoves).1
  simp [hrefused] at hactive

/-- A store stays, and only grows. -/
theorem store_of_steps (hsteps : Steps database conn database' conn')
    (hstore : ∃ puts, database = .withStore puts) : ∃ puts, database' = .withStore puts := by
  obtain ⟨puts, rfl⟩ := hstore
  cases hsteps with
  | phase | opened | refuse | place => exact ⟨puts, rfl⟩
  | op i op op' after hop hmoves =>
      rcases Op.stored_of_moves hmoves with ⟨rfl, -⟩ | ⟨put, -, -, rfl⟩
      · exact ⟨puts, rfl⟩
      · exact ⟨puts ++ [put], rfl⟩

/-- Only a connection to a store has transactions. -/
theorem store_of_call (hsteps : Steps database conn database' conn')
    (hstore : ∀ op ∈ conn.ops, (∀ error, op.tx ≠ .refused error) → ∃ puts, database = .withStore puts)
    (hop : op ∈ conn'.ops) (htx : ∀ error, op.tx ≠ .refused error) : ∃ puts, database' = .withStore puts := by
  apply store_of_steps hsteps
  cases hsteps with
  | phase | opened => exact hstore op hop htx
  | refuse call error =>
      rw [Connection.call, follow_ops, mem_append, mem_singleton] at hop
      rcases hop with hop | rfl
      · exact hstore op hop htx
      · exact absurd rfl (htx error)
  | place call refusal puts hputs => exact ⟨puts, hputs⟩
  | op i op₁ op' after hop₁ hmoves => exact hstore op₁ (mem_of_getElem? hop₁) (not_refused hmoves)

/-- What an event adds to the store, the connection has put. -/
theorem exists_stored (hsteps : Steps database conn database' conn')
    (hstore : ∀ op ∈ conn.ops, (∀ error, op.tx ≠ .refused error) → ∃ puts, database = .withStore puts) :
    ∃ more, database'.puts = database.puts ++ more ∧ conn'.stored ~ conn.stored ++ more := by
  cases hsteps with
  | phase phase => exact ⟨[], (append_nil _).symm, by rw [append_nil]; rfl⟩
  | opened =>
      refine ⟨[], ?_, ?_⟩
      · cases database <;> simp [Database.upgrade, Database.puts]
      · rw [append_nil]
        rfl
  | refuse call error =>
      refine ⟨[], (append_nil _).symm, ?_⟩
      rw [append_nil, stored_called conn (by simp [Op.refuse, Op.stored])]
  | place call refusal =>
      refine ⟨[], (append_nil _).symm, ?_⟩
      rw [append_nil, stored_called conn]
      cases refusal <;> simp [Op.place, Op.stored]
  | op i op op' after hop hmoves =>
      rw [stored_eq, stored_eq, settle, follow_ops]
      rcases Op.stored_of_moves hmoves with ⟨rfl, hsame⟩ | ⟨put, hnone, hsome, rfl⟩
      · refine ⟨[], (append_nil _).symm, Journal.flatMap_set_perm hop ?_⟩
        rw [hsame, append_nil]
      · obtain ⟨puts, rfl⟩ := hstore op (mem_of_getElem? hop) (not_refused hmoves)
        refine ⟨[put], rfl, Journal.flatMap_set_perm hop ?_⟩
        rw [hsome, hnone]
        rfl

end Connection

/-! ### All connections -/

namespace State

variable {s t : State} {before : List (String × Bytes)} {event : Event}

structure Sound (before : List (String × Bytes)) (s : State) : Prop where
  connections : ∀ conn ∈ s.connections, conn.Sound
  store : ∀ op ∈ s.ops, (∀ error, op.tx ≠ .refused error) → ∃ puts, s.database = .withStore puts
  perm : s.database.puts ~ before ++ s.stored

theorem Sound.start (database : Database) : Sound database.puts ⟨database, []⟩ := by
  refine ⟨?_, ?_, ?_⟩
  · simp
  · simp [ops]
  · simp [State.stored, ops]

theorem mem_ops {op : Op} : op ∈ s.ops ↔ ∃ conn ∈ s.connections, op ∈ conn.ops := mem_flatMap

theorem stored_eq (s : State) : s.stored = s.connections.flatMap Connection.stored :=
  filterMap_flatMap

/-- A step is a new connection, or a step of one. -/
theorem step_cases (h : s.step event = some t) : t = { s with connections := s.connections ++ [.opening] } ∨
    ∃ c conn database' conn', s.connections[c]? = some conn ∧
      Connection.Steps s.database conn database' conn' ∧ t = ⟨database', s.connections.set c conn'⟩ := by
  cases event with
  | openChunkCache =>
      cases h
      exact .inl rfl
  | connection c e =>
      simp only [step] at h
      split at h
      · cases h
      · rename_i conn hconn
        rw [Option.map_eq_some_iff] at h
        obtain ⟨⟨database', conn'⟩, hstep, rfl⟩ := h
        exact .inr ⟨c, conn, database', conn', hconn, Connection.steps_of_step hstep, rfl⟩

theorem Sound.step (h : s.Sound before) (hstep : s.step event = some t) : t.Sound before := by
  rcases step_cases hstep with rfl | ⟨c, conn, database', conn', hconn, hsteps, rfl⟩
  · refine ⟨?_, ?_, ?_⟩
    · intro conn hmem
      rw [mem_append, mem_singleton] at hmem
      rcases hmem with hmem | rfl
      · exact h.connections conn hmem
      · exact .opening
    · intro op hop
      rw [mem_ops] at hop
      obtain ⟨conn, hmem, hop⟩ := hop
      rw [mem_append, mem_singleton] at hmem
      rcases hmem with hmem | rfl
      · exact h.store op (mem_ops.mpr ⟨conn, hmem, hop⟩)
      · cases hop
    · rw [stored_eq, flatMap_append, ← stored_eq]
      simpa [Connection.stored, Connection.opening] using h.perm
  · have hmem : conn ∈ s.connections := mem_of_getElem? hconn
    have hstore : ∀ op ∈ conn.ops, (∀ error, op.tx ≠ .refused error) → ∃ puts, s.database = .withStore puts :=
      fun op hop => h.store op (mem_ops.mpr ⟨conn, hmem, hop⟩)
    refine ⟨?_, ?_, ?_⟩
    · intro conn₁ hmem₁
      rcases mem_or_eq_of_mem_set hmem₁ with hmem₁ | rfl
      · exact h.connections conn₁ hmem₁
      · exact (h.connections conn hmem).steps hsteps
    · intro op hop htx
      obtain ⟨conn₁, hmem₁, hop₁⟩ := mem_ops.mp hop
      rcases mem_or_eq_of_mem_set hmem₁ with hmem₁ | rfl
      · exact Connection.store_of_steps hsteps (h.store op (mem_ops.mpr ⟨conn₁, hmem₁, hop₁⟩) htx)
      · exact Connection.store_of_call hsteps hstore hop₁ htx
    · obtain ⟨more, hputs, hperm⟩ := Connection.exists_stored hsteps hstore
      have hset := Journal.flatMap_set_perm hconn hperm
      have hbefore := h.perm
      rw [stored_eq] at hbefore ⊢
      calc database'.puts = s.database.puts ++ more := hputs
        _ ~ (before ++ s.connections.flatMap Connection.stored) ++ more := hbefore.append_right _
        _ = before ++ (s.connections.flatMap Connection.stored ++ more) := append_assoc _ _ _
        _ ~ before ++ (s.connections.set c conn').flatMap Connection.stored := hset.symm.append_left _

theorem sound_of_run {es : List Event} (hrun : (chunkCache database).run (chunkCache database).start es = some s) :
    s.Sound database.puts :=
  run_keeps (fun _ _ _ h => h.step) (.start database) hrun

end State

/-- What is promised to the caller of `get` or `put`. -/
structure Op.Answered (op : Op) : Prop where
  resolves : ∀ key, op.call = .get key → ∀ error, op.answer ≠ .rejected error
  settles : op.answer = .pending → op.tx = .active ∨ op.tx = .committed
  fulfilled : ∀ key chunk, op.call = .put key chunk → op.answer = .fulfilled none →
    op.stored = some (key, chunk)
  rejected : ∀ key chunk, op.call = .put key chunk → ∀ error, op.answer = .rejected error → op.stored = none

theorem Op.Sound.answered (h : op.Sound) : op.Answered := by
  refine ⟨?_, ?_, ?_, ?_⟩
  · intro key hcall error
    rw [answer, hcall]
    exact Promise.recover_ne_rejected
  · intro hpending
    apply h.of_pending
    rw [answer] at hpending
    split at hpending
    · exact Promise.recover_eq_pending.mp hpending
    · exact Promise.map_eq_pending.mp hpending
  · intro key chunk hcall hanswer
    rw [answer, hcall, Promise.map_eq_fulfilled] at hanswer
    obtain ⟨result, houtcome, -⟩ := hanswer
    obtain ⟨hrequest, htx⟩ := h.of_fulfilled houtcome
    exact stored_eq_some.mpr ⟨hcall, ⟨result, hrequest⟩, .inr htx⟩
  · intro key chunk hcall error hanswer
    rw [answer, hcall, Promise.map_eq_rejected] at hanswer
    exact h.of_rejected hanswer

/-- **Every call is answered, and every put counts once.** In every run no `get` is rejected, and no call is
left pending once its transaction has ended. The store has what was in it and what the calls have put, each
once: the chunk of every `put` that is answered, and none of a `put` that is rejected. A connection warns at
most once, and does so if and only if one of its reads has failed. -/
theorem calls_answered (database : Database) (es : List Event) (s : State)
    (hrun : (chunkCache database).run (chunkCache database).start es = some s) :
    (∀ op ∈ s.ops, op.Answered) ∧ s.database.puts ~ database.puts ++ s.stored ∧
      ∀ conn ∈ s.connections, conn.warnings.length ≤ 1 ∧
        (conn.warnings ≠ [] ↔ ∃ op ∈ conn.ops, op.Missed) := by
  have hsound := State.sound_of_run hrun
  refine ⟨?_, hsound.perm, ?_⟩
  · intro op hop
    obtain ⟨conn, hconn, hop⟩ := State.mem_ops.mp hop
    exact ((hsound.connections conn hconn).ops op hop).answered
  · intro conn hconn
    have hwarns := (hsound.connections conn hconn).warns
    rw [← (hsound.connections conn hconn).logged, ← List.length_pos_iff]
    rw [Connection.Warns] at hwarns
    cases hlogged : conn.getFailureLogged with
    | true => simp [hwarns, hlogged]
    | false => simp [hwarns, hlogged]

/-- Two connections to a new database. The second one's `get` fails, a `put` is aborted and another one is
read back; then the first connection is lost. -/
def twoConnections : List Event :=
  [.openChunkCache, .connection 0 .opened, .openChunkCache, .connection 1 .opened,
    .connection 0 (.called (.put "a" [1]) "" none), .connection 1 (.called (.get "a") "" none),
    .connection 1 (.op 0 (.failed none)), .connection 0 (.op 0 .succeeded), .connection 1 (.op 0 (.aborted none)),
    .connection 0 (.op 0 (.aborted (some "QuotaExceededError"))),
    .connection 0 (.called (.put "a" [2]) "" none), .connection 0 (.op 1 .succeeded),
    .connection 0 (.op 1 .committed), .connection 0 (.op 1 .completed),
    .connection 1 (.called (.get "a") "" none), .connection 1 (.op 1 .succeeded),
    .connection 1 (.op 1 .committed), .connection 1 (.op 1 .completed), .connection 0 .lose,
    .connection 0 (.called (.get "a") "InvalidStateError" none)]

theorem calls_answered_twoConnections : ∃ s, (chunkCache .missing).run (chunkCache .missing).start
      twoConnections = some s ∧ (∀ op ∈ s.ops, op.Answered) ∧
    s.ops.map Op.answer = [.rejected "QuotaExceededError", .fulfilled none, .fulfilled none, .fulfilled none,
      .fulfilled (some [2])] ∧ s.database.puts = [("a", [2])] ∧
    s.connections.map Connection.warnings = [["InvalidStateError"], ["ChunkCache get failed"]] := by
  have hanswered := (calls_answered .missing twoConnections _ rfl).1
  exact ⟨_, rfl, hanswered, by decide, by decide, by decide⟩

end LlmRuntime.ChunkCache

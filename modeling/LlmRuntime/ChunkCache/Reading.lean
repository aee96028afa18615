import LlmRuntime.ChunkCache.Answering
import LlmRuntime.VirtualFile.Sharing

/-!
# What a read finds

Calls of many connections overlap, yet each takes effect at one moment between the call and its answer: a
`get` gives what is in the store at some such moment, and a `put` is committed at one. So a model that has
been downloaded is found by every `get` that comes later, unless the database fails, and this is logged.
-/

namespace LlmRuntime.ChunkCache

open Transition List
open VirtualFile (Bytes Agrees modelFile block chunkPosition fetchWholeModelToCache blockPut)

variable {op op' : Op} {database database' : Database} {lost : Bool}
  {base now now' : List (String × Bytes)} {s t u : State}

/-! ### A call since some moment -/

/-- The effect of a call that has been made when the puts were `base`. -/
structure Op.Since (base now : List (String × Bytes)) (op : Op) : Prop where
  read : ∀ key result, op.call = .get key → op.request = .done result →
    Journal.Since (fun puts => Journal.value key puts = result) base now
  stored : ∀ put, op.stored = some put → ∃ puts, base <+: puts ∧ puts ++ [put] <+: now

namespace Op

theorem Since.mono (h : op.Since base now) (hgrows : now <+: now') : op.Since base now' := by
  refine ⟨fun key result hcall hrequest => (h.read key result hcall hrequest).mono hgrows, ?_⟩
  intro put hput
  obtain ⟨puts, hbase, hnow⟩ := h.stored put hput
  exact ⟨puts, hbase, hnow.trans hgrows⟩

theorem Since.refuse (call : Call) (error : String) : (Op.refuse call error).Since base now := by
  refine ⟨?_, ?_⟩
  · intro key result _ hrequest
    cases hrequest
  · intro put hput
    simp [Op.refuse, Op.stored] at hput

theorem Since.place (call : Call) (refusal : Option String) : (Op.place call refusal).Since base now := by
  cases refusal with
  | none =>
      refine ⟨?_, ?_⟩
      · intro key result _ hrequest
        cases hrequest
      · intro put hput
        simp [Op.place, Op.stored] at hput
  | some error =>
      refine ⟨?_, ?_⟩
      · intro key result _ hrequest
        cases hrequest
      · intro put hput
        simp [Op.place, Op.stored] at hput

/-- The request of a call is answered by the store. -/
theorem request_of_moves (hmoves : Moves database lost op database' op') {result : Option Bytes}
    (hrequest : op'.request = .done result) :
    op.request = .done result ∨ op.call.result database.puts = result := by
  cases hmoves with
  | succeeded =>
      cases hrequest
      exact .inr rfl
  | failed => cases hrequest
  | committed | stored | completed | aborted => exact .inl hrequest

theorem Since.moves (h : op.Since base database.puts) (hbase : base <+: database.puts)
    (hstore : ∃ puts, database = .withStore puts) (hmoves : Moves database lost op database' op') :
    op'.Since base database'.puts := by
  obtain ⟨puts, rfl⟩ := hstore
  have hgrows : puts <+: database'.puts := by
    rcases stored_of_moves hmoves with ⟨rfl, -⟩ | ⟨put, -, -, rfl⟩
    · exact prefix_rfl
    · exact prefix_append _ _
  refine ⟨?_, ?_⟩
  · intro key result hcall hrequest
    rw [call_of_moves hmoves] at hcall
    rcases request_of_moves hmoves hrequest with hrequest | hresult
    · exact (h.read key result hcall hrequest).mono hgrows
    · rw [hcall] at hresult
      exact (Journal.Since.of_now hbase hresult).mono hgrows
  · intro put hput
    rcases stored_of_moves hmoves with ⟨rfl, hsame⟩ | ⟨put', -, hput', rfl⟩
    · rw [hsame] at hput
      exact h.stored put hput
    · cases hput.symm.trans hput'
      exact ⟨puts, hbase, prefix_rfl⟩

end Op

/-! ### All calls since some moment -/

namespace State

/-- How many calls a connection has had. -/
def calls (s : State) (c : Nat) : Nat := s.connections[c]?.elim 0 fun conn => conn.ops.length

/-- The store has only grown, and what has been called since then has taken effect since then. -/
structure Since (s t : State) : Prop where
  grows : s.database.puts <+: t.database.puts
  ops : ∀ c conn, t.connections[c]? = some conn → ∀ i op, conn.ops[i]? = some op → s.calls c ≤ i →
    op.Since s.database.puts t.database.puts

theorem Since.rfl (s : State) : s.Since s := by
  refine ⟨prefix_rfl, ?_⟩
  intro c conn hconn i op hop hnew
  have hlength := (List.getElem?_eq_some_iff.mp hop).1
  rw [calls, hconn, Option.elim_some] at hnew
  exact absurd hlength (Nat.not_lt.mpr hnew)

/-- The calls of a connection that has taken a step. -/
theorem Since.steps {conn conn' : Connection} {n : Nat} (hbase : base <+: database.puts)
    (hsteps : Connection.Steps database conn database' conn')
    (hstore : ∀ op ∈ conn.ops, (∀ error, op.tx ≠ .refused error) → ∃ puts, database = .withStore puts)
    (hsince : ∀ i op, conn.ops[i]? = some op → n ≤ i → op.Since base database.puts) (i : Nat) (op : Op)
    (hop : conn'.ops[i]? = some op) (hi : n ≤ i) : op.Since base database'.puts := by
  obtain ⟨more, hputs, -⟩ := Connection.exists_stored hsteps hstore
  have hgrows : database.puts <+: database'.puts := hputs ▸ prefix_append _ _
  have hcalled : ∀ new : Op, new.Since base database.puts → (conn.call new).ops[i]? = some op →
      op.Since base database.puts := by
    intro new hnew hop
    rw [Connection.call, Connection.follow_ops, getElem?_append] at hop
    split at hop
    · exact hsince i op hop hi
    · have hmem := mem_of_getElem? hop
      rw [mem_singleton] at hmem
      rwa [hmem]
  cases hsteps with
  | phase phase => exact hsince i op hop hi
  | opened => exact (hsince i op hop hi).mono hgrows
  | refuse call error => exact hcalled _ (.refuse call error) hop
  | place call refusal => exact hcalled _ (.place call refusal) hop
  | op j op₁ op' after hop₁ hmoves =>
      rw [Connection.settle, Connection.follow_ops] at hop
      by_cases hij : i = j
      · rw [hij, List.getElem?_set_self (List.getElem?_eq_some_iff.mp hop₁).1, Option.some.injEq] at hop
        rw [hij] at hi
        rw [← hop]
        exact (hsince j op₁ hop₁ hi).moves hbase
          (hstore op₁ (mem_of_getElem? hop₁) (Connection.not_refused hmoves)) hmoves
      · rw [List.getElem?_set_ne (Ne.symm hij)] at hop
        exact (hsince i op hop hi).mono hgrows

theorem Since.step {before : List (String × Bytes)} {event : Event} (h : s.Since t) (hsound : t.Sound before)
    (hstep : t.step event = some u) : s.Since u := by
  rcases step_cases hstep with rfl | ⟨c, conn, database', conn', hconn, hsteps, rfl⟩
  · refine ⟨h.grows, ?_⟩
    intro c conn hconn i op hop hnew
    rw [getElem?_append] at hconn
    split at hconn
    · exact h.ops c conn hconn i op hop hnew
    · have hmem := mem_of_getElem? hconn
      rw [mem_singleton] at hmem
      rw [hmem] at hop
      cases hop
  · have hstore : ∀ op ∈ conn.ops, (∀ error, op.tx ≠ .refused error) → ∃ puts, t.database = .withStore puts :=
      fun op hop => hsound.store op (mem_ops.mpr ⟨conn, mem_of_getElem? hconn, hop⟩)
    obtain ⟨more, hputs, -⟩ := Connection.exists_stored hsteps hstore
    have hgrows : t.database.puts <+: database'.puts := hputs ▸ prefix_append _ _
    refine ⟨h.grows.trans hgrows, ?_⟩
    intro c₁ conn₁ hconn₁ i op hop hnew
    replace hconn₁ : (t.connections.set c conn')[c₁]? = some conn₁ := hconn₁
    by_cases hc : c₁ = c
    · rw [hc, List.getElem?_set_self (List.getElem?_eq_some_iff.mp hconn).1, Option.some.injEq] at hconn₁
      rw [hc] at hnew
      rw [← hconn₁] at hop
      exact Since.steps h.grows hsteps hstore (h.ops c conn hconn) i op hop hnew
    · rw [List.getElem?_set_ne (Ne.symm hc)] at hconn₁
      exact (h.ops c₁ conn₁ hconn₁ i op hop hnew).mono hgrows

theorem since_of_run {es fs : List Event} (hs : (chunkCache database).run (chunkCache database).start es = some s)
    (ht : (chunkCache database).run s fs = some t) : t.Sound database.puts ∧ s.Since t :=
  run_keeps (P := fun u => u.Sound database.puts ∧ s.Since u)
    (fun _ _ _ h hstep => ⟨h.1.step hstep, h.2.step h.1 hstep⟩) ⟨sound_of_run hs, .rfl s⟩ ht

end State

/-- What a call has come to that was made when the puts were `base`. -/
structure Op.TakesEffect (base now : List (String × Bytes)) (conn : Connection) (op : Op) : Prop where
  get : ∀ key result, op.call = .get key → op.answer = .fulfilled result →
    Journal.Since (fun puts => Journal.value key puts = result) base now ∨
      result = none ∧ op.Missed ∧ conn.warnings ≠ []
  put : ∀ key chunk, op.call = .put key chunk → op.answer = .fulfilled none →
    ∃ puts, base <+: puts ∧ puts ++ [(key, chunk)] <+: now

theorem Op.Since.takesEffect {conn : Connection} (h : op.Since base now) (hconn : conn.Sound)
    (hop : op ∈ conn.ops) : op.TakesEffect base now conn := by
  have hsound := hconn.ops op hop
  refine ⟨?_, ?_⟩
  · intro key result hcall hanswer
    rw [answer, hcall, Promise.recover_eq_fulfilled] at hanswer
    rcases hanswer with houtcome | ⟨hresult, error, houtcome⟩
    · exact .inl (h.read key result hcall (hsound.of_fulfilled houtcome).1)
    · have hmissed : op.Missed := ⟨key, error, hcall, houtcome⟩
      refine .inr ⟨hresult.symm, hmissed, ?_⟩
      have hlogged := hconn.logged.mpr ⟨op, hop, hmissed⟩
      have hwarns := hconn.warns
      rw [Connection.Warns, if_pos hlogged] at hwarns
      rw [← List.length_pos_iff, hwarns]
      exact Nat.one_pos
  · intro key chunk hcall hanswer
    exact h.stored (key, chunk) (hsound.answered.fulfilled key chunk hcall hanswer)

/-- **Calls take effect one at a time.** However calls overlap, one that has been made after some state `s`
and answered by `t` has taken effect in between: the answer of a `get` was in the store at a moment after
`s`, or else it is a miss because this `get` has failed, and a failure is logged; a `put` has been committed at
such a moment. -/
theorem calls_take_effect (database : Database) (es fs : List Event) (s t : State)
    (hs : (chunkCache database).run (chunkCache database).start es = some s)
    (ht : (chunkCache database).run s fs = some t) (c i : Nat) (conn : Connection) (op : Op)
    (hconn : t.connections[c]? = some conn) (hop : conn.ops[i]? = some op) (hnew : s.calls c ≤ i) :
    op.TakesEffect s.database.puts t.database.puts conn := by
  obtain ⟨hsound, hsince⟩ := State.since_of_run hs ht
  exact (hsince.ops c conn hconn i op hop hnew).takesEffect
    (hsound.connections conn (mem_of_getElem? hconn)) (mem_of_getElem? hop)

/-- The second connection's read comes after the first one's put. -/
theorem calls_take_effect_twoConnections : ∃ s t conn op,
    (chunkCache .missing).run (chunkCache .missing).start (twoConnections.take 14) = some s ∧
    (chunkCache .missing).run s (twoConnections.drop 14) = some t ∧ t.connections[1]? = some conn ∧
    conn.ops[1]? = some op ∧ op.answer = .fulfilled (some [2]) ∧
      op.TakesEffect [("a", [2])] [("a", [2])] conn :=
  ⟨_, _, _, _, rfl, rfl, rfl, rfl, by decide,
    calls_take_effect .missing (twoConnections.take 14) (twoConnections.drop 14) _ _ rfl rfl 1 1 _ _ rfl rfl
      (by decide)⟩

/-! ### The chunks of a model -/

/-- What has been handed to `put`. -/
def State.called (s : State) : List (String × Bytes) :=
  s.ops.filterMap fun op =>
    match op.call with
    | .get _ => none
    | .put key chunk => some (key, chunk)

theorem State.stored_subset (s : State) : s.stored ⊆ s.called := by
  intro put hput
  rw [State.stored, mem_filterMap] at hput
  obtain ⟨op, hop, hstored⟩ := hput
  obtain ⟨hcall, -, -⟩ := Op.stored_eq_some.mp hstored
  rw [State.called, mem_filterMap]
  exact ⟨op, hop, by rw [hcall]⟩

/-- `fetchWholeModelToCache` has returned: all its puts have been answered. -/
def Downloaded (fileId : String) (model : Bytes) (s : State) : Prop :=
  ∃ slices, slices.flatten = model ∧ ∀ put ∈ fetchWholeModelToCache fileId slices true,
    ∃ op ∈ s.ops, op.call = .put put.1 put.2 ∧ op.answer = .fulfilled none

variable {digestString : String → String} {contents : String → Bytes} {identity : String} {idx : Nat}

/-- After a download there is something under the key of every chunk. -/
theorem Downloaded.exists_put {before : List (String × Bytes)}
    (h : Downloaded (digestString identity) (contents identity) s) (hsound : s.Sound before)
    (hidx : chunkPosition idx < (contents identity).length) :
    ∃ chunk, ((modelFile digestString contents identity).key idx, chunk) ∈ s.database.puts := by
  obtain ⟨slices, hslices, hputs⟩ := h
  refine ⟨block (contents identity) idx, ?_⟩
  have hmem : blockPut (digestString identity) (contents identity) idx ∈
      fetchWholeModelToCache (digestString identity) slices true := by
    rw [VirtualFile.fetchWholeModelToCache_eq, hslices, mem_map]
    refine ⟨idx, ?_, rfl⟩
    rw [mem_range, lt_blockCount_iff VirtualFile.CHUNK_MAX_pos]
    exact hidx
  obtain ⟨op, hop, hcall, hanswer⟩ := hputs _ hmem
  obtain ⟨conn, hconn, hop₁⟩ := State.mem_ops.mp hop
  have hstored := ((hsound.connections conn hconn).ops op hop₁).answered.fulfilled _ _ hcall hanswer
  have hin : blockPut (digestString identity) (contents identity) idx ∈ s.stored :=
    mem_filterMap.mpr ⟨op, hop, hstored⟩
  rw [VirtualFile.key_eq]
  exact hsound.perm.mem_iff.mpr (mem_append_right _ hin)

/-- **A downloaded model is found.** Where all puts are chunks of the models that their keys name, a `get`
of a chunk of a model gives that chunk or nothing. Once the model has been downloaded, through whatever
connection, a `get` made later finds the chunk, unless the `get` fails, and then a warning tells. -/
theorem model_found (digestString : String → String) (contents : String → Bytes) (identity : String)
    (database : Database) (es fs : List Event) (s t : State)
    (hs : (chunkCache database).run (chunkCache database).start es = some s)
    (ht : (chunkCache database).run s fs = some t)
    (hagrees : Agrees digestString contents (database.puts ++ t.called)) (c i : Nat) (conn : Connection)
    (op : Op) (hconn : t.connections[c]? = some conn) (hop : conn.ops[i]? = some op) (hnew : s.calls c ≤ i)
    (idx : Nat) (hidx : chunkPosition idx < (contents identity).length)
    (hcall : op.call = .get ((modelFile digestString contents identity).key idx)) (result : Option Bytes)
    (hanswer : op.answer = .fulfilled result) :
    (∀ bytes ∈ result, bytes = block (contents identity) idx) ∧
      (Downloaded (digestString identity) (contents identity) s → result = none →
        op.Missed ∧ conn.warnings ≠ []) := by
  obtain ⟨hsound, hsince⟩ := State.since_of_run hs ht
  have heffect := (hsince.ops c conn hconn i op hop hnew).takesEffect
    (hsound.connections conn (mem_of_getElem? hconn)) (mem_of_getElem? hop)
  rcases heffect.get _ result hcall hanswer with ⟨puts, hbase, hnow, hvalue⟩ | ⟨rfl, hmissed⟩
  · constructor
    · intro bytes hbytes
      rw [Option.mem_def.mp hbytes] at hvalue
      have hput := hsound.perm.subset (hnow.subset (Journal.mem_of_value hvalue))
      refine hagrees identity idx bytes hidx ?_
      rw [mem_append] at hput ⊢
      exact hput.imp_right fun hput => t.stored_subset hput
    · intro hdownloaded hmiss
      obtain ⟨chunk, hchunk⟩ := hdownloaded.exists_put (State.sound_of_run hs) hidx
      obtain ⟨chunk', hfound⟩ := Journal.exists_value (hbase.subset hchunk)
      rw [hfound, hmiss] at hvalue
      cases hvalue
  · exact ⟨by simp, fun _ _ => hmissed⟩

open VirtualFile (digestOfM distinguishes_m)

/-- The key of the only chunk of a model of three bytes. -/
def keyOfM : String := (modelFile digestOfM (fun _ => [1, 2, 3]) "m").key 0

def downloadOfM : List Event :=
  [.openChunkCache, .connection 0 .opened, .connection 0 (.called (.put keyOfM [1, 2, 3]) "" none),
    .connection 0 (.op 0 .succeeded), .connection 0 (.op 0 .committed), .connection 0 (.op 0 .completed)]

/-- The first read finds the chunk; the request of the second one fails. -/
def readsOfM : List Event :=
  [.connection 0 (.called (.get keyOfM) "" none), .connection 0 (.op 1 .succeeded),
    .connection 0 (.op 1 .committed), .connection 0 (.op 1 .completed),
    .connection 0 (.called (.get keyOfM) "" none), .connection 0 (.op 2 (.failed none)),
    .connection 0 (.op 2 (.aborted none))]

theorem agrees_m : Agrees digestOfM (fun _ => [1, 2, 3]) [(keyOfM, [1, 2, 3])] := by
  refine VirtualFile.Agrees.nil.append distinguishes_m fun key bytes hmem => ⟨"m", 0, ?_⟩
  rw [mem_singleton, Prod.mk.injEq] at hmem
  rw [hmem.1, hmem.2]
  exact ⟨rfl, fun _ => rfl⟩

theorem puts_m : fetchWholeModelToCache (digestOfM "m") [[1, 2, 3]] true = [(keyOfM, [1, 2, 3])] := by
  have hcount : blockCount VirtualFile.CHUNK_MAX (([[1, 2, 3]] : List Bytes).flatten.length) = 1 := by decide
  rw [VirtualFile.fetchWholeModelToCache_eq, hcount, keyOfM, VirtualFile.key_eq]
  rfl

theorem downloaded_m (s : State) (hs : (chunkCache .missing).run (chunkCache .missing).start downloadOfM = some s) :
    Downloaded (digestOfM "m") [1, 2, 3] s := by
  refine ⟨[[1, 2, 3]], rfl, fun put hput => ?_⟩
  rw [puts_m, mem_singleton] at hput
  subst hput
  cases hs
  exact ⟨_, mem_cons_self, rfl, rfl⟩

theorem model_found_m : ∃ s t conn op op',
    (chunkCache .missing).run (chunkCache .missing).start downloadOfM = some s ∧
    (chunkCache .missing).run s readsOfM = some t ∧ t.connections[0]? = some conn ∧
      conn.ops[1]? = some op ∧ op.answer = .fulfilled (some [1, 2, 3]) ∧ [1, 2, 3] = block [1, 2, 3] 0 ∧
        conn.ops[2]? = some op' ∧ op'.answer = .fulfilled none ∧ op'.Missed ∧ conn.warnings ≠ [] :=
  ⟨_, _, _, _, _, rfl, rfl, rfl, rfl, rfl,
    (model_found digestOfM (fun _ => [1, 2, 3]) "m" .missing downloadOfM readsOfM _ _ rfl rfl agrees_m 0 1 _ _ rfl
      rfl (by decide) 0 (by decide) rfl _ rfl).1 _ rfl, rfl, rfl,
    (model_found digestOfM (fun _ => [1, 2, 3]) "m" .missing downloadOfM readsOfM _ _ rfl rfl agrees_m 0 2 _ _ rfl
      rfl (by decide) 0 (by decide) rfl _ rfl).2 (downloaded_m _ rfl) rfl⟩

end LlmRuntime.ChunkCache

import LlmRuntime.PeerManager.Observed

/-!
# Sending until all is taken

`send()` takes what fits into one frame, and its caller calls it again with the rest. Whatever else
happens in between, the frames of a connection that lives through it are the bytes in order.
-/

namespace LlmRuntime.PeerManager

open Transition

variable {o : Options} {s t : Manager} {a : Act} {as : List Act} {c : ConnId} {e : Event} {fd : Nat} {bytes data : Bytes}
  {between : Nat → List Event}

/-- What a live connection takes of a buffer. -/
theorem send_live (hget : s.conns.get fd = some c) (hopen : (s.conn c).closed = false) (hdata : data ≠ []) :
    (s.send o fd data none).1 = (min SEND_CHUNK_BYTES data.length : Nat) ∧
      1 ≤ min SEND_CHUNK_BYTES data.length := by
  have hlength : 1 ≤ data.length := List.length_pos_of_ne_nil hdata
  constructor
  · rw [Manager.send, hget]
    dsimp only
    rw [if_neg (by simp [hopen]), if_neg (by omega)]
  · rw [SEND_CHUNK_BYTES]
    omega

theorem send_le (o : Options) (s : Manager) (fd : Nat) (data : Bytes) :
    (s.send o fd data none).1.toNat ≤ data.length := by
  unfold Manager.send
  split
  · exact Nat.zero_le _
  · split
    · exact Nat.zero_le _
    · split
      · exact Nat.zero_le _
      · dsimp only
        omega

theorem send_dead (hget : s.conns.get fd = some c) (hclosed : (s.conn c).closed = true) (data : Bytes) :
    s.send o fd data none = (-1, s) := by
  rw [Manager.send, hget]
  dsimp only
  rw [if_pos hclosed]

/-- The caller's loop: `between` is what happens after each `send()`. The result says whether all was
taken, by how many calls. -/
def sendPeerRetry (o : Options) (fd : Nat) (between : Nat → List Event) (round : Nat) (s : Manager)
    (data : Bytes) : Bool × Nat × Manager :=
  if h : data = [] then (true, round, s)
  else
    let result := s.send o fd data none
    if h' : 0 < result.1 then
      sendPeerRetry o fd between (round + 1) ((between round).foldl (Manager.step o) result.2)
        (data.drop result.1.toNat)
    else (false, round, result.2)
termination_by data.length
decreasing_by
  have hlength := List.length_pos_of_ne_nil h
  have htaken : 0 < (s.send o fd data none).1 := h'
  rw [List.length_drop]
  omega

/-- Neither sends on the number nor gives it back. -/
def Spared (fd : Nat) : Event → Prop
  | .send fd' _ _ => fd' ≠ fd
  | .closeConnection fd' => fd' ≠ fd
  | _ => True

theorem Does.get (h : Does o s a t) (hget : s.conns.get fd = some c)
    (ha : a ≠ .release c) : t.conns.get fd = some c := by
  cases h with
  | incoming fd' _ _ hfree | outgoing fd' _ _ _ hfree =>
      dsimp only
      rw [JsMap.get_set_of_ne _ ?_]
      · exact hget
      · rintro rfl
        rw [hfree] at hget
        cases hget
  | release c' hget' hclosed =>
      dsimp only
      rw [JsMap.get_delete_of_ne _ ?_]
      · exact hget
      · rintro rfl
        rw [hget] at hget'
        cases hget'
        exact ha rfl
  | _ => exact hget

/-- The act posts no bytes for the connection and leaves it its number. -/
def Act.Spares (c : ConnId) (a : Act) : Prop := a.sends c = [] ∧ a ≠ .release c

theorem Moves.spares (h : Moves o s e as) (he : Spared (s.conn c).fd e) : ∀ a ∈ as, a.Spares c := by
  have hne : ∀ c', (s.conn c').fd ≠ (s.conn c).fd → c' ≠ c := by
    intro c' hfd hc
    exact hfd (by rw [hc])
  cases h with
  | send c' | closeTombstone c' | closeLive c' =>
      simp [Act.Spares, Act.sends, hne c' he]
  | data c' sender bytes as' hget hbytes has => cases has <;> simp [Act.Spares, Act.sends]
  | _ => simp [or_imp, forall_and, Act.Spares, Act.sends, Manager.kills]

/-- The number `fd` stands for connection `c`, which has been given `bytes` since the start. -/
structure Held (o : Options) (fd : Nat) (c : ConnId) (bytes : Bytes) (s : Manager) : Prop where
  inv : Inv o s
  get : s.conns.get fd = some c
  sent : sentOn s c = bytes

theorem Held.fd_eq (h : Held o fd c bytes s) : (s.conn c).fd = fd := (h.inv.of_get fd c h.get).2.1

theorem Held.acts (h : Held o fd c bytes s) (hacts : Acts o s as t) (has : ∀ a ∈ as, a.Spares c) :
    Held o fd c bytes t := by
  induction hacts with
  | nil => exact h
  | cons hdoes _ ih =>
      obtain ⟨hsends, hrelease⟩ := has _ List.mem_cons_self
      apply ih _ fun a ha => has a (List.mem_cons_of_mem _ ha)
      refine ⟨h.inv.does hdoes, hdoes.get h.get hrelease, ?_⟩
      rw [hdoes.sentOn, hsends, List.append_nil, h.sent]

theorem Held.step (h : Held o fd c bytes s) (he : Spared fd e) : Held o fd c bytes (s.step o e) := by
  obtain ⟨as, hmoves, hacts⟩ := step_moves h.inv e
  exact h.acts hacts (hmoves.spares (h.fd_eq ▸ he))

theorem Held.foldl (h : Held o fd c bytes s) {es : List Event} (hes : ∀ e ∈ es, Spared fd e) :
    Held o fd c bytes (es.foldl (Manager.step o) s) := by
  induction es generalizing s with
  | nil => exact h
  | cons e es ih =>
      apply ih (h.step (hes e List.mem_cons_self))
      exact fun f hf => hes f (List.mem_cons_of_mem _ hf)

theorem Held.send (h : Held o fd c bytes s) (data : Bytes) :
    Held o fd c (bytes ++ data.take (s.send o fd data none).1.toNat) (s.send o fd data none).2 := by
  obtain ⟨as, -, hacts⟩ := send_moves h.inv fd data none
  have hconns : (s.send o fd data none).2.conns = s.conns := by
    rw [Manager.send, h.get]
    dsimp only
    split
    · rfl
    · split <;> rfl
  refine ⟨h.inv.acts hacts, by rw [hconns, h.get], ?_⟩
  rw [sentOn_send, if_pos h.get, h.sent]

/-- What the loop leaves: all is taken, or the connection is gone. -/
structure Drives (o : Options) (fd : Nat) (c : ConnId) (bytes data : Bytes) (round : Nat)
    (result : Bool × Nat × Manager) : Prop where
  all : result.1 = true → Held o fd c (bytes ++ data) result.2.2
  gone : result.1 = false → ¬ result.2.2.Live c ∧ ∃ k < data.length, Held o fd c (bytes ++ data.take k) result.2.2
  calls : result.2.1 ≤ round + data.length

theorem sendPeerRetry_drives (hs : Held o fd c bytes s) (hbetween : ∀ n, ∀ e ∈ between n, Spared fd e)
    (round : Nat) : Drives o fd c bytes data round (sendPeerRetry o fd between round s data) := by
  fun_induction sendPeerRetry o fd between round s data generalizing bytes with
  | case1 round s => exact ⟨fun _ => by rwa [List.append_nil], Bool.noConfusion, Nat.le_add_right _ _⟩
  | case2 round s data hdata result htaken =>
      rename_i ih
      have hone : 1 ≤ result.1.toNat := by omega
      have hle : result.1.toNat ≤ data.length := send_le o s fd data
      obtain ⟨hall, hgone, hcalls⟩ := ih ((hs.send data).foldl (hbetween round))
      have htake : ∀ k, data.take result.1.toNat ++ (data.drop result.1.toNat).take k =
          data.take (result.1.toNat + k) := fun k => List.take_add.symm
      rw [List.length_drop] at hgone hcalls
      refine ⟨fun hok => ?_, fun hok => ?_, by omega⟩
      · have hend := hall hok
        rwa [List.append_assoc, List.take_append_drop] at hend
      · obtain ⟨hdead, k, hk, hend⟩ := hgone hok
        rw [List.append_assoc, htake] at hend
        exact ⟨hdead, result.1.toNat + k, by omega, hend⟩
  | case3 round s data hdata result =>
      rename_i htaken
      have hclosed : (s.conn c).closed = true := by
        by_contra hopen
        obtain ⟨htake, hone⟩ := send_live (o := o) hs.get (by simpa using hopen) hdata
        exact htaken (by rw [show result.1 = _ from htake]; omega)
      have hsame : result = (-1, s) := send_dead hs.get hclosed data
      have hdead : ¬ s.Live c := fun hlive => Bool.noConfusion (hlive.2.symm.trans hclosed)
      rw [hsame]
      refine ⟨Bool.noConfusion, fun _ => ⟨hdead, 0, List.length_pos_of_ne_nil hdata, ?_⟩, Nat.le_add_right _ _⟩
      rwa [List.take_zero, List.append_nil]

end LlmRuntime.PeerManager

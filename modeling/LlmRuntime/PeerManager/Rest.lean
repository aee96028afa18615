import LlmRuntime.Base.Mirror
import LlmRuntime.PeerManager.Callbacks
import LlmRuntime.PeerManager.Simulation

/-!
# At rest

Whether a side has a live connection to the other is a value that both sides keep a copy of: a `connect`
frame says that there is one, a `close` frame that there is none. Along a run whose steps keep the two
copies together no side has a live connection that the other has not, once nothing is on the way.
-/

namespace LlmRuntime.PeerManager

open Function Transition

/-- What a frame says to `id` about the connection between the two. -/
def Message.word? (id : String) (m : Message) : Option Bool :=
  if m.receiver = id then
    match m.kind with
    | .connect => some true
    | .close => some false
    | _ => none
  else none

def wordsTo (id : String) (posts : List Post) : List Bool := posts.filterMap fun post => post.message.word? id

/-- Side `r` has a live connection to the other side. -/
def Linked (p : Pair) (net : Net) (r : Bool) : Prop :=
  ∃ c < (net.mgr r).created, ((net.mgr r).conn c).closed = false ∧ ((net.mgr r).conn c).remoteId = p.id (!r)

/-- No `newFd` fails. -/
def Roomy (p : Pair) (net : Net) : NetEvent → Prop
  | .op r (.connect _ _) => ((net.mgr r).newFd (p.options r)).1 ≠ none
  | .op _ _ => True
  | .deliver r => ∀ post ∈ (net.wire r).head?, post.message.receiver = p.id r →
      post.message.kind = .connect → ((net.mgr r).newFd (p.options r)).1 ≠ none

/-- The condition on a step. A side that connects to the other, or hangs up on it, has nothing on its way
that says otherwise; and a side that calls `close()` has no live connection to the other, or is about to
be told what becomes of it. -/
def Told (p : Pair) (net : Net) : NetEvent → Prop
  | .op r (.connect remoteId _) => remoteId = p.id (!r) →
      ∀ word ∈ (wordsTo (p.id r) (net.wire r)).getLast?, word = true
  | .op r (.closeConnection fd) => ∀ c ∈ (net.mgr r).conns.get fd, Leads p net r c →
      ∀ word ∈ (wordsTo (p.id r) (net.wire r)).getLast?, word = false
  | .op r .close => wordsTo (p.id r) (net.wire r) = [] → (net.mgr r).byRemote.has (p.id (!r)) = false
  | _ => True

instance (p : Pair) (net : Net) (r : Bool) : Decidable (Linked p net r) := by
  unfold Linked
  infer_instance

instance (p : Pair) (net : Net) : ∀ e, Decidable (Roomy p net e)
  | .op r (.connect _ _) => inferInstanceAs (Decidable (((net.mgr r).newFd (p.options r)).1 ≠ none))
  | .op _ (.accept _) | .op _ (.send ..) | .op _ (.recv ..) | .op _ (.closeConnection _) | .op _ (.registerBuf ..)
  | .op _ .close | .op _ (.message _) => instDecidableTrue
  | .deliver r =>
      inferInstanceAs (Decidable (∀ post ∈ (net.wire r).head?, post.message.receiver = p.id r →
        post.message.kind = .connect → ((net.mgr r).newFd (p.options r)).1 ≠ none))

instance (p : Pair) (net : Net) : ∀ e, Decidable (Told p net e)
  | .op r (.connect remoteId _) =>
      inferInstanceAs (Decidable (remoteId = p.id (!r) →
        ∀ word ∈ (wordsTo (p.id r) (net.wire r)).getLast?, word = true))
  | .op r (.closeConnection fd) =>
      inferInstanceAs (Decidable (∀ c ∈ (net.mgr r).conns.get fd, Leads p net r c →
        ∀ word ∈ (wordsTo (p.id r) (net.wire r)).getLast?, word = false))
  | .op r .close =>
      inferInstanceAs (Decidable (wordsTo (p.id r) (net.wire r) = [] →
        (net.mgr r).byRemote.has (p.id (!r)) = false))
  | .op _ (.accept _) | .op _ (.send ..) | .op _ (.recv ..) | .op _ (.registerBuf ..) | .op _ (.message _)
  | .deliver _ => instDecidableTrue

/-- `b` closes its manager under a connection on which `a` waits for bytes: `a` is never told. -/
def abandoned : List NetEvent :=
  [.op false (.connect "b" 0), .deliver true, .op true (.accept 0), .deliver false, .op false (.recv 0 8 1),
    .op true .close]

theorem half_open_of_close : ∃ net, (network pair).run .initial abandoned = some net ∧
    (network pair).Along (Roomy pair) .initial abandoned ∧ (∀ r, net.wire r = []) ∧
    Linked pair net false ∧ ¬ Linked pair net true ∧ ((net.mgr false).conn 0).wake ≠ none := by
  refine ⟨_, rfl, ?_⟩
  decide

variable {p : Pair} {net net' : Net} {r : Bool} {o : Options} {s t u : Manager} {a : Act} {as : List Act}
  {c : ConnId} {other : String} {linked linked' : Bool} {said said' : List Bool}

theorem linked_iff (hinv : Inv (p.options r) (net.mgr r)) :
    Linked p net r ↔ (net.mgr r).byRemote.has (p.id (!r)) = true := by
  rw [JsMap.has, Option.isSome_iff_exists]
  constructor
  · rintro ⟨c, hlt, hclosed, hremote⟩
    exact ⟨c, (hinv.byRemote_iff _ c).mpr ⟨⟨hlt, hclosed⟩, hremote⟩⟩
  · rintro ⟨c, hget⟩
    obtain ⟨⟨hlt, hclosed⟩, hremote⟩ := (hinv.byRemote_iff _ c).mp hget
    exact ⟨c, hlt, hclosed, hremote⟩

theorem wordsTo_append (id : String) (posts posts' : List Post) :
    wordsTo id (posts ++ posts') = wordsTo id posts ++ wordsTo id posts' :=
  List.filterMap_append

/-! ### What work on one side does -/

/-- After it there is, or is not, a live connection to `other`; and what was said to `other` on the way. -/
structure Turns (other : String) (s t : Manager) (linked : Bool) (said : List Bool) : Prop where
  has_eq : t.byRemote.has other = linked
  words_eq : ∃ posts, t.posts = s.posts ++ posts ∧ wordsTo other posts = said

theorem Turns.refl (s : Manager) : Turns other s s (s.byRemote.has other) [] :=
  ⟨rfl, [], (List.append_nil _).symm, rfl⟩

theorem Turns.trans (h : Turns other s t linked said) (h' : Turns other t u linked' said') :
    Turns other s u linked' (said ++ said') := by
  obtain ⟨posts, hposts, hsaid⟩ := h.words_eq
  obtain ⟨posts', hposts', hsaid'⟩ := h'.words_eq
  refine ⟨h'.has_eq, posts ++ posts', ?_, ?_⟩
  · rw [hposts', hposts, List.append_assoc]
  · rw [wordsTo_append, hsaid, hsaid']

def Act.links (other : String) (s : Manager) : Act → Bool
  | .incoming _ remoteId | .outgoing _ remoteId _ => decide (other = remoteId) || s.byRemote.has other
  | .kill c => !decide (other = (s.conn c).remoteId) && s.byRemote.has other
  | _ => s.byRemote.has other

def Act.announces (other : String) (s : Manager) : Act → List Bool
  | .outgoing _ remoteId _ => if other = remoteId then [true] else []
  | .hangUp c => if other = (s.conn c).remoteId then [false] else []
  | _ => []

theorem Does.turns (h : Does o s a t) (other : String) :
    Turns other s t (a.links other s) (a.announces other s) := by
  refine ⟨?_, _, h.posts, ?_⟩
  · cases h with
    | incoming | outgoing =>
        rw [JsMap.has, JsMap.get_set, Act.links]
        split <;> simp_all [JsMap.has]
    | kill =>
        rw [JsMap.has, JsMap.get_delete, Act.links]
        split <;> simp_all [JsMap.has]
    | _ => rfl
  · cases a with
    | outgoing | hangUp =>
        simp only [Act.posts, Act.announces, wordsTo, List.filterMap_cons, Message.word?, eq_comm]
        split <;> rfl
    | accept | send => simp [Act.posts, Act.announces, wordsTo, Message.word?]
    | _ => rfl

/-- The act has nothing to do with whether there is a connection. -/
def Act.Mute : Act → Prop
  | .incoming _ _ | .outgoing _ _ _ | .kill _ | .hangUp _ => False
  | _ => True

theorem Acts.mute (h : Acts o s as t) (has : ∀ a ∈ as, a.Mute) (other : String) :
    Turns other s t (s.byRemote.has other) [] := by
  induction h with
  | nil s => exact .refl s
  | cons hdoes _ ih =>
      rename_i s u t a as _
      have ha := has a List.mem_cons_self
      have hfirst : Turns other s u (s.byRemote.has other) [] := by
        have hturns := hdoes.turns other
        cases a with
        | incoming | outgoing | kill | hangUp => exact ha.elim
        | _ => exact hturns
      have hrest := ih fun b hb => has b (List.mem_cons_of_mem _ hb)
      rw [hfirst.has_eq] at hrest
      exact hfirst.trans hrest

/-- The old connection to a remote goes without a word. -/
theorem kills_turns (hinv : Inv o s) {remoteId : String} (h : Acts o s (.quiet :: s.kills remoteId) t)
    (other : String) : Turns other s t (!decide (other = remoteId) && s.byRemote.has other) [] := by
  rw [Manager.kills] at h
  cases hget : s.byRemote.get remoteId with
  | none =>
      rw [hget] at h
      have hmute := h.mute (by simp [Act.Mute]) other
      by_cases hother : other = remoteId
      · subst hother
        simpa [JsMap.has, hget] using hmute
      · simpa [hother] using hmute
  | some previous =>
      rw [hget] at h
      have hremote := ((hinv.byRemote_iff remoteId previous).mp hget).2
      have h : Acts o s ([.quiet] ++ [.kill previous]) t := h
      obtain ⟨u, hquiet, hkill⟩ := h.split
      have hfirst := hquiet.mute (by simp [Act.Mute]) other
      have hlast := hkill.does.turns other
      have hconn : u.conn = s.conn := by
        cases hquiet.does
        rfl
      rw [Act.links, hconn, hremote, hfirst.has_eq] at hlast
      exact hfirst.trans hlast

theorem arrival_turns (hinv : Inv o s) {remoteId : String}
    (h : Acts o s (.quiet :: (s.kills remoteId ++ [.incoming c remoteId])) t) (other : String) :
    Turns other s t (decide (other = remoteId) || s.byRemote.has other) [] := by
  rw [← List.cons_append] at h
  obtain ⟨u, hkills, hopen⟩ := h.split
  have hfirst := kills_turns hinv hkills other
  have hlast := hopen.does.turns other
  rw [Act.links, hfirst.has_eq] at hlast
  have hturns := hfirst.trans hlast
  by_cases hother : other = remoteId
  · simpa [Act.announces, hother] using hturns
  · simpa [Act.announces, hother] using hturns

/-- What the event makes of the connection to `other`, if it makes anything of it. -/
def Event.turn (o : Options) (s : Manager) (other : String) : Event → Option Bool
  | .connect remoteId _ => if other = remoteId then some true else none
  | .closeConnection fd =>
      match s.conns.get fd with
      | none => none
      | some c => if (s.conn c).closed = false ∧ other = (s.conn c).remoteId then some false else none
  | .close => some false
  | .message m => if m.sender = other then m.word? o.nodeId else none
  | _ => none

/-- The event tells the other side what it makes of the connection. -/
def Event.Tells : Event → Prop
  | .connect .. | .closeConnection _ => True
  | _ => False

instance : ∀ e : Event, Decidable e.Tells
  | .connect .. | .closeConnection _ => instDecidableTrue
  | .accept _ | .send .. | .recv .. | .registerBuf .. | .close | .message _ => instDecidableFalse

/-- The event does not need a free number, or there is one. -/
def Event.Fits (o : Options) (s : Manager) : Event → Prop
  | .connect .. => (s.newFd o).1 ≠ none
  | .message m => m.receiver = o.nodeId → m.kind = .connect → (s.newFd o).1 ≠ none
  | _ => True

theorem step_turns (hinv : Inv o s) {e : Event} (hfits : e.Fits o s) (other : String) :
    Turns other s (s.step o e) ((e.turn o s other).getD (s.byRemote.has other))
      (if e.Tells then (e.turn o s other).toList else []) := by
  obtain ⟨as, hmoves, hacts⟩ := step_moves hinv e
  have hempty : e = .close → (s.step o e).byRemote = .empty := by
    rintro rfl
    rfl
  generalize s.step o e = t at hacts hempty ⊢
  cases hmoves with
  | connectFull remoteId done hfull => exact absurd (newFd_none_of_full hfull) hfits
  | incomingFull sender hfull => exact absurd (newFd_none_of_full hfull) (hfits rfl rfl)
  | connect fd remoteId done hfd hfree =>
      rw [← List.cons_append] at hacts
      obtain ⟨u, hkills, hopen⟩ := hacts.split
      have hfirst := kills_turns hinv hkills other
      have hlast := hopen.does.turns other
      rw [Act.links, hfirst.has_eq] at hlast
      have hturns := hfirst.trans hlast
      by_cases hother : other = remoteId
      · simpa [Event.turn, Event.Tells, Act.announces, hother] using hturns
      · simpa [Event.turn, Act.announces, hother] using hturns
  | incoming fd sender hfd hfree hwaiters =>
      have hturns := arrival_turns hinv hacts other
      by_cases hother : sender = other
      · simpa [Event.turn, Event.Tells, Message.word?, hother] using hturns
      · simpa [Event.turn, Event.Tells, hother, Ne.symm hother] using hturns
  | incomingAccepted fd sender hfd hfree waiter rest hwaiters =>
      rw [← List.cons_append] at hacts
      obtain ⟨u, hopen, hserve⟩ := hacts.split
      have hfirst := arrival_turns hinv hopen other
      have hlast := hserve.mute (by simp [Act.Mute]) other
      rw [hfirst.has_eq] at hlast
      have hturns := hfirst.trans hlast
      by_cases hother : sender = other
      · simpa [Event.turn, Event.Tells, Message.word?, hother] using hturns
      · simpa [Event.turn, Event.Tells, hother, Ne.symm hother] using hturns
  | closeLive c hlive =>
      have hacts : Acts o s ([.hangUp c] ++ ([.kill c] ++ [.release c])) t := hacts
      obtain ⟨u, hhangUp, hrest⟩ := hacts.split
      obtain ⟨v, hkill, hrelease⟩ := hrest.split
      have hfirst := hhangUp.does.turns other
      have hmid := hkill.does.turns other
      have hlast := hrelease.mute (by simp [Act.Mute]) other
      have hconn : u.conn = s.conn := by
        cases hhangUp.does
        rfl
      rw [Act.links, hconn, hfirst.has_eq] at hmid
      rw [hmid.has_eq] at hlast
      have hturns := hfirst.trans (hmid.trans hlast)
      have hget := hinv.get_of_live c hlive
      by_cases hother : other = (s.conn c).remoteId
      · simpa [Event.turn, Event.Tells, hget, hlive.2, Act.links, Act.announces, hother] using hturns
      · simpa [Event.turn, Event.Tells, hget, hlive.2, Act.links, Act.announces, hother] using hturns
  | close cs hlive =>
      have hstill : ∀ a ∈ cs.map Act.kill ++ [.quiet], a.Still := by
        intro a ha
        rw [List.mem_append, List.mem_map, List.mem_singleton] at ha
        rcases ha with ⟨c, -, rfl⟩ | rfl
        · trivial
        · trivial
      have hposts := (hacts.still_frame hstill).2
      refine ⟨?_, [], ?_, rfl⟩
      · rw [hempty rfl]
        rfl
      · rw [hposts, List.append_nil]
  | closed c sender h =>
      have hturns := hacts.does.turns other
      have hremote := ((hinv.byRemote_iff sender c).mp h).2
      by_cases hother : sender = other
      · simpa [Event.turn, Event.Tells, Message.word?, Act.links, Act.announces, hremote, hother] using hturns
      · simpa [Event.turn, Act.links, Act.announces, hremote, hother, Ne.symm hother] using hturns
  | dropped sender kind hkind h =>
      have hmute := hacts.mute (by simp) other
      by_cases hother : sender = other
      · cases kind with
        | connect => exact absurd rfl hkind
        | close =>
            have hnone : s.byRemote.has other = false := by simpa [JsMap.has, hother] using h
            simpa [Event.turn, Event.Tells, Message.word?, hother, hnone] using hmute
        | _ => simpa [Event.turn, Message.word?] using hmute
      · simpa [Event.turn, hother] using hmute
  | closeTombstone c hget hclosed =>
      have hmute := hacts.mute (by simp [Act.Mute]) other
      simpa [Event.turn, hget, hclosed] using hmute
  | closeUnknown fd h =>
      have hmute := hacts.mute (by simp [Act.Mute]) other
      simpa [Event.turn, h] using hmute
  | ignored m hreceiver =>
      have hmute := hacts.mute (by simp [Act.Mute]) other
      simpa [Event.turn, Message.word?, hreceiver] using hmute
  | data c sender bytes as h hbytes has =>
      have hmute := hacts.mute (by cases has <;> simp [Act.Mute]) other
      simpa [Event.turn, Message.word?] using hmute
  | _ =>
      have hmute := hacts.mute (by simp [Act.Mute]) other
      simpa [Event.turn, Message.word?] using hmute

/-! ### Both sides -/

/-- Whether a side has a live connection to the other, and what is on its way to it about that. -/
def mirror (p : Pair) (net : Net) : Mirror Bool where
  value r := (net.mgr r).byRemote.has (p.id (!r))
  wire r := wordsTo (p.id r) (net.wire r)

structure Sides (p : Pair) (net : Net) : Prop where
  inv : ∀ r, Inv (p.options r) (net.mgr r)
  objects : ∀ r, Objects (net.mgr r)
  sender : ∀ r, ∀ post ∈ net.wire r, post.message.sender = p.id (!r)

theorem Sides.initial : Sides p .initial where
  inv _ := .initial
  objects _ := .initial
  sender _ _ hmem := nomatch hmem

theorem step_posts (hinv : Inv o s) (e : Event) : ∃ posts, (s.step o e).posts = s.posts ++ posts ∧
    ∀ post ∈ posts, post.message.sender = o.nodeId := by
  obtain ⟨as, -, hacts⟩ := step_moves hinv e
  generalize s.step o e = t at hacts
  induction hacts with
  | nil => exact ⟨[], by simp, by simp⟩
  | cons hdoes _ ih =>
      rename_i s u t a as _
      obtain ⟨posts, hposts, hsender⟩ := ih (hinv.does hdoes)
      refine ⟨_, by rw [hposts, hdoes.posts, List.append_assoc], ?_⟩
      intro post hmem
      rw [List.mem_append] at hmem
      rcases hmem with hmem | hmem
      · cases a <;> simp_all [Act.posts]
      · exact hsender post hmem

theorem Sides.after (h : Sides p net) (e : Event) :
    Sides p (net.after r ((net.mgr r).step (p.options r) e)) := by
  obtain ⟨as, -, hacts⟩ := step_moves (h.inv r) e
  obtain ⟨posts, hposts, hsender⟩ := step_posts (h.inv r) e
  constructor
  · intro r'
    rw [Net.after_mgr]
    by_cases hr : r' = r
    · subst hr
      rw [update_self]
      exact (h.inv r').acts hacts
    · rw [update_of_ne hr]
      exact h.inv r'
  · intro r'
    rw [Net.after_mgr]
    by_cases hr : r' = r
    · subst hr
      rw [update_self]
      exact (h.objects r').acts (h.inv r') hacts
    · rw [update_of_ne hr]
      exact h.objects r'
  · intro r' post hmem
    rw [Net.after_wire, hposts, List.drop_left] at hmem
    by_cases hr : r' = !r
    · subst hr
      rw [update_self, List.mem_append] at hmem
      rcases hmem with hmem | hmem
      · exact h.sender _ post hmem
      · rw [Bool.not_not]
        exact hsender post hmem
    · rw [update_of_ne hr] at hmem
      exact h.sender r' post hmem

theorem Sides.pop (h : Sides p net) (r : Bool) : Sides p (net.pop r) where
  inv := h.inv
  objects := h.objects
  sender r' post hmem := by
    rw [Net.pop_wire] at hmem
    by_cases hr : r' = r
    · subst hr
      rw [update_self] at hmem
      exact h.sender r' post (List.mem_of_mem_tail hmem)
    · rw [update_of_ne hr] at hmem
      exact h.sender r' post hmem

theorem Sides.setOrigin (h : Sides p net) (r : Bool) (w y : ConnId) : Sides p (net.setOrigin r w y) :=
  ⟨h.inv, h.objects, h.sender⟩

theorem mirror_after (h : Turns (p.id (!r)) (net.mgr r) t linked said) :
    mirror p (net.after r t) =
      ⟨update (mirror p net).value r linked,
        update (mirror p net).wire (!r) ((mirror p net).wire (!r) ++ said)⟩ := by
  obtain ⟨posts, hposts, hsaid⟩ := h.words_eq
  rw [mirror, Mirror.mk.injEq]
  constructor
  · funext r'
    rw [Net.after_mgr]
    by_cases hr : r' = r
    · subst hr
      rw [update_self, update_self, h.has_eq]
    · rw [update_of_ne hr, update_of_ne hr]
      rfl
  · funext r'
    rw [Net.after_wire, hposts, List.drop_left]
    by_cases hr : r' = !r
    · subst hr
      rw [update_self, update_self, wordsTo_append, hsaid]
      rfl
    · rw [update_of_ne hr, update_of_ne hr]
      rfl

/-- A step of a side by itself: it sets its copy and says so, or lets it slip, or leaves it. -/
theorem mirror_op (h : Sides p net) {e : Event} (hfits : e.Fits (p.options r) (net.mgr r)) :
    mirror p (net.after r ((net.mgr r).step (p.options r) e)) =
      match e.turn (p.options r) (net.mgr r) (p.id (!r)) with
      | none => mirror p net
      | some v => if e.Tells then (mirror p net).set r v else (mirror p net).slip r v := by
  rw [mirror_after (step_turns (h.inv r) hfits (p.id (!r)))]
  cases e.turn (p.options r) (net.mgr r) (p.id (!r)) with
  | none =>
      have hvalue : update (mirror p net).value r ((net.mgr r).byRemote.has (p.id (!r))) = (mirror p net).value :=
        update_eq_self r _
      simp [hvalue]
  | some v =>
      by_cases htells : e.Tells
      · simp [htells, Mirror.set]
      · simp [htells, Mirror.slip]

theorem mirror_pop {post : Post} {rest : List Post} (hwire : net.wire r = post :: rest) :
    mirror p (net.pop r) =
      ⟨(mirror p net).value, update (mirror p net).wire r (wordsTo (p.id r) rest)⟩ := by
  rw [mirror, Mirror.mk.injEq]
  refine ⟨rfl, ?_⟩
  funext r'
  rw [Net.pop_wire, hwire]
  by_cases hr : r' = r
  · subst hr
    rw [update_self, update_self]
    rfl
  · rw [update_of_ne hr, update_of_ne hr]
    rfl

/-- The frame that arrives is the word on the wire, if it says one. -/
theorem mirror_deliver (h : Sides p net) {post : Post} {rest : List Post} (hwire : net.wire r = post :: rest)
    (hfits : (Event.message post.message).Fits (p.options r) (net.mgr r)) :
    mirror p ((net.pop r).after r ((net.mgr r).onMessage (p.options r) post.message)) =
      match post.message.word? (p.id r) with
      | none => mirror p net
      | some v => (mirror p net).take r v (wordsTo (p.id r) rest) := by
  have hsender : post.message.sender = p.id (!r) := h.sender r post (by rw [hwire]; exact List.mem_cons_self)
  have hop : mirror p ((net.pop r).after r ((net.mgr r).onMessage (p.options r) post.message)) = _ :=
    mirror_op (h.pop r) hfits
  have hturn : (Event.message post.message).turn (p.options r) ((net.pop r).mgr r) (p.id (!r)) =
      post.message.word? (p.id r) := by
    rw [Event.turn, if_pos hsender]
    rfl
  rw [hop, hturn, mirror_pop hwire]
  cases hword : post.message.word? (p.id r) with
  | none =>
      have hsame : (mirror p net).wire r = wordsTo (p.id r) rest := by
        show wordsTo (p.id r) (net.wire r) = wordsTo (p.id r) rest
        rw [hwire, wordsTo, List.filterMap_cons, hword]
        rfl
      rw [← hsame, update_eq_self]
  | some v => rfl

theorem deliver_cases (hdeliver : net.deliver p r = some net') : ∃ post rest, net.wire r = post :: rest ∧
    ∃ w y, net' = (net.pop r).after r ((net.mgr r).onMessage (p.options r) post.message) ∨
      net' = ((net.pop r).setOrigin r w y).after r ((net.mgr r).onMessage (p.options r) post.message) := by
  unfold Net.deliver at hdeliver
  cases hwire : net.wire r with
  | nil => simp [hwire] at hdeliver
  | cons post rest =>
      refine ⟨post, rest, rfl, (net.mgr r).created, post.conn, ?_⟩
      rw [hwire] at hdeliver
      dsimp only at hdeliver
      split at hdeliver
      · exact .inr (Option.some.inj hdeliver).symm
      · exact .inl (Option.some.inj hdeliver).symm

theorem op_cases {event : Event} (hstep : (network p).step net (.op r event) = some net') :
    net' = net.after r ((net.mgr r).step (p.options r) event) ∧ ∀ m, event ≠ .message m := by
  cases event with
  | message m => cases hstep
  | _ => exact ⟨(Option.some.inj hstep).symm, fun _ => nofun⟩

theorem Sides.step (h : Sides p net) {e : NetEvent} (hstep : (network p).step net e = some net') :
    Sides p net' := by
  cases e with
  | op r event =>
      rw [(op_cases hstep).1]
      exact h.after event
  | deliver r =>
      obtain ⟨post, rest, -, w, y, rfl | rfl⟩ := deliver_cases hstep
      · exact (h.pop r).after (.message post.message)
      · exact ((h.pop r).setOrigin r w y).after (.message post.message)

/-- **A step keeps the two copies together if and only if it meets the condition.** -/
theorem told_iff (h : Sides p net) (hagrees : (mirror p net).Agrees) {e : NetEvent} (hroomy : Roomy p net e)
    (hstep : (network p).step net e = some net') : (mirror p net').Agrees ↔ Told p net e := by
  cases e with
  | deliver r =>
      refine iff_of_true ?_ trivial
      obtain ⟨post, rest, hwire, w, y, hnet⟩ := deliver_cases hstep
      have hdeliver := mirror_deliver h hwire (hroomy post (by simp [hwire]))
      have hmirror : mirror p net' =
          mirror p ((net.pop r).after r ((net.mgr r).onMessage (p.options r) post.message)) := by
        rcases hnet with rfl | rfl
        · rfl
        · rfl
      rw [hmirror, hdeliver]
      cases hword : post.message.word? (p.id r) with
      | none => exact hagrees
      | some v =>
          have hfirst : (mirror p net).wire r = v :: wordsTo (p.id r) rest := by
            show wordsTo (p.id r) (net.wire r) = v :: wordsTo (p.id r) rest
            rw [hwire, wordsTo, List.filterMap_cons, hword]
            rfl
          exact (Mirror.agrees_take hfirst).mpr hagrees
  | op r event =>
      obtain ⟨rfl, hevent⟩ := op_cases hstep
      have hfits : event.Fits (p.options r) (net.mgr r) := by
        cases event with
        | connect => exact hroomy
        | message m => exact absurd rfl (hevent m)
        | _ => trivial
      rw [mirror_op h hfits]
      cases event with
      | connect remoteId done =>
          have htells : (Event.connect remoteId done).Tells := trivial
          by_cases hremote : p.id (!r) = remoteId
          · simp only [Event.turn, if_pos htells, if_pos hremote, Mirror.agrees_set]
            exact ⟨fun hword _ => hword, fun htold => htold hremote.symm⟩
          · simp only [Event.turn, if_neg hremote]
            exact iff_of_true hagrees fun hother => absurd hother.symm hremote
      | closeConnection fd =>
          have htells : (Event.closeConnection fd).Tells := trivial
          cases hget : (net.mgr r).conns.get fd with
          | none =>
              simp only [Event.turn, hget]
              exact iff_of_true hagrees (by simp [Told, hget])
          | some c =>
              by_cases hleads : ((net.mgr r).conn c).closed = false ∧ p.id (!r) = ((net.mgr r).conn c).remoteId
              · simp only [Event.turn, hget, if_pos hleads, if_pos htells, Mirror.agrees_set]
                have hleads' : Leads p net r c := ⟨hleads.1, hleads.2.symm⟩
                simp [Told, hget, hleads', mirror]
              · simp only [Event.turn, hget, if_neg hleads]
                refine iff_of_true hagrees fun c' hc' hleads' => ?_
                rw [hget, Option.mem_some_iff] at hc'
                subst hc'
                exact absurd ⟨hleads'.1, hleads'.2.symm⟩ hleads
      | close =>
          have htells : ¬ Event.close.Tells := id
          simp only [Event.turn, if_neg htells]
          exact Mirror.agrees_slip hagrees
      | message m => exact absurd rfl (hevent m)
      | _ => exact iff_of_true hagrees trivial

theorem agrees_of_told (h : Sides p net) (hagrees : (mirror p net).Agrees) (hwire : ∀ r, net.wire r = []) :
    (Linked p net false ↔ Linked p net true) ∧
      ∀ r c, ((net.mgr r).conn c).wake ≠ none → ((net.mgr r).conn c).remoteId = p.id (!r) →
        Linked p net (!r) := by
  have hrest : ∀ r, (mirror p net).wire r = [] := by
    intro r
    show wordsTo (p.id r) (net.wire r) = []
    rw [hwire]
    rfl
  have hvalue : (net.mgr false).byRemote.has (p.id true) = (net.mgr true).byRemote.has (p.id false) :=
    Mirror.value_eq hagrees hrest
  have hboth : ∀ r, Linked p net r ↔ (net.mgr false).byRemote.has (p.id true) = true := by
    intro r
    rw [linked_iff (h.inv r)]
    cases r with
    | false => exact Iff.rfl
    | true => rw [hvalue, Bool.not_true]
  refine ⟨(hboth false).trans (hboth true).symm, fun r c hwake hremote => ?_⟩
  obtain ⟨recv, hrecv⟩ := Option.ne_none_iff_exists'.mp hwake
  obtain ⟨hlt, hclosed⟩ := wake_live (h.objects r) hrecv
  exact (hboth (!r)).mpr ((hboth r).mp ⟨c, hlt, hclosed, hremote⟩)

/-- **No half-open connection at rest**, in every run whose steps keep the two sides told. -/
theorem no_half_open (p : Pair) (es : List NetEvent) (net : Net)
    (hroomy : (network p).Along (Roomy p) .initial es) (htold : (network p).Along (Told p) .initial es)
    (hrun : (network p).run .initial es = some net) (hwire : ∀ r, net.wire r = []) :
    (Linked p net false ↔ Linked p net true) ∧
      ∀ r c, ((net.mgr r).conn c).wake ≠ none → ((net.mgr r).conn c).remoteId = p.id (!r) →
        Linked p net (!r) := by
  have hkeeps : Sides p net ∧ (mirror p net).Agrees := by
    refine run_keeps_along (C := fun net e => Roomy p net e ∧ Told p net e)
      (P := fun net => Sides p net ∧ (mirror p net).Agrees) ?_ ⟨.initial, rfl⟩ (hroomy.and htold) hrun
    intro net e net' ⟨hsides, hagrees⟩ ⟨hroomy, htold⟩ hstep
    exact ⟨hsides.step hstep, (told_iff hsides hagrees hroomy hstep).mpr htold⟩
  exact agrees_of_told hkeeps.1 hkeeps.2 hwire

/-- Both sides hang up and connect again, each after it has heard of what the other did; then `a` calls
`close()` when it has no connection, and `b` connects. -/
def settled : List NetEvent :=
  [.op false (.connect "b" 0), .deliver true, .op true (.accept 0), .deliver false,
    .op false (.closeConnection 0), .deliver true, .op false .close, .op true (.connect "a" 1), .deliver false,
    .op true (.recv 1 8 2)]

theorem no_half_open_settled : ∃ net, (network pair).run .initial settled = some net ∧
    (∀ r, net.wire r = []) ∧ ((net.mgr true).conn 1).wake ≠ none ∧ Linked pair net false := by
  refine ⟨_, rfl, by decide, by decide, ?_⟩
  exact (no_half_open pair settled _ (by decide) (by decide) rfl (by decide)).2 true 1 (by decide) (by decide)

end LlmRuntime.PeerManager

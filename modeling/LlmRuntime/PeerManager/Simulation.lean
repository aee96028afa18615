import LlmRuntime.Base.Link
import LlmRuntime.PeerManager.Net

/-!
# The two managers as a link

Of the connections of a manager, those to the other node make one side of a `Link`: the current one is
what `byRemote` has for that node, and a frame on the wire is one of the link if it is addressed to the
manager it arrives at. `Sim` relates the two, and every act of a manager that the condition on steps
allows is matched by moves of the link.
-/

namespace LlmRuntime.PeerManager

open Function Link

def frameOf : Kind → Option (Frame UInt8)
  | .connect => some .connect
  | .accepted => some .accepted
  | .data bytes => some (.data bytes)
  | .close => some .close
  | .other _ => none

def Post.frame? (id : String) (post : Post) : Option (Nat × Frame UInt8) :=
  if post.message.receiver = id then (frameOf post.message.kind).map fun frame => (post.conn, frame) else none

def framesTo (id : String) (posts : List Post) : List (Nat × Frame UInt8) := posts.filterMap (Post.frame? id)

/-- Side `r` of the link is what manager `s` has to do with the other node. -/
structure Mirrors (p : Pair) (r : Bool) (s : Manager) (L : Link UInt8) : Prop where
  inv : Inv (p.options r) s
  next : L.next r = s.created
  cur : L.cur r = s.byRemote.get (p.id (!r))
  sent : ∀ c, L.sent r c <+: sentOn s c
  sent_eq : ∀ c, L.cur r = some c → L.sent r c = sentOn s c
  unsent : ∀ c, s.created ≤ c → sentOn s c = []
  got : ∀ c, yielded s c <+: L.got r c
  got_eq : ∀ c, s.Live c → yielded s c ++ (s.conn c).queue.flatten = L.got r c
  accepted : ∀ c, L.accepted r c = true → Accepted s c
  waiting : ∀ c, (s.conn c).accepted ≠ none → c < s.created ∧ L.origin r c = none
  connected : ∀ c, Connected s c → c < s.created ∧ L.answered r c = true ∧ L.origin r c = none

structure Sim (p : Pair) (net : Net) (L : Link UInt8) : Prop where
  link : L.Inv
  side : ∀ r, Mirrors p r (net.mgr r) L
  flight : ∀ r, L.flight r = framesTo (p.id r) (net.wire r)
  sender : ∀ r, ∀ post ∈ net.wire r, post.message.sender = p.id (!r)
  origin : L.origin = net.origin

variable {p : Pair} {r : Bool} {s t u : Manager} {L M : Link UInt8} {a : Act} {as : List Act} {c : ConnId}
  {net : Net} {post : Post} {rest : List Post}

theorem Sim.initial : Sim p .initial Link.initial where
  link := .initial
  side r := by
    constructor
    · exact .initial
    all_goals simp [Net.initial, Manager.initial, Link.initial, sentOn, yielded, Connected]
  flight r := rfl
  sender r post h := by cases h
  origin := rfl

/-! ### One side -/

theorem Mirrors.agree (h : Mirrors p r s L) (hagree : Agree r L M) : Mirrors p r s M := by
  obtain ⟨hnext, hcur, hsent, hgot, haccepted, hanswered, horigin⟩ := hagree
  constructor
  · exact h.inv
  · rw [hnext]
    exact h.next
  · rw [hcur]
    exact h.cur
  · rw [hsent]
    exact h.sent
  · rw [hcur, hsent]
    exact h.sent_eq
  · exact h.unsent
  · rw [hgot]
    exact h.got
  · rw [hgot]
    exact h.got_eq
  · rw [haccepted]
    exact h.accepted
  · rw [horigin]
    exact h.waiting
  · rw [hanswered, horigin]
    exact h.connected

theorem Mirrors.got_fresh (h : Mirrors p r s L) (hids : L.Ids) : L.got r s.created = [] :=
  (hids.fresh r _ (Nat.le_of_eq h.next)).2

theorem Mirrors.live_of_cur (h : Mirrors p r s L) (hc : L.cur r = some c) :
    s.Live c ∧ (s.conn c).remoteId = p.id (!r) := by
  rw [h.cur] at hc
  exact (h.inv.byRemote_iff _ _).mp hc

theorem Mirrors.cur_of_live (h : Mirrors p r s L) (hc : s.Live c)
    (hremote : (s.conn c).remoteId = p.id (!r)) : L.cur r = some c := by
  rw [h.cur]
  exact (h.inv.byRemote_iff _ _).mpr ⟨hc, hremote⟩

/-- What the link must do for an act of the manager. -/
structure Follows (p : Pair) (r : Bool) (s : Manager) (L : Link UInt8) (a : Act) (t : Manager)
    (M : Link UInt8) : Prop where
  next : M.next r = t.created
  cur : M.cur r = t.byRemote.get (p.id (!r))
  sent : ∀ c, M.sent r c = L.sent r c ++ if L.cur r = some c then a.sends c else []
  got : ∀ c, M.got r c = L.got r c ++ a.enqueues c
  accepted : ∀ c, M.accepted r c = true → L.accepted r c = true ∨ ∃ done, a = .accept c done
  answered : ∀ c, L.answered r c = true ∨ a = .connected c → M.answered r c = true
  origin : ∀ c, c < s.created → M.origin r c = L.origin r c
  asked : ∀ remoteId done, a = .outgoing s.created remoteId done → M.origin r s.created = none

theorem Mirrors.does (h : Mirrors p r s L) (hids : L.Ids) (hdoes : Does (p.options r) s a t)
    (hfollows : Follows p r s L a t M) : Mirrors p r t M := by
  have hinv := h.inv.does hdoes
  have hstatic := hdoes.static
  -- a connection that the act has just opened
  have hnew : ∀ c, c = s.created → L.sent r c = [] ∧ yielded s c = [] ∧ L.got r c = [] ∧ a.sends c = [] ∧
      a.yields c = [] ∧ a.enqueues c = [] := by
    rintro c rfl
    have hdead : ¬ s.Live s.created := fun hlive => Nat.lt_irrefl _ hlive.1
    have hgot := h.got_fresh hids
    refine ⟨?_, ?_, hgot, ?_, ?_, ?_⟩
    · exact List.prefix_nil.mp (h.unsent _ (Nat.le_refl _) ▸ h.sent _)
    · exact List.prefix_nil.mp (hgot ▸ h.got _)
    · exact Classical.by_contradiction fun hsends => hdead (hdoes.sends_live hsends)
    · exact Classical.by_contradiction fun hyields => hdead (hdoes.yields_live hyields).1
    · exact Classical.by_contradiction fun henqueues => hdead (hdoes.enqueues_live henqueues)
  have hkept : ∀ c, s.Live c → t.Live c →
      yielded t c ++ (t.conn c).queue.flatten = M.got r c := by
    intro c hlive hlive'
    rw [hdoes.yielded, List.append_assoc, hdoes.queue hlive hlive', ← List.append_assoc, h.got_eq c hlive,
      hfollows.got]
  constructor
  · exact hinv
  · exact hfollows.next
  · exact hfollows.cur
  · intro c
    rw [hfollows.sent, hdoes.sentOn]
    split
    · rename_i hc
      rw [h.sent_eq c hc]
    · rw [List.append_nil]
      exact (h.sent c).trans (List.prefix_append _ _)
  · intro c hc
    rw [hfollows.cur] at hc
    obtain ⟨hlive', hremote⟩ := (hinv.byRemote_iff _ _).mp hc
    rw [hfollows.sent, hdoes.sentOn]
    rcases hdoes.live hlive' with hlive | ⟨hcreated, -, -⟩
    · rw [(hstatic.2 c hlive.1).2] at hremote
      have hcur := h.cur_of_live hlive hremote
      rw [if_pos hcur, h.sent_eq c hcur]
    · obtain ⟨hsent, -, -, hsends, -, -⟩ := hnew c hcreated
      rw [hsent, hsends, h.unsent c (Nat.le_of_eq hcreated.symm)]
      simp
  · intro c hc
    rw [hdoes.sentOn, h.unsent c (Nat.le_trans hstatic.1 hc), List.nil_append]
    by_contra hsends
    have hlive := hdoes.sends_live hsends
    exact Nat.not_lt_of_le (Nat.le_trans hstatic.1 hc) hlive.1
  · intro c
    by_cases hyields : a.yields c = []
    · rw [hdoes.yielded, hyields, List.append_nil, hfollows.got]
      exact (h.got c).trans (List.prefix_append _ _)
    · obtain ⟨hlive, hlive'⟩ := hdoes.yields_live hyields
      exact ⟨_, hkept c hlive hlive'⟩
  · intro c hlive'
    rcases hdoes.live hlive' with hlive | ⟨hcreated, -, hqueue⟩
    · exact hkept c hlive hlive'
    · obtain ⟨-, hyielded, hgot, -, hyields, henqueues⟩ := hnew c hcreated
      rw [hdoes.yielded, hyielded, hyields, hqueue, hfollows.got, hgot, henqueues]
      rfl
  · intro c hc
    exact hdoes.accepted ((hfollows.accepted c hc).imp_left (h.accepted c))
  · intro c hc
    rcases hdoes.waiting hc with hwait | ⟨remoteId, done, ha⟩
    · obtain ⟨hlt, horigin⟩ := h.waiting c hwait
      exact ⟨Nat.lt_of_lt_of_le hlt hstatic.1, by rw [hfollows.origin c hlt, horigin]⟩
    · subst ha
      cases hdoes
      exact ⟨Nat.lt_succ_self _, hfollows.asked remoteId done rfl⟩
  · intro c hc
    rcases hdoes.of_connected hc with hconnected | ha
    · obtain ⟨hlt, hanswered, horigin⟩ := h.connected c hconnected
      exact ⟨Nat.lt_of_lt_of_le hlt hstatic.1, hfollows.answered c (.inl hanswered),
        by rw [hfollows.origin c hlt, horigin]⟩
    · have hwait : (s.conn c).accepted ≠ none := by
        subst ha
        cases hdoes with
        | connected _ done _ hwait => simp [hwait]
      obtain ⟨hlt, horigin⟩ := h.waiting c hwait
      exact ⟨Nat.lt_of_lt_of_le hlt hstatic.1, hfollows.answered c (.inr ha),
        by rw [hfollows.origin c hlt, horigin]⟩

/-! ### Both sides -/

theorem framesTo_append (id : String) (posts posts' : List Post) :
    framesTo id (posts ++ posts') = framesTo id posts ++ framesTo id posts' :=
  List.filterMap_append

theorem framesTo_cons (id : String) (post : Post) (posts : List Post) :
    framesTo id (post :: posts) = (post.frame? id).toList ++ framesTo id posts := by
  rw [framesTo, List.filterMap_cons]
  cases post.frame? id <;> rfl

theorem side_cases (r s : Bool) : s = r ∨ s = !r := by
  cases s <;> cases r <;> simp

theorem after_self (net : Net) (r : Bool) : net.after r (net.mgr r) = net := by
  rw [Net.after, List.drop_length, List.append_nil, update_eq_self, update_eq_self]

/-- Two stretches of work on one side. -/
theorem after_after (net : Net) (ht : (net.mgr r).posts <+: t.posts) (hu : t.posts <+: u.posts) :
    (net.after r t).after r u = net.after r u := by
  obtain ⟨posts, ht⟩ := ht
  obtain ⟨posts', hu⟩ := hu
  simp [Net.after, ← hu, ← ht]

theorem Does.posts_mono (h : Does (p.options r) s a t) : s.posts <+: t.posts :=
  ⟨_, h.posts.symm⟩

theorem Acts.posts_mono (h : Acts (p.options r) s as t) : s.posts <+: t.posts := by
  induction h with
  | nil => exact List.prefix_rfl
  | cons hdoes _ ih => exact hdoes.posts_mono.trans ih

theorem after_pop (net : Net) (r : Bool) (t : Manager) : (net.after r t).pop r = (net.pop r).after r t := by
  have hne : r ≠ !r := Bool.self_ne_not r
  simp only [Net.pop, Net.after, update_of_ne hne, update_of_ne hne.symm]
  rw [update_comm hne.symm]

theorem Sim.of_sides (hsim : Sim p net L) {net' : Net} (hlink : M.Inv) (hside : Mirrors p r t M)
    (hagree : Agree (!r) L M) (hmgr : net'.mgr = update net.mgr r t)
    (hflight : ∀ s, M.flight s = framesTo (p.id s) (net'.wire s))
    (hsender : ∀ s, ∀ post ∈ net'.wire s, post.message.sender = p.id (!s))
    (horigin : M.origin = net'.origin) : Sim p net' M := by
  constructor
  · exact hlink
  · intro s
    rw [hmgr]
    rcases side_cases r s with rfl | rfl
    · rw [update_self]
      exact hside
    · rw [update_of_ne (Bool.not_ne_self r)]
      exact (hsim.side (!r)).agree hagree
  · exact hflight
  · exact hsender
  · exact horigin

/-- An act of side `r`, matched by moves of the link. -/
theorem Sim.does (hsim : Sim p net L) (hdoes : Does (p.options r) (net.mgr r) a t) (hlink : M.Inv)
    (hfollows : Follows p r (net.mgr r) L a t M) (hagree : Agree (!r) L M)
    (hflight : M.flight = update L.flight (!r)
      (L.flight (!r) ++ framesTo (p.id (!r)) (a.posts (p.options r) (net.mgr r))))
    (horigin : M.origin = L.origin) : Sim p (net.after r t) M := by
  have hwire : (net.after r t).wire =
      update net.wire (!r) (net.wire (!r) ++ a.posts (p.options r) (net.mgr r)) := by
    simp [Net.after, hdoes.posts]
  refine hsim.of_sides hlink ((hsim.side r).does hsim.link.ids hdoes hfollows) hagree rfl ?_ ?_
    (horigin.trans hsim.origin)
  · intro s
    rw [hflight, hwire]
    rcases side_cases r s with rfl | rfl
    · rw [update_of_ne (Bool.self_ne_not s), update_of_ne (Bool.self_ne_not s), hsim.flight]
    · rw [update_self, update_self, framesTo_append, hsim.flight]
  · intro s post hpost
    rw [hwire, update_apply] at hpost
    split at hpost
    · rename_i hs
      rw [List.mem_append] at hpost
      rcases hpost with hpost | hpost
      · exact hs ▸ hsim.sender _ post hpost
      · rw [hs, Bool.not_not]
        cases a <;> simp_all [Act.posts, Pair.options]
    · exact hsim.sender s post hpost

/-- Side `r` takes a frame off the wire and posts nothing. -/
theorem Sim.takes (hsim : Sim p net L) {net' : Net} (hwire : net.wire r = post :: rest) (hlink : M.Inv)
    (hside : Mirrors p r t M) (hagree : Agree (!r) L M) (hmgr : net'.mgr = update net.mgr r t)
    (hwire' : net'.wire = update net.wire r rest)
    (hflight : M.flight = update L.flight r (framesTo (p.id r) rest))
    (horigin : M.origin = net'.origin) : Sim p net' M := by
  refine hsim.of_sides hlink hside hagree hmgr ?_ ?_ horigin
  · intro s
    rw [hflight, hwire', update_apply, update_apply]
    split
    · rename_i hs
      rw [hs]
    · exact hsim.flight s
  · intro s post' hpost
    rw [hwire', update_apply] at hpost
    split at hpost
    · rename_i hs
      subst hs
      exact hsim.sender s post' (by rw [hwire]; exact List.mem_cons_of_mem _ hpost)
    · exact hsim.sender s post' hpost

/-! ### What a side does by itself -/

/-- The act neither opens a connection nor posts a frame nor takes one in. -/
def Act.Still : Act → Prop
  | .quiet | .refuse _ | .park _ | .serve _ | .finish _ _ | .kill _ | .drain _ _ | .wake _ _ | .release _ => True
  | _ => False

theorem Sim.still (hsim : Sim p net L) (hdoes : Does (p.options r) (net.mgr r) a t) (hstill : a.Still) :
    ∃ M, Sim p (net.after r t) M := by
  have hside := hsim.side r
  have hsame : t.created = (net.mgr r).created →
      t.byRemote.get (p.id (!r)) = (net.mgr r).byRemote.get (p.id (!r)) → ∃ M, Sim p (net.after r t) M := by
    intro hcreated hbyRemote
    refine ⟨L, hsim.does hdoes hsim.link ?_ ⟨rfl, rfl, rfl, rfl, rfl, rfl, rfl⟩ ?_ rfl⟩
    · constructor
      · rw [hcreated, hside.next]
      · rw [hbyRemote, hside.cur]
      all_goals cases a <;> simp_all [Act.Still, Act.sends, Act.enqueues]
    · cases a <;> simp_all [Act.Still, Act.posts, framesTo]
  cases hdoes with
  | quiet | refuse | park | serve | finish | drain | wake | release => exact hsame rfl rfl
  | kill c hlive =>
      by_cases hremote : ((net.mgr r).conn c).remoteId = p.id (!r)
      · have hmove := Move.drop (L := L) r
        refine ⟨_, hsim.does (.kill c hlive) (hsim.link.move hmove) ?_ ?_ ?_ rfl⟩
        · constructor
          · exact hside.next
          · dsimp only
            rw [update_self, hremote, JsMap.get_delete_self]
          all_goals simp [Act.sends, Act.enqueues]
        · constructor <;> simp
        · simp [Act.posts, framesTo]
      · refine hsame rfl ?_
        dsimp only
        rw [JsMap.get_delete_of_ne _ (Ne.symm hremote)]
  | _ => exact hstill.elim

theorem Sim.stills (hsim : Sim p net L) (hacts : Acts (p.options r) (net.mgr r) as t)
    (hstill : ∀ a ∈ as, a.Still) : ∃ M, Sim p (net.after r t) M := by
  induction as generalizing net L with
  | nil =>
      cases hacts
      rw [after_self]
      exact ⟨L, hsim⟩
  | cons a as ih =>
      cases hacts with
      | cons hdoes hrest =>
          rename_i u
          obtain ⟨M, hmid⟩ := hsim.still hdoes (hstill a List.mem_cons_self)
          rw [← after_after net hdoes.posts_mono hrest.posts_mono]
          refine ih hmid ?_ fun a' ha' => hstill a' (List.mem_cons_of_mem _ ha')
          rwa [Net.after_mgr, update_self]

theorem Acts.still_frame {o : Options} (h : Acts o s as t) (hstill : ∀ a ∈ as, a.Still) :
    t.created = s.created ∧ t.posts = s.posts := by
  induction h with
  | nil => exact ⟨rfl, rfl⟩
  | cons hdoes _ ih =>
      rename_i a as _
      obtain ⟨hcreated, hposts⟩ := ih fun a' ha' => hstill a' (List.mem_cons_of_mem _ ha')
      have ha := hstill a List.mem_cons_self
      rw [hcreated, hposts]
      cases hdoes with
      | quiet | refuse | park | serve | finish | kill | drain | wake | release => exact ⟨rfl, rfl⟩
      | _ => exact ha.elim

/-- The acts that post a frame on a connection that is there. -/
def Act.Speaks (c : ConnId) : Act → Prop
  | .accept c' _ | .send c' _ | .hangUp c' => c' = c
  | _ => False

/-- Nothing of a connection the side has heard of is on its way as a `connect`. -/
theorem Sim.known (hsim : Sim p net L) (hheard : Heard p net r (net.wire r)) {y : ConnId}
    (hcur : L.cur (!r) = some y) : (y, .connect) ∉ L.flight r := by
  intro hmem
  rw [hsim.flight, framesTo, List.mem_filterMap] at hmem
  obtain ⟨post, hpost, hframe⟩ := hmem
  have hget := (hsim.side (!r)).cur
  rw [hcur, Bool.not_not] at hget
  unfold Post.frame? at hframe
  split at hframe
  · rw [Option.map_eq_some_iff] at hframe
    obtain ⟨frame, hkind, heq⟩ := hframe
    rw [Prod.mk.injEq] at heq
    refine hheard y hget.symm post hpost heq.1 ?_
    rw [heq.2] at hkind
    cases hpostKind : post.message.kind <;> simp_all [frameOf]
  · cases hframe

theorem Sim.speaks (hsim : Sim p net L) (hdoes : Does (p.options r) (net.mgr r) a t) (hspeaks : a.Speaks c)
    (hheard : ((net.mgr r).conn c).remoteId = p.id (!r) → Heard p net r (net.wire r)) :
    ∃ M, Sim p (net.after r t) M := by
  have hside := hsim.side r
  have hlive : (net.mgr r).Live c := by
    cases hdoes with
    | accept c' done hlive | send c' bytes hlive | hangUp c' hlive => exact hspeaks ▸ hlive
    | _ => exact hspeaks.elim
  have hcreated : t.created = (net.mgr r).created ∧ t.byRemote = (net.mgr r).byRemote := by
    cases hdoes with
    | accept | send | hangUp => exact ⟨rfl, rfl⟩
    | _ => exact hspeaks.elim
  by_cases hremote : ((net.mgr r).conn c).remoteId = p.id (!r)
  · have hcur := hside.cur_of_live hlive hremote
    have hknown : ∀ y, L.cur (!r) = some y → (y, .connect) ∉ L.flight r :=
      fun y => hsim.known (hheard hremote)
    obtain ⟨frame, hframe, hposts, hbytes, haccepted⟩ : ∃ frame : Frame UInt8, frame ≠ .connect ∧
        framesTo (p.id (!r)) (a.posts (p.options r) (net.mgr r)) = [(c, frame)] ∧
        a.sends c = frame.bytes ∧ (frame.isAccepted = true → ∃ done, a = .accept c done) := by
      cases a with
      | accept c' done =>
          obtain rfl : c' = c := hspeaks
          exact ⟨.accepted, by simp, by simp [Act.posts, framesTo, Post.frame?, hremote, frameOf], rfl,
            fun _ => ⟨done, rfl⟩⟩
      | send c' bytes =>
          obtain rfl : c' = c := hspeaks
          exact ⟨.data bytes, by simp, by simp [Act.posts, framesTo, Post.frame?, hremote, frameOf],
            if_pos rfl, by simp [Frame.isAccepted]⟩
      | hangUp c' =>
          obtain rfl : c' = c := hspeaks
          exact ⟨.close, by simp, by simp [Act.posts, framesTo, Post.frame?, hremote, frameOf], rfl,
            by simp [Frame.isAccepted]⟩
      | _ => exact hspeaks.elim
    have hmove := Move.post r c frame hcur hframe hknown
    refine ⟨_, hsim.does hdoes (hsim.link.move hmove) ?_ ?_ ?_ rfl⟩
    · constructor
      · rw [hcreated.1, hside.next]
      · rw [hcreated.2, hside.cur]
      · intro c'
        by_cases hc : c' = c
        · subst hc
          simp [hcur, hbytes]
        · simp [hc, hcur, Ne.symm hc]
      · cases a <;> simp_all [Act.Speaks, Act.enqueues]
      · intro c'
        by_cases hc : c' = c
        · subst hc
          simpa using Or.imp_right haccepted
        · simpa [hc] using fun h => Or.inl h
      · cases a <;> simp_all [Act.Speaks]
      · exact fun _ _ => rfl
      · cases a <;> simp_all [Act.Speaks]
    · constructor <;> simp
    · rw [hposts]
  · have hquiet : framesTo (p.id (!r)) (a.posts (p.options r) (net.mgr r)) = [] := by
      cases a <;> simp_all [Act.Speaks, Act.posts, framesTo, Post.frame?]
    refine ⟨L, hsim.does hdoes hsim.link ?_ ⟨rfl, rfl, rfl, rfl, rfl, rfl, rfl⟩ ?_ rfl⟩
    · constructor
      · rw [hcreated.1, hside.next]
      · rw [hcreated.2, hside.cur]
      · intro c'
        split
        · rename_i hc'
          have hne : c ≠ c' := by
            rintro rfl
            exact hremote (hside.live_of_cur hc').2
          cases a <;> simp_all [Act.Speaks, Act.sends]
        · rw [List.append_nil]
      all_goals cases a <;> simp_all [Act.Speaks, Act.enqueues]
    · rw [hquiet, List.append_nil, update_eq_self]

theorem Sim.outgoing (hsim : Sim p net L) {remoteId : String} {done : Callback}
    (hdoes : Does (p.options r) (net.mgr r) (.outgoing c remoteId done) t)
    (hquiet : remoteId = p.id (!r) → ∀ post ∈ net.wire r, post.message.receiver ≠ p.id r) :
    ∃ M, Sim p (net.after r t) M := by
  obtain rfl : c = (net.mgr r).created := by
    cases hdoes
    rfl
  have hside := hsim.side r
  have hfresh : L.origin r (net.mgr r).created = none := by
    rw [Option.eq_none_iff_forall_ne_some]
    intro y hy
    have hlt := (hsim.link.ids.origin_lt r _ y hy).1
    rw [hside.next] at hlt
    exact Nat.lt_irrefl _ hlt
  have hcreated : t.created = (net.mgr r).created + 1 ∧
      t.byRemote = (net.mgr r).byRemote.set remoteId (net.mgr r).created ∧
      (net.mgr r).byRemote.get remoteId = none := by
    cases hdoes with
    | outgoing fd _ done hfd hfree hnew => exact ⟨rfl, rfl, hnew⟩
  by_cases hremote : remoteId = p.id (!r)
  · have hcur : L.cur r = none := by rw [hside.cur, ← hremote, hcreated.2.2]
    have hflight : L.flight r = [] := by
      rw [hsim.flight, framesTo, List.filterMap_eq_nil_iff]
      intro post hpost
      exact if_neg (hquiet hremote post hpost)
    have hmove := Move.connect r hcur hflight
    refine ⟨_, hsim.does hdoes (hsim.link.move hmove) ?_ ?_ ?_ rfl⟩
    · constructor
      · simp [hcreated.1, hside.next]
      · simp [hcreated.2.1, hremote, hside.next]
      · simp [Act.sends]
      · simp [Act.enqueues]
      · exact fun _ => .inl
      · simp
      · exact fun _ _ => rfl
      · exact fun _ _ _ => hfresh
    · constructor <;> simp
    · simp [Act.posts, framesTo, Post.frame?, hremote, frameOf, hside.next]
  · have hmove := Move.other (L := L) r
    refine ⟨_, hsim.does hdoes (hsim.link.move hmove) ?_ ?_ ?_ rfl⟩
    · constructor
      · simp [hcreated.1, hside.next]
      · rw [hcreated.2.1, JsMap.get_set_of_ne _ (Ne.symm hremote)]
        exact hside.cur
      · simp [Act.sends]
      · simp [Act.enqueues]
      · exact fun _ => .inl
      · simp
      · exact fun _ _ => rfl
      · exact fun _ _ _ => hfresh
    · constructor <;> simp
    · simp [Act.posts, framesTo, Post.frame?, hremote]

/-! ### What arrives -/

section Arrival

variable (hsim : Sim p net L) (hwire : net.wire r = post :: rest)

include hsim hwire

theorem Sim.flight_cons {entry : Nat × Frame UInt8} (hframe : post.frame? (p.id r) = some entry) :
    L.flight r = entry :: framesTo (p.id r) rest := by
  rw [hsim.flight, hwire, framesTo_cons, hframe]
  rfl

omit hsim in
theorem pop_wire : (net.pop r).wire = update net.wire r rest := by
  rw [Net.pop, hwire]
  rfl

omit hsim hwire in
theorem pop_mgr : (net.pop r).mgr = update net.mgr r (net.mgr r) := by
  rw [update_eq_self]
  rfl

/-- A frame that is not for this manager, or is of no known type. -/
theorem Sim.ignore (hframe : post.frame? (p.id r) = none) : Sim p (net.pop r) L := by
  refine hsim.takes hwire hsim.link (hsim.side r) ⟨rfl, rfl, rfl, rfl, rfl, rfl, rfl⟩ pop_mgr
    (pop_wire hwire) ?_ hsim.origin
  have hflight := hsim.flight r
  rw [hwire, framesTo_cons, hframe, Option.toList_none, List.nil_append] at hflight
  rw [← hflight, update_eq_self]

theorem Sim.refuse (hframe : post.frame? (p.id r) = some (post.conn, .connect))
    (hnone : (net.mgr r).byRemote.get (p.id (!r)) = none) : ∃ M, Sim p (net.pop r) M := by
  have hside := hsim.side r
  have hmove := Move.refuse r _ _ (hsim.flight_cons hwire hframe) (hside.cur.trans hnone)
  exact ⟨_, hsim.takes hwire (hsim.link.move hmove) (hside.agree ⟨rfl, rfl, rfl, rfl, rfl, rfl, rfl⟩)
    ⟨rfl, rfl, rfl, rfl, rfl, rfl, rfl⟩ pop_mgr (pop_wire hwire) rfl hsim.origin⟩

theorem Sim.admitted (hframe : post.frame? (p.id r) = some (post.conn, .connect))
    (hdoes : Does (p.options r) (net.mgr r) (.incoming c (p.id (!r))) t) :
    ∃ M, Sim p (((net.pop r).setOrigin r c post.conn).after r t) M := by
  obtain rfl : c = (net.mgr r).created := by
    cases hdoes
    rfl
  have hside := hsim.side r
  have hcreated : t.created = (net.mgr r).created + 1 ∧
      t.byRemote = (net.mgr r).byRemote.set (p.id (!r)) (net.mgr r).created ∧
      (net.mgr r).byRemote.get (p.id (!r)) = none ∧ t.posts = (net.mgr r).posts := by
    cases hdoes with
    | incoming fd _ hfd hfree hnew => exact ⟨rfl, rfl, hnew, rfl⟩
  have hmove := Move.admitted r _ _ (hsim.flight_cons hwire hframe) (hside.cur.trans hcreated.2.2.1)
  refine ⟨_, hsim.takes hwire (t := t) (hsim.link.move hmove) ?_ ?_ rfl ?_ rfl ?_⟩
  · refine hside.does hsim.link.ids hdoes ?_
    constructor
    · simp [hcreated.1, hside.next]
    · simp [hcreated.2.1, hside.next]
    · simp [Act.sends]
    · simp [Act.enqueues]
    · exact fun _ => .inl
    · simp
    · intro c hc
      dsimp only
      rw [update_self, hside.next, update_of_ne (Nat.ne_of_lt hc)]
    · simp
  · constructor <;> simp
  · simp [Net.after, Net.setOrigin, Net.pop, hcreated.2.2.2, hwire]
  · simp [Net.after, Net.setOrigin, Net.pop, hside.next, hsim.origin]

/-- A frame by which its connection gets nothing. -/
theorem Sim.hear {frame : Frame UInt8} (hframe : post.frame? (p.id r) = some (post.conn, frame))
    (hconnect : frame ≠ .connect) (hbytes : (net.mgr r).byRemote.get (p.id (!r)) = none ∨ frame.bytes = []) :
    ∃ M, Sim p (net.pop r) M ∧ ∀ c, (net.mgr r).byRemote.get (p.id (!r)) = some c →
      frame.isAccepted = true → M.answered r c = true := by
  have hside := hsim.side r
  have hmove := Move.deliver r _ frame _ (hsim.flight_cons hwire hframe) hconnect
  have hgot : L.take r L.got (· ++ frame.bytes) = L.got := by
    funext s c
    rw [Link.take]
    split
    · rename_i hc
      rcases hbytes with hnone | hnil
      · rw [hc.1, hside.cur, hnone] at hc
        exact absurd hc.2 (by simp)
      · rw [hnil, List.append_nil]
    · rfl
  rw [hgot] at hmove
  refine ⟨_, hsim.takes hwire (hsim.link.move hmove) (t := net.mgr r) ?_ ?_ pop_mgr (pop_wire hwire) rfl
    hsim.origin, ?_⟩
  · obtain ⟨hinv, hnext, hcur, hsent, hsentEq, hunsent, hgot, hgotEq, haccepted, hwaiting, hconnected⟩ := hside
    refine ⟨hinv, hnext, hcur, hsent, hsentEq, hunsent, hgot, hgotEq, haccepted, hwaiting, ?_⟩
    intro c hc
    obtain ⟨hlt, hanswered, horigin⟩ := hconnected c hc
    refine ⟨hlt, ?_, horigin⟩
    simp [Link.take, hanswered]
  · constructor <;> simp
  · intro c hc haccepted
    rw [← hside.cur] at hc
    simp [Link.take, hc, haccepted]

/-- A `data` frame. -/
theorem Sim.gets {bytes : Bytes} (hframe : post.frame? (p.id r) = some (post.conn, .data bytes))
    (hdoes : Does (p.options r) (net.mgr r) (.enqueue c bytes) t)
    (hcur : (net.mgr r).byRemote.get (p.id (!r)) = some c) : ∃ M, Sim p ((net.pop r).after r t) M := by
  have hside := hsim.side r
  have hmove := Move.deliver r _ _ _ (hsim.flight_cons hwire hframe) (by simp)
  have hmaps : t.created = (net.mgr r).created ∧ t.byRemote = (net.mgr r).byRemote ∧
      t.posts = (net.mgr r).posts := by
    cases hdoes with
    | enqueue => exact ⟨rfl, rfl, rfl⟩
  rw [← hside.cur] at hcur
  refine ⟨_, hsim.takes hwire (t := t) (hsim.link.move hmove) ?_ ?_ rfl ?_ rfl hsim.origin⟩
  · refine hside.does hsim.link.ids hdoes ?_
    constructor
    · rw [hmaps.1]
      exact hside.next
    · rw [hmaps.2.1]
      exact hside.cur
    · simp [Act.sends]
    · intro c'
      by_cases hc : c = c'
      · simp [Link.take, hcur, hc, Act.enqueues, Frame.bytes]
      · simp [Link.take, hcur, hc, Act.enqueues]
    · exact fun _ => .inl
    · intro c' hc'
      simp only [reduceCtorEq, or_false] at hc'
      simp [Link.take, hc']
    · exact fun _ _ => rfl
    · simp
  · constructor <;> simp
  · simp [Net.after, Net.pop, hmaps.2.2, hwire]

end Arrival

theorem Sim.told (hsim : Sim p net L) (hdoes : Does (p.options r) (net.mgr r) (.connected c) t)
    (hanswered : L.answered r c = true) : Sim p (net.after r t) L := by
  have hside := hsim.side r
  have hmaps : t.created = (net.mgr r).created ∧ t.byRemote = (net.mgr r).byRemote := by
    cases hdoes with
    | connected => exact ⟨rfl, rfl⟩
  refine hsim.does hdoes hsim.link ?_ ⟨rfl, rfl, rfl, rfl, rfl, rfl, rfl⟩ (by simp [Act.posts, framesTo]) rfl
  constructor
  · rw [hmaps.1, hside.next]
  · rw [hmaps.2, hside.cur]
  · simp [Act.sends]
  · simp [Act.enqueues]
  · exact fun _ => .inl
  · rintro c' (hc' | hc')
    · exact hc'
    · cases hc'
      exact hanswered
  · exact fun _ _ => rfl
  · simp

end LlmRuntime.PeerManager

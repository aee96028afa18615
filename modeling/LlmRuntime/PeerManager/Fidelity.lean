import LlmRuntime.PeerManager.Simulation

/-!
# Frames stay with their connection

Along a run whose steps are all `Orderly` the two managers are a `Link`, and what the link keeps gives
`Faithful`.
-/

namespace LlmRuntime.PeerManager

open Function Link Transition

variable {p : Pair} {r : Bool} {s t u : Manager} {L M : Link UInt8} {a : Act} {as : List Act} {c : ConnId}
  {net net' : Net} {post : Post} {rest : List Post}

theorem still_kills (s : Manager) (remoteId : String) : ∀ a ∈ Act.quiet :: s.kills remoteId, a.Still := by
  simp [Manager.kills, Act.Still]

theorem newFd_ne_none {o : Options} {fd : Nat} (hfd : fd < o.fdMax) (hfree : s.conns.get fd = none) :
    (s.newFd o).1 ≠ none := by
  intro hnone
  have hhas := (newFd_eq_none hnone).1 fd hfd
  simp [JsMap.has, hfree] at hhas

theorem leads_of_live (hlive : (net.mgr r).Live c) (hremote : ((net.mgr r).conn c).remoteId = p.id (!r)) :
    Leads p net r c :=
  ⟨hlive.2, hremote⟩

/-- An operation of the Runtime on side `r`. -/
theorem Sim.op (hsim : Sim p net L) (e : Event) (he : ∀ m, e ≠ .message m)
    (horderly : Orderly p net (.op r e)) :
    ∃ M, Sim p (net.after r ((net.mgr r).step (p.options r) e)) M := by
  have hinv := (hsim.side r).inv
  obtain ⟨as, hmoves, hacts⟩ := step_moves hinv e
  generalize (net.mgr r).step (p.options r) e = t at hacts
  cases hmoves with
  | ignored | incomingFull | incoming | incomingAccepted | dropped | accepted | data | closed | unknown =>
      exact absurd rfl (he _)
  | connect fd remoteId done hfd hfree =>
      rw [← List.cons_append] at hacts
      obtain ⟨u, hkills, hopen⟩ := hacts.split
      obtain ⟨M, hmid⟩ := hsim.stills hkills (still_kills _ _)
      rw [← after_after net hkills.posts_mono hopen.posts_mono]
      have hdoes := hopen.does
      rw [← update_self r u net.mgr, ← Net.after_mgr] at hdoes
      apply hmid.outgoing hdoes
      intro hremote
      rw [Net.after_wire, update_of_ne (Bool.self_ne_not r)]
      exact horderly hremote (newFd_ne_none hfd hfree)
  | accept c done rest hready hlive =>
      refine hsim.speaks hacts.does rfl fun hremote => ?_
      exact horderly _ (by simp [hready]) c (hinv.get_of_live c hlive) (leads_of_live hlive hremote)
  | send c data hlive hdata =>
      refine hsim.speaks hacts.does rfl fun hremote => ?_
      exact horderly hdata c (hinv.get_of_live c hlive) (leads_of_live hlive hremote)
  | closeLive c hlive =>
      have hacts : Acts (p.options r) (net.mgr r) ([.hangUp c] ++ [.kill c, .release c]) t := hacts
      obtain ⟨u, hhangUp, hrest⟩ := hacts.split
      obtain ⟨M, hmid⟩ := hsim.speaks hhangUp.does rfl fun hremote =>
        horderly c (hinv.get_of_live c hlive) (leads_of_live hlive hremote)
      rw [← after_after net hhangUp.posts_mono hrest.posts_mono]
      rw [← update_self r u net.mgr] at hrest
      exact hmid.stills hrest (by simp [Act.Still])
  | close cs hlive =>
      refine hsim.stills hacts fun a ha => ?_
      rw [List.mem_append, List.mem_map, List.mem_singleton] at ha
      rcases ha with ⟨c, -, rfl⟩ | rfl
      · trivial
      · trivial
  | _ => exact hsim.stills hacts (by simp [Act.Still])

theorem frame?_of (hreceiver : post.message.receiver = p.id r) {frame : Frame UInt8}
    (hkind : frameOf post.message.kind = some frame) : post.frame? (p.id r) = some (post.conn, frame) := by
  rw [Post.frame?, if_pos hreceiver, hkind]
  rfl

theorem after_setOrigin (net : Net) (r : Bool) (w y : ConnId) (t : Manager) :
    (net.after r t).setOrigin r w y = (net.setOrigin r w y).after r t := rfl

/-- The `connect` frame at the head of the wire, when it makes an object. -/
theorem Sim.arrive (hsim : Sim p net L) (hwire : net.wire r = post :: rest)
    (hframe : post.frame? (p.id r) = some (post.conn, .connect))
    (hacts : Acts (p.options r) (net.mgr r)
      (.quiet :: ((net.mgr r).kills (p.id (!r)) ++ [.incoming (net.mgr r).created (p.id (!r))])) t) :
    (net.mgr r).created < t.created ∧ t.posts = (net.mgr r).posts ∧
      ∃ M, Sim p (((net.pop r).setOrigin r (net.mgr r).created post.conn).after r t) M := by
  rw [← List.cons_append] at hacts
  obtain ⟨u, hkills, hopen⟩ := hacts.split
  obtain ⟨hcreated, hposts⟩ := hkills.still_frame (still_kills _ _)
  obtain ⟨M, hmid⟩ := hsim.stills hkills (still_kills _ _)
  have hdoes := hopen.does
  have hmgr : (net.after r u).mgr r = u := by rw [Net.after_mgr, update_self]
  have hwire' : (net.after r u).wire r = post :: rest := by
    rw [Net.after_wire, update_of_ne (Bool.self_ne_not r), hwire]
  rw [← hmgr] at hdoes
  obtain ⟨M', hend⟩ := hmid.admitted hwire' hframe hdoes
  rw [hmgr] at hdoes
  refine ⟨?_, ?_, M', ?_⟩
  · generalize (net.mgr r).created = c at hdoes hcreated
    cases hdoes
    exact hcreated ▸ Nat.lt_succ_self _
  · rw [hdoes.posts, hposts]
    exact List.append_nil _
  · rwa [after_pop, after_setOrigin,
      after_after ((net.pop r).setOrigin r _ _) hkills.posts_mono hopen.posts_mono] at hend

theorem heard_tail {w y : ConnId} (hheard : Heard p net r (net.wire r).tail) (t : Manager) :
    Heard p (((net.pop r).setOrigin r w y).after r t) r
      ((((net.pop r).setOrigin r w y).after r t).wire r) := by
  have hmgr : (((net.pop r).setOrigin r w y).after r t).mgr (!r) = net.mgr (!r) := by
    simp [Net.after, Net.setOrigin, Net.pop]
  have hrest : (((net.pop r).setOrigin r w y).after r t).wire r = (net.wire r).tail := by
    simp [Net.after, Net.setOrigin, Net.pop]
  rw [Heard, hmgr, hrest]
  exact hheard

/-- The same when a waiting `accept()` gets the connection at once. -/
theorem Sim.arrive_accepted (hsim : Sim p net L) (hwire : net.wire r = post :: rest)
    (hframe : post.frame? (p.id r) = some (post.conn, .connect)) (hheard : Heard p net r (net.wire r).tail)
    {waiter : Callback}
    (hacts : Acts (p.options r) (net.mgr r)
      (.quiet :: ((net.mgr r).kills (p.id (!r)) ++ [.incoming (net.mgr r).created (p.id (!r))] ++
        [.serve waiter, .accept (net.mgr r).created waiter])) t) :
    (net.mgr r).created < t.created ∧
      ∃ M, Sim p (((net.pop r).setOrigin r (net.mgr r).created post.conn).after r t) M := by
  rw [← List.cons_append] at hacts
  obtain ⟨u, hopen, haccept⟩ := hacts.split
  obtain ⟨hcreated, hposts, M, hmid⟩ := hsim.arrive hwire hframe hopen
  have haccept : Acts (p.options r) u ([.serve waiter] ++ [.accept (net.mgr r).created waiter]) t := haccept
  obtain ⟨v, hquiet, haccept⟩ := haccept.split
  refine ⟨?_, ?_⟩
  · have hstatic := haccept.does.static.1
    rw [(hquiet.still_frame (by simp [Act.Still])).1] at hstatic
    exact Nat.lt_of_lt_of_le hcreated hstatic
  · rw [← update_self r u net.mgr] at hquiet
    obtain ⟨M', hmid'⟩ := hmid.stills hquiet (by simp [Act.Still])
    rw [update_self] at hquiet
    rw [after_after ((net.pop r).setOrigin r _ _) hopen.posts_mono hquiet.posts_mono] at hmid'
    have hdoes := haccept.does
    rw [← update_self r v net.mgr] at hdoes
    obtain ⟨N, hend⟩ := hmid'.speaks hdoes rfl fun _ => heard_tail hheard v
    rw [after_after ((net.pop r).setOrigin r _ _) (hopen.posts_mono.trans hquiet.posts_mono) haccept.posts_mono] at hend
    exact ⟨N, hend⟩

theorem Sim.deliver (hsim : Sim p net L) (horderly : Orderly p net (.deliver r))
    (hdeliver : net.deliver p r = some net') : ∃ M, Sim p net' M := by
  have hside := hsim.side r
  have hinv := hside.inv
  unfold Net.deliver at hdeliver
  cases hwire : net.wire r with
  | nil => simp [hwire] at hdeliver
  | cons post rest =>
      have hsender := hsim.sender r post (by rw [hwire]; exact List.mem_cons_self)
      have horderly : post.message.receiver = p.id r → post.message.kind = .connect →
          if ((net.mgr r).newFd (p.options r)).1 = none then (net.mgr r).byRemote.get (p.id (!r)) = none
          else (net.mgr r).acceptWaiters ≠ [] → Heard p net r (net.wire r).tail :=
        horderly post (by simp [hwire])
      obtain ⟨as, hmoves, hacts⟩ := onMessage_moves hinv post.message
      simp only [hwire] at hdeliver
      generalize (net.mgr r).onMessage (p.options r) post.message = t at hacts hdeliver
      have hstay (h : ¬ (post.message.kind = .connect ∧ (net.mgr r).created < t.created)) :
          net' = (net.pop r).after r t := by
        rw [if_neg h] at hdeliver
        exact (Option.some.inj hdeliver).symm
      have hopens (hkind : post.message.kind = .connect) (h : (net.mgr r).created < t.created) :
          net' = ((net.pop r).setOrigin r (net.mgr r).created post.conn).after r t := by
        rw [if_pos ⟨hkind, h⟩] at hdeliver
        exact (Option.some.inj hdeliver).symm
      obtain ⟨conn, m⟩ := post
      dsimp only at *
      cases hmoves with
      | ignored _ hreceiver =>
          rw [hstay fun h => absurd (hacts.still_frame (by simp)).1 (Nat.ne_of_gt h.2)]
          exact (hsim.ignore hwire (if_neg hreceiver)).stills hacts (by simp)
      | incomingFull sender hfull =>
          have hrefused := horderly rfl rfl
          rw [if_pos (newFd_none_of_full hfull)] at hrefused
          rw [hstay fun h => absurd (hacts.still_frame (by simp [Act.Still])).1 (Nat.ne_of_gt h.2)]
          obtain ⟨M, hmid⟩ := hsim.refuse hwire (frame?_of rfl rfl) hrefused
          exact hmid.stills hacts (by simp [Act.Still])
      | incoming fd sender hfd hfree hwaiters =>
          obtain rfl : sender = p.id (!r) := hsender
          obtain ⟨hcreated, -, hend⟩ := hsim.arrive hwire (frame?_of rfl rfl) hacts
          rwa [hopens rfl hcreated]
      | incomingAccepted fd sender hfd hfree waiter rest hwaiters =>
          obtain rfl : sender = p.id (!r) := hsender
          have hheard := horderly rfl rfl
          rw [if_neg (newFd_ne_none hfd hfree)] at hheard
          obtain ⟨hcreated, hend⟩ := hsim.arrive_accepted hwire (frame?_of rfl rfl)
            (hheard (by simp [hwaiters])) hacts
          rwa [hopens rfl hcreated]
      | dropped sender kind hkind h =>
          obtain rfl : sender = p.id (!r) := hsender
          rw [hstay fun h => hkind h.1]
          have hbytes : ∀ frame, frameOf kind = some frame →
              (net.mgr r).byRemote.get (p.id (!r)) = none ∨ frame.bytes = [] := by
            intro frame hframe
            refine h.imp_right fun h => ?_
            rcases h with ⟨rfl, -⟩ | rfl <;> cases hframe <;> rfl
          cases hframe : frameOf kind with
          | none =>
              refine (hsim.ignore hwire ?_).stills hacts (by simp)
              simp [Post.frame?, hframe]
          | some frame =>
              obtain ⟨M, hmid, -⟩ := hsim.hear hwire (frame?_of rfl hframe) (by
                rintro rfl
                cases kind <;> simp_all [frameOf]) (hbytes frame hframe)
              exact hmid.stills hacts (by simp)
      | accepted c sender h =>
          obtain rfl : sender = p.id (!r) := hsender
          rw [hstay (by simp)]
          obtain ⟨M, hmid, hanswered⟩ := hsim.hear hwire (frame?_of rfl rfl) (by simp) (.inr rfl)
          exact ⟨M, hmid.told hacts.does (hanswered c h rfl)⟩
      | data c sender bytes as h hbytes has =>
          obtain rfl : sender = p.id (!r) := hsender
          rw [hstay (by simp)]
          have hacts : Acts (p.options r) (net.mgr r) ([.enqueue c bytes] ++ as) t := hacts
          obtain ⟨u, henqueue, hrest⟩ := hacts.split
          obtain ⟨M, hmid⟩ := hsim.gets hwire (frame?_of rfl rfl) henqueue.does h
          rw [← after_after (net.pop r) henqueue.posts_mono hrest.posts_mono]
          rw [← update_self r u net.mgr] at hrest
          refine hmid.stills hrest fun a ha => ?_
          cases has <;> revert a <;> simp [Act.Still]
      | closed c sender h =>
          obtain rfl : sender = p.id (!r) := hsender
          rw [hstay (by simp)]
          obtain ⟨M, hmid, -⟩ := hsim.hear hwire (frame?_of rfl rfl) (by simp) (.inr rfl)
          exact hmid.stills hacts (by simp [Act.Still])
      | unknown sender kind =>
          rw [hstay (by simp)]
          exact (hsim.ignore hwire (by simp [Post.frame?, frameOf])).stills hacts (by simp [Act.Still])

theorem Sim.step {e : NetEvent} (hsim : Sim p net L) (horderly : Orderly p net e)
    (hstep : (network p).step net e = some net') : ∃ M, Sim p net' M := by
  cases e with
  | deliver r => exact hsim.deliver horderly hstep
  | op r event =>
      have hop : (∀ m, event ≠ .message m) → net' = net.after r ((net.mgr r).step (p.options r) event) := by
        intro hevent
        cases event with
        | message m => exact absurd rfl (hevent m)
        | _ => exact (Option.some.inj hstep).symm
      have hevent : ∀ m, event ≠ .message m := by
        rintro m rfl
        cases hstep
      rw [hop hevent]
      exact hsim.op event hevent horderly

/-! ### What the link says about the managers -/

theorem Sim.partner (hsim : Sim p net L) {x y : ConnId} : L.Partner r x y ↔ net.Partner r x y := by
  rw [Link.Partner, Net.Partner, hsim.origin]

/-- Everything but a `connect` frame concerns at most the connection that `byRemote` has. -/
theorem onMessage_conn {o : Options} (hinv : Inv o s) {m : Message} (hkind : m.kind ≠ .connect)
    (hne : (s.onMessage o m).conn c ≠ s.conn c) :
    m.receiver = o.nodeId ∧ s.byRemote.get m.sender = some c ∧ ∃ frame, frameOf m.kind = some frame := by
  obtain ⟨as, hmoves, hacts⟩ := onMessage_moves hinv m
  generalize s.onMessage o m = t at hacts hne
  have hframe : ∀ {s t as}, (∀ a ∈ as, a.conn? ≠ some c) → Acts o s as t → t.conn c = s.conn c := by
    intro s t as has hacts
    induction hacts with
    | nil => rfl
    | cons hdoes _ ih =>
        rw [ih fun a ha => has a (List.mem_cons_of_mem _ ha), hdoes.conn_of_ne (has _ List.mem_cons_self)]
  cases hmoves with
  | ignored | dropped | unknown => exact absurd (hframe (by simp [Act.conn?]) hacts) hne
  | incomingFull | incoming | incomingAccepted => exact absurd rfl hkind
  | accepted c' sender h | closed c' sender h =>
      by_cases hc : c' = c
      · subst hc
        exact ⟨rfl, h, _, rfl⟩
      · exact absurd (hframe (by simp [Act.conn?, hc]) hacts) hne
  | data c' sender bytes as h hbytes has =>
      by_cases hc : c' = c
      · subst hc
        exact ⟨rfl, h, _, rfl⟩
      · refine absurd (hframe ?_ hacts) hne
        cases has <;> simp [Act.conn?, hc]

theorem Sim.faithful (hsim : Sim p net L) : Faithful p net := by
  have harrived := hsim.link.arrived
  constructor
  · intro r post rest hwire hkind c hne
    have hside := hsim.side r
    obtain ⟨hreceiver, hget, frame, hframe⟩ := onMessage_conn hside.inv hkind hne
    rw [hsim.sender r post (by rw [hwire]; exact List.mem_cons_self), ← hside.cur] at hget
    have hflight := hsim.flight_cons hwire (frame?_of hreceiver hframe)
    refine hsim.partner.mp (partner_of_arrival hsim.link.order hflight ?_ hget)
    rintro rfl
    cases hkind' : post.message.kind <;> simp_all [frameOf]
  · intro r c hc
    obtain ⟨-, hanswered, horigin⟩ := (hsim.side r).connected c hc
    obtain ⟨y, hpartner, haccepted⟩ := harrived.answered r c hanswered
    rcases hpartner with hpartner | hpartner
    · rw [horigin] at hpartner
      cases hpartner
    · rw [hsim.origin] at hpartner
      exact ⟨y, hpartner, (hsim.side (!r)).accepted y haccepted⟩
  · intro r x y hpartner
    have hgot := harrived.got_prefix r x y (hsim.partner.mpr hpartner)
    exact ((hsim.side r).got x).trans (hgot.trans ((hsim.side (!r)).sent y))
  · intro r x hnone
    have hgot := harrived.got_nil r x fun y hy => hnone y (hsim.partner.mp hy)
    exact List.prefix_nil.mp (hgot ▸ (hsim.side r).got x)

/-- **Frames stay with their connection** along every run whose steps are orderly. -/
theorem frames_stay (p : Pair) (es : List NetEvent) (net : Net)
    (horderly : (network p).Along (Orderly p) .initial es)
    (hrun : (network p).run .initial es = some net) : Faithful p net := by
  obtain ⟨L, hsim⟩ := run_keeps_along (P := fun net => ∃ L, Sim p net L)
    (fun net e net' ⟨L, hsim⟩ horderly hstep => hsim.step horderly hstep) ⟨_, .initial⟩ horderly hrun
  exact hsim.faithful

/-- Side `a` closes when it has heard all that is coming, and connects again. -/
def reconnected : List NetEvent :=
  [.op false (.connect "b" 0), .deliver true, .op true (.accept 0), .deliver false,
    .op true (.send 0 [1, 2, 3] none), .deliver false, .op false (.recv 0 2 0),
    .op false (.closeConnection 0), .op false (.connect "b" 1), .deliver true, .deliver true,
    .op true (.accept 1), .deliver false]

theorem frames_stay_reconnected : ∃ net, (network pair).run .initial reconnected = some net ∧
    Faithful pair net := by
  obtain ⟨net, hrun⟩ : ∃ net, (network pair).run .initial reconnected = some net :=
    Option.isSome_iff_exists.mp (by decide)
  exact ⟨net, hrun, frames_stay pair reconnected net (by decide) hrun⟩

end LlmRuntime.PeerManager

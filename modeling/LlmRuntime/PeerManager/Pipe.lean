import LlmRuntime.PeerManager.Fidelity

/-!
# A connection as a pipe

While both ends of a connection are open, what the one has sent is what the other has yielded, what waits
there and what is on the way. So nothing is lost: once the frames on the way have arrived, one `recv()`
that asks for enough makes the bytes that came out all the bytes that went in.
-/

namespace LlmRuntime.PeerManager

open Function Link Transition

/-- The bytes of connection `y` of the other side that are on their way to side `r`. -/
def onWire (p : Pair) (net : Net) (r : Bool) (y : ConnId) : Bytes :=
  ((net.wire r).filter (·.message.receiver = p.id r)).flatMap (Post.bytesOn y)

/-- Connection `x` of side `r` and connection `y` of the other side are partners, and both are open. -/
structure Joined (p : Pair) (net : Net) (r : Bool) (x y : ConnId) : Prop where
  partner : net.Partner r x y
  near : (net.mgr r).Live x
  near_leads : Leads p net r x
  far : (net.mgr (!r)).Live y
  far_leads : Leads p net (!r) y

/-- A frame that neither opens a connection nor ends one. -/
def Post.Calm (post : Post) : Prop := post.message.kind ≠ .connect ∧ post.message.kind ≠ .close

instance (post : Post) : Decidable post.Calm := inferInstanceAs (Decidable (_ ∧ _))

variable {p : Pair} {r : Bool} {o : Options} {s t : Manager} {a : Act} {as : List Act} {c x y : ConnId}
  {L : Link UInt8} {net net' : Net} {post : Post}

/-! ### What is on the way -/

theorem bytesIn_framesTo (id : String) (posts : List Post) (y : ConnId) :
    bytesIn y (framesTo id posts) = (posts.filter (·.message.receiver = id)).flatMap (Post.bytesOn y) := by
  induction posts with
  | nil => rfl
  | cons post posts ih =>
      rw [framesTo] at ih
      rw [framesTo, List.filterMap_cons, List.filter_cons, Post.frame?]
      by_cases hreceiver : post.message.receiver = id
      · rw [if_pos hreceiver, if_pos (by simpa using hreceiver), List.flatMap_cons]
        cases hkind : post.message.kind with
        | other kind =>
            simp only [frameOf, Option.map_none, ih, Post.bytesOn, hkind, List.nil_append]
        | connect | accepted | close | data =>
            simp [frameOf, bytesIn_cons, ih, Frame.bytes, Post.bytesOn, hkind]
      · rw [if_neg hreceiver, if_neg (by simpa using hreceiver)]
        exact ih

/-- What was sent is out, waits or is on the way. -/
theorem Sim.conserved (hsim : Sim p net L) (hjoined : Joined p net r x y) :
    yielded (net.mgr r) x ++ ((net.mgr r).conn x).queue.flatten ++ onWire p net r y =
      sentOn (net.mgr (!r)) y := by
  have hcur := (hsim.side r).cur_of_live hjoined.near hjoined.near_leads.2
  have hcur' : L.cur (!r) = some y := (hsim.side (!r)).cur_of_live hjoined.far hjoined.far_leads.2
  have hgot := hsim.link.arrived.got_eq r x y (hsim.partner.mpr hjoined.partner) hcur
  rw [hsim.flight, bytesIn_framesTo, (hsim.side (!r)).sent_eq y hcur', ← (hsim.side r).got_eq x hjoined.near]
    at hgot
  exact hgot

/-! ### Calm frames -/

/-- Only `kill` ends a connection. -/
theorem Does.live_of_live (h : Does o s a t) (hlive : s.Live c) (ha : a ≠ .kill c) :
    t.Live c ∧ (t.conn c).remoteId = (s.conn c).remoteId := by
  cases h with
  | incoming | outgoing =>
      have hne : c ≠ s.created := Nat.ne_of_lt hlive.1
      refine ⟨⟨Nat.lt_succ_of_lt hlive.1, ?_⟩, ?_⟩
      · dsimp only
        rw [update_of_ne hne]
        exact hlive.2
      · dsimp only
        rw [update_of_ne hne]
  | kill c' =>
      have hne : c ≠ c' := fun hc => ha (by rw [hc])
      refine ⟨⟨hlive.1, ?_⟩, ?_⟩
      · dsimp only
        rw [update_of_ne hne]
        exact hlive.2
      · dsimp only
        rw [update_of_ne hne]
  | connected | enqueue | drain | wake =>
      rw [Manager.Live]
      dsimp only
      rw [update_apply]
      split
      · rename_i hc
        cases hc
        exact ⟨hlive, rfl⟩
      · exact ⟨hlive, rfl⟩
  | _ => exact ⟨hlive, rfl⟩

theorem Acts.live_of_live (h : Acts o s as t) (hlive : s.Live c) (has : ∀ a ∈ as, a ≠ .kill c) :
    t.Live c ∧ (t.conn c).remoteId = (s.conn c).remoteId := by
  induction h with
  | nil => exact ⟨hlive, rfl⟩
  | cons hdoes _ ih =>
      obtain ⟨hlive', hremote⟩ := hdoes.live_of_live hlive (has _ List.mem_cons_self)
      obtain ⟨hend, hremote'⟩ := ih hlive' fun a ha => has a (List.mem_cons_of_mem _ ha)
      exact ⟨hend, hremote'.trans hremote⟩

/-- A calm frame ends no connection. -/
theorem onMessage_live (hinv : Inv o s) (hcalm : post.Calm) (hlive : s.Live c) :
    (s.onMessage o post.message).Live c ∧
      ((s.onMessage o post.message).conn c).remoteId = (s.conn c).remoteId := by
  obtain ⟨as, hmoves, hacts⟩ := onMessage_moves hinv post.message
  apply hacts.live_of_live hlive
  obtain ⟨conn, m⟩ := post
  dsimp only at hmoves
  cases hmoves with
  | incomingFull | incoming | incomingAccepted => exact absurd rfl hcalm.1
  | closed => exact absurd rfl hcalm.2
  | ignored | dropped | accepted | unknown => simp
  | data c' sender bytes as' hget hbytes has => cases has <;> simp

/-- One calm frame arrives. -/
theorem deliver_calm {rest : List Post} (hwire : net.wire r = post :: rest) (hcalm : post.Calm) :
    ∃ net', (network p).step net (.deliver r) = some net' ∧ net'.wire r = rest ∧
      net'.mgr (!r) = net.mgr (!r) ∧ net'.origin = net.origin ∧
        net'.mgr r = (net.mgr r).onMessage (p.options r) post.message := by
  have hstep : (network p).step net (.deliver r) = some ((net.pop r).after r
      ((net.mgr r).onMessage (p.options r) post.message)) := by
    simp only [network, Net.step, Net.deliver, hwire]
    rw [if_neg fun h => hcalm.1 h.1]
  refine ⟨_, hstep, ?_, ?_, rfl, ?_⟩
  · simp [Net.after, Net.pop, hwire]
  · simp [Net.after, Net.pop]
  · simp [Net.after, Net.pop]

theorem orderly_deliver {rest : List Post} (hwire : net.wire r = post :: rest) (hcalm : post.Calm) :
    Orderly p net (.deliver r) := by
  intro post' hpost' hreceiver hconnect
  rw [hwire, List.head?_cons, Option.mem_some_iff] at hpost'
  exact absurd (hpost' ▸ hconnect) hcalm.1

theorem Joined.deliver (hsim : Sim p net L) (hjoined : Joined p net r x y) (hcalm : post.Calm)
    (hfar : net'.mgr (!r) = net.mgr (!r)) (horigin : net'.origin = net.origin)
    (hnear : net'.mgr r = (net.mgr r).onMessage (p.options r) post.message) : Joined p net' r x y := by
  obtain ⟨hlive, hremote⟩ := onMessage_live (hsim.side r).inv hcalm hjoined.near
  constructor
  · rw [Net.Partner, horigin]
    exact hjoined.partner
  · rw [hnear]
    exact hlive
  · rw [Leads, hnear]
    exact ⟨hlive.2, hremote.trans hjoined.near_leads.2⟩
  · rw [hfar]
    exact hjoined.far
  · rw [Leads, hfar]
    exact hjoined.far_leads

/-- All frames on the way arrive. -/
theorem exists_delivered (hsim : Sim p net L) (hjoined : Joined p net r x y)
    (hcalm : ∀ post ∈ net.wire r, post.Calm) :
    ∃ net' M, (network p).run net (List.replicate (net.wire r).length (.deliver r)) = some net' ∧
      Sim p net' M ∧ Joined p net' r x y ∧ net'.wire r = [] ∧ net'.mgr (!r) = net.mgr (!r) := by
  generalize hwire : net.wire r = wire at hcalm
  induction wire generalizing net L with
  | nil => exact ⟨net, L, rfl, hsim, hjoined, hwire, rfl⟩
  | cons post rest ih =>
      have hpost := hcalm post List.mem_cons_self
      obtain ⟨mid, hstep, hrest, hfar, horigin, hnear⟩ := deliver_calm (p := p) hwire hpost
      obtain ⟨M, hmid⟩ := hsim.step (orderly_deliver hwire hpost) hstep
      obtain ⟨net', N, hrun, hend, hjoined', hempty, hfar'⟩ :=
        ih hmid (hjoined.deliver hsim hpost hfar horigin hnear) hrest
          fun post hmem => hcalm post (List.mem_cons_of_mem _ hmem)
      refine ⟨net', N, ?_, hend, hjoined', hempty, hfar'.trans hfar⟩
      rw [List.length_cons, List.replicate_succ, run_cons]
      exact ⟨mid, hstep, hrun⟩

/-! ### Drinking up -/

theorem drainQueue_all {queue : List Bytes} {remaining : Nat} (h : queue.flatten.length ≤ remaining) :
    (drainQueue queue remaining).1.flatten = queue.flatten := by
  induction queue generalizing remaining with
  | nil => rfl
  | cons head rest ih =>
      rw [List.flatten_cons, List.length_append] at h
      unfold drainQueue
      split
      · rename_i hzero
        have hempty : (head :: rest).flatten = [] := by
          apply List.eq_nil_of_length_eq_zero
          rw [List.flatten_cons, List.length_append]
          omega
        rw [hempty]
        rfl
      · split
        · omega
        · dsimp only
          rw [List.flatten_cons, List.flatten_cons, ih (by omega)]

/-- A `recv()` that asks for all that waits gets it. -/
theorem yielded_recv (hget : s.conns.get (s.conn c).fd = some c) (hopen : (s.conn c).closed = false)
    {len : Nat} (hlen : (s.conn c).queue.flatten.length ≤ len) (callback : Callback) :
    yielded (s.recv (s.conn c).fd len callback) c = yielded s c ++ (s.conn c).queue.flatten := by
  have hdrain : yielded (s.drain c ⟨(s.conn c).fd, len, callback⟩).2 c =
      yielded s c ++ (s.conn c).queue.flatten := by
    rw [Manager.drain, yielded_append rfl, flatMap_write, if_pos rfl, drainQueue_all hlen]
  rw [Manager.recv, hget]
  dsimp only
  rw [if_neg (by simp [hopen])]
  generalize s.drain c ⟨(s.conn c).fd, len, callback⟩ = drained at hdrain
  obtain ⟨written, u⟩ := drained
  cases written with
  | zero => exact hdrain
  | succ n =>
      dsimp only
      rw [Manager.push, yielded_append rfl]
      simpa [Effect.bytesOn] using hdrain

/-! ### The pipe -/

/-- What two open ends have of each other. -/
structure Piped (p : Pair) (net : Net) (r : Bool) (x y : ConnId) : Prop where
  conserved : yielded (net.mgr r) x ++ ((net.mgr r).conn x).queue.flatten ++ onWire p net r y =
    sentOn (net.mgr (!r)) y
  /-- Frames that end nothing arrive with both ends still open, and then one call gets what has not come out
  yet. -/
  complete : (∀ post ∈ net.wire r, post.Calm) →
    ∃ net', (network p).run net (List.replicate (net.wire r).length (.deliver r)) = some net' ∧
      net'.wire r = [] ∧ Joined p net' r x y ∧ sentOn (net'.mgr (!r)) y = sentOn (net.mgr (!r)) y ∧
        ∀ len callback, ((net'.mgr r).conn x).queue.flatten.length ≤ len →
          yielded ((net'.mgr r).step (p.options r) (.recv ((net'.mgr r).conn x).fd len callback)) x =
            sentOn (net.mgr (!r)) y

/-- **Nothing is lost between two open ends**, in any state of any orderly run. -/
theorem joined_piped (p : Pair) (es : List NetEvent) (net : Net)
    (horderly : (network p).Along (Orderly p) .initial es)
    (hrun : (network p).run .initial es = some net) (r : Bool) (x y : ConnId)
    (hjoined : Joined p net r x y) : Piped p net r x y := by
  obtain ⟨L, hsim⟩ := run_keeps_along (P := fun net => ∃ L, Sim p net L)
    (fun net e net' ⟨L, hsim⟩ horderly hstep => hsim.step horderly hstep) ⟨_, .initial⟩ horderly hrun
  refine ⟨hsim.conserved hjoined, fun hcalm => ?_⟩
  obtain ⟨net', M, hdelivered, hend, hjoined', hempty, hfar⟩ := exists_delivered hsim hjoined hcalm
  refine ⟨net', hdelivered, hempty, hjoined', by rw [hfar], fun len callback hlen => ?_⟩
  have hconserved := hend.conserved hjoined'
  rw [onWire, hempty, hfar] at hconserved
  have hget := (hend.side r).inv.get_of_live x hjoined'.near
  rw [Manager.step, yielded_recv hget hjoined'.near.2 hlen, ← hconserved]
  exact (List.append_nil _).symm

/-- One frame has arrived and is read in part, the next one is on its way. -/
def partlyRead : List NetEvent :=
  [.op false (.connect "b" 0), .deliver true, .op true (.accept 0), .deliver false,
    .op false (.send 0 [1, 2, 3] none), .deliver true, .op true (.recv 0 2 0), .op false (.send 0 [4, 5] none)]

theorem joined_piped_partlyRead : ∃ net, (network pair).run .initial partlyRead = some net ∧
    yielded (net.mgr true) 0 = [1, 2] ∧ ((net.mgr true).conn 0).queue = [[3]] ∧
      onWire pair net true 0 = [4, 5] ∧ Piped pair net true 0 0 := by
  obtain ⟨net, hrun, hstate⟩ : ∃ net, (network pair).run .initial partlyRead = some net ∧
      (yielded (net.mgr true) 0 = [1, 2] ∧ ((net.mgr true).conn 0).queue = [[3]] ∧
        onWire pair net true 0 = [4, 5]) ∧ Joined pair net true 0 0 := by
    refine ⟨_, rfl, by decide, ?_⟩
    exact ⟨by decide, ⟨by decide, by decide⟩, by decide, ⟨by decide, by decide⟩, by decide⟩
  exact ⟨net, hrun, hstate.1.1, hstate.1.2.1, hstate.1.2.2,
    joined_piped pair partlyRead net (by decide) hrun true 0 0 hstate.2⟩

end LlmRuntime.PeerManager

import LlmRuntime.PeerManager.Observed

/-!
# Two managers on a bus

What one manager posts reaches the other, in order and without loss. The frames in `wire` keep the
connection they were posted on, which the source's messages do not carry: it is what lets `Faithful`
say whether a frame reached the connection it was meant for.
-/

namespace LlmRuntime.PeerManager

open Function Transition

/-- Two managers with different node ids. -/
structure Pair where
  id : Bool → String
  fdMax : Bool → Nat
  distinct : id false ≠ id true

def Pair.options (p : Pair) (r : Bool) : Options := ⟨p.id r, p.fdMax r⟩

/-- `wire r` is on its way to side `r`. `origin r w = some y` says that `handleConnect` made connection
`w` of side `r` for the `connect` frame of connection `y` of the other side. -/
structure Net where
  mgr : Bool → Manager
  wire : Bool → List Post
  origin : Bool → ConnId → Option ConnId

inductive NetEvent where
  | op (side : Bool) (event : Event)
  /-- The next frame on the way to the side is delivered. -/
  | deliver (side : Bool)

namespace Net

def initial : Net where
  mgr := fun _ => .initial
  wire := fun _ => []
  origin := fun _ _ => none

/-- Side `r` has gone to state `t`; what it posted on the way is on the wire. -/
@[simps] def after (net : Net) (r : Bool) (t : Manager) : Net :=
  { net with
    mgr := update net.mgr r t
    wire := update net.wire (!r) (net.wire (!r) ++ t.posts.drop (net.mgr r).posts.length) }

/-- Side `r` takes the first frame off the wire. -/
@[simps] def pop (net : Net) (r : Bool) : Net :=
  { net with wire := update net.wire r (net.wire r).tail }

@[simps] def setOrigin (net : Net) (r : Bool) (w y : ConnId) : Net :=
  { net with origin := update net.origin r (update (net.origin r) w (some y)) }

def deliver (p : Pair) (net : Net) (r : Bool) : Option Net :=
  match net.wire r with
  | [] => none
  | post :: _ =>
      let t := (net.mgr r).onMessage (p.options r) post.message
      -- a `connect` frame that made an object
      if post.message.kind = .connect ∧ (net.mgr r).created < t.created then
        some (((net.pop r).setOrigin r (net.mgr r).created post.conn).after r t)
      else some ((net.pop r).after r t)

def step (p : Pair) (net : Net) : NetEvent → Option Net
  | .op _ (.message _) => none
  | .op r event => some (net.after r ((net.mgr r).step (p.options r) event))
  | .deliver r => net.deliver p r

/-- The partner of a connection, seen from side `r`. -/
def Partner (net : Net) (r : Bool) (x y : ConnId) : Prop :=
  net.origin r x = some y ∨ net.origin (!r) y = some x

instance (net : Net) (r : Bool) (x y : ConnId) : Decidable (net.Partner r x y) :=
  inferInstanceAs (Decidable (_ ∨ _))

end Net

def network (p : Pair) : Transition Net NetEvent where
  start := .initial
  step := Net.step p

/-- Frames stay with their connection. -/
structure Faithful (p : Pair) (net : Net) : Prop where
  /-- The frame that arrives next is dropped, or changes the partner of the connection it was posted on. -/
  applied : ∀ r post rest, net.wire r = post :: rest → post.message.kind ≠ .connect →
    ∀ c, ((net.mgr r).onMessage (p.options r) post.message).conn c ≠ (net.mgr r).conn c →
      net.Partner r c post.conn
  /-- A `connect()` is answered with a number only if the partner was accepted. -/
  connected : ∀ r c, Connected (net.mgr r) c → ∃ y, net.origin (!r) y = some c ∧ Accepted (net.mgr (!r)) y
  received : ∀ r x y, net.Partner r x y → yielded (net.mgr r) x <+: sentOn (net.mgr (!r)) y
  nothing : ∀ r x, (∀ y, ¬ net.Partner r x y) → yielded (net.mgr r) x = []

/-- Side `r` has heard of the connection the other side has to it: no `connect` frame of that one is
among the frames on their way. -/
def Heard (p : Pair) (net : Net) (r : Bool) (wire : List Post) : Prop :=
  ∀ y ∈ (net.mgr (!r)).byRemote.get (p.id r), ∀ post ∈ wire, post.conn = y →
    post.message.kind ≠ .connect

/-- Connection `c` leads to the other side and can carry a frame. -/
def Leads (p : Pair) (net : Net) (r : Bool) (c : ConnId) : Prop :=
  ((net.mgr r).conn c).closed = false ∧ ((net.mgr r).conn c).remoteId = p.id (!r)

/-- The condition on a step. A side connects to the other only when no frame is on its way to it; it
posts a frame to the other only when it has heard of the connection the other has; and a `connect`
frame that finds no free number finds no connection to its sender either. -/
def Orderly (p : Pair) (net : Net) : NetEvent → Prop
  | .op r (.connect remoteId _) => remoteId = p.id (!r) → ((net.mgr r).newFd (p.options r)).1 ≠ none →
      ∀ post ∈ net.wire r, post.message.receiver ≠ p.id r
  | .op r (.accept _) => ∀ fd ∈ (net.mgr r).readyFds.head?, ∀ c ∈ (net.mgr r).conns.get fd,
      Leads p net r c → Heard p net r (net.wire r)
  | .op r (.send fd data none) => data ≠ [] → ∀ c ∈ (net.mgr r).conns.get fd,
      Leads p net r c → Heard p net r (net.wire r)
  | .op r (.closeConnection fd) => ∀ c ∈ (net.mgr r).conns.get fd,
      Leads p net r c → Heard p net r (net.wire r)
  | .op _ _ => True
  | .deliver r => ∀ post ∈ (net.wire r).head?, post.message.receiver = p.id r →
      post.message.kind = .connect →
      if ((net.mgr r).newFd (p.options r)).1 = none then (net.mgr r).byRemote.get (p.id (!r)) = none
      else (net.mgr r).acceptWaiters ≠ [] → Heard p net r (net.wire r).tail

instance (p : Pair) (net : Net) (r : Bool) (wire : List Post) : Decidable (Heard p net r wire) := by
  unfold Heard
  infer_instance

instance (p : Pair) (net : Net) (r : Bool) (c : ConnId) : Decidable (Leads p net r c) :=
  inferInstanceAs (Decidable (_ ∧ _))

instance (p : Pair) (net : Net) (e : NetEvent) : Decidable (Orderly p net e) := by
  unfold Orderly
  split <;> infer_instance

def pair : Pair := ⟨fun r => if r then "b" else "a", fun _ => 4, by decide⟩

/-- Both sides close, and `a` connects again while the `close` frame for its old connection is on the way:
it tears down the new one. -/
theorem not_faithful_of_reconnect : ∃ net, (network pair).run .initial
    [.op false (.connect "b" 0), .deliver true, .op true (.accept 0), .deliver false,
      .op true (.closeConnection 0), .op false (.closeConnection 0),
      .op false (.connect "b" 1)] = some net ∧ ¬ Faithful pair net := by
  refine ⟨_, rfl, fun h => ?_⟩
  have happlied := h.applied false _ [] rfl (by decide) 1 (by decide)
  revert happlied
  decide

end LlmRuntime.PeerManager

import Mathlib.Data.Bool.Basic
import Mathlib.Data.List.Basic
import Mathlib.Data.List.Infix
import Mathlib.Logic.Function.Basic
import Mathlib.Logic.Relation

/-!
# Connections over a link whose frames do not name them

Two sides, `false` and `true`, exchange frames over a lossless link that is first-in first-out in each
direction. A side opens one connection after another, by asking (`connect`) or by being asked (`admitted`),
and has at most one at a time. A frame is posted on a connection but does not say on which: the receiver
takes it as meant for the connection it has when the frame arrives.

Frames then reach the right connection as long as a side asks only when nothing is on its way to it, and
posts only when it has heard of the connection the other side has. `Move` has these two conditions as
guards, `Inv` is what they keep, and the theorems at the end say what it is worth.
-/

open Function

inductive Frame (β : Type*) where
  | connect
  | accepted
  | data (bytes : List β)
  | close

namespace Frame

variable {β : Type*}

def bytes : Frame β → List β
  | data bytes => bytes
  | _ => []

def isAccepted : Frame β → Bool
  | accepted => true
  | _ => false

end Frame

/-- `flight r` is on its way to side `r`. `origin r w = some y` says that side `r` made its connection
`w` on the other side's asking for its connection `y`. -/
structure Link (β : Type*) where
  next : Bool → Nat
  cur : Bool → Option Nat
  flight : Bool → List (Nat × Frame β)
  origin : Bool → Nat → Option Nat
  sent : Bool → Nat → List β
  got : Bool → Nat → List β
  accepted : Bool → Nat → Bool
  answered : Bool → Nat → Bool

namespace Link

variable {β : Type*}

def initial : Link β where
  next := fun _ => 0
  cur := fun _ => none
  flight := fun _ => []
  origin := fun _ _ => none
  sent := fun _ _ => []
  got := fun _ _ => []
  accepted := fun _ _ => false
  answered := fun _ _ => false

/-- What side `r` has received on its connection, if it has one, after one more frame. -/
def take {α : Type*} (L : Link β) (r : Bool) (f : Bool → Nat → α) (extend : α → α) : Bool → Nat → α :=
  fun s c => if s = r ∧ L.cur r = some c then extend (f s c) else f s c

@[simp] theorem take_not {α : Type*} (L : Link β) (r : Bool) (f : Bool → Nat → α) (extend : α → α) :
    L.take r f extend (!r) = f (!r) := by
  funext c
  rw [take, if_neg fun h => Bool.not_ne_self r h.1]

inductive Move (L : Link β) : Link β → Prop where
  /-- A connection to somebody else. -/
  | other (r : Bool) : Move L { L with next := update L.next r (L.next r + 1) }
  | drop (r : Bool) : Move L { L with cur := update L.cur r none }
  | connect (r : Bool) (hcur : L.cur r = none) (hquiet : L.flight r = []) :
      Move L { L with
        next := update L.next r (L.next r + 1)
        cur := update L.cur r (some (L.next r))
        flight := update L.flight (!r) (L.flight (!r) ++ [(L.next r, .connect)]) }
  | post (r : Bool) (c : Nat) (frame : Frame β) (hcur : L.cur r = some c) (hframe : frame ≠ .connect)
      (hknown : ∀ y, L.cur (!r) = some y → (y, .connect) ∉ L.flight r) :
      Move L { L with
        flight := update L.flight (!r) (L.flight (!r) ++ [(c, frame)])
        sent := update L.sent r (update (L.sent r) c (L.sent r c ++ frame.bytes))
        accepted := update L.accepted r
          (update (L.accepted r) c (L.accepted r c || frame.isAccepted)) }
  | refuse (r : Bool) (y : Nat) (rest : List (Nat × Frame β))
      (hflight : L.flight r = (y, .connect) :: rest) (hcur : L.cur r = none) :
      Move L { L with flight := update L.flight r rest }
  | admitted (r : Bool) (y : Nat) (rest : List (Nat × Frame β))
      (hflight : L.flight r = (y, .connect) :: rest) (hcur : L.cur r = none) :
      Move L { L with
        next := update L.next r (L.next r + 1)
        cur := update L.cur r (some (L.next r))
        flight := update L.flight r rest
        origin := update L.origin r (update (L.origin r) (L.next r) (some y)) }
  | deliver (r : Bool) (y : Nat) (frame : Frame β) (rest : List (Nat × Frame β))
      (hflight : L.flight r = (y, frame) :: rest) (hframe : frame ≠ .connect) :
      Move L { L with
        flight := update L.flight r rest
        got := L.take r L.got (· ++ frame.bytes)
        answered := L.take r L.answered (· || frame.isAccepted) }

/-- Either side's connection was made on the asking of the other's. -/
def Partner (L : Link β) (r : Bool) (x y : Nat) : Prop :=
  L.origin r x = some y ∨ L.origin (!r) y = some x

/-- The two links look the same from side `r`, what is on its way apart. -/
structure Agree (r : Bool) (L M : Link β) : Prop where
  next : M.next r = L.next r
  cur : M.cur r = L.cur r
  sent : M.sent r = L.sent r
  got : M.got r = L.got r
  accepted : M.accepted r = L.accepted r
  answered : M.answered r = L.answered r
  origin : M.origin r = L.origin r

/-- The frames on their way, `ok` for the connection the receiver has, and the sender's connection
`last` after them. A `connect` on the way starts anew. -/
def Flow (ok : Nat → Prop) : List (Nat × Frame β) → Option Nat → Prop
  | [], last => ∀ c, last = some c → ok c
  | (c, .connect) :: rest, last => Flow (· = c) rest last
  | (c, _) :: rest, last => ok c ∧ Flow ok rest last

/-- The payload on its way for connection `c`. -/
def bytesIn (c : Nat) (flight : List (Nat × Frame β)) : List β :=
  flight.flatMap fun entry => if entry.1 = c then entry.2.bytes else []

/-- Side `r` may have `c` as the other end: it is the partner of what `r` has, or the other side has not
heard of that yet. -/
def Ok (L : Link β) (r : Bool) (c : Nat) : Prop :=
  ∀ x, L.cur r = some x → L.Partner r x c ∨ (x, .connect) ∈ L.flight (!r)

/-! ### The connections -/

structure Ids (L : Link β) : Prop where
  cur_lt : ∀ r c, L.cur r = some c → c < L.next r
  flight_lt : ∀ r y frame, (y, frame) ∈ L.flight r → y < L.next (!r)
  origin_lt : ∀ r w y, L.origin r w = some y → w < L.next r ∧ y < L.next (!r)
  origin_inj : ∀ r w w' y, L.origin r w = some y → L.origin r w' = some y → w = w'
  one_way : ∀ r w y, L.origin r w = some y → L.origin (!r) y = none
  /-- A connection that asks has no partner yet, and nothing was posted on it before. -/
  asking : ∀ r y, (y, .connect) ∈ L.flight r → (∀ w, L.origin r w ≠ some y) ∧ L.origin (!r) y = none
  once : ∀ r, (L.flight r).Pairwise fun f g => g.2 = .connect → f.1 ≠ g.1
  fresh : ∀ r c, L.next r ≤ c → L.sent r c = [] ∧ L.got r c = []

variable {L M : Link β} {r : Bool} {x y y' : Nat}

theorem partner_not : L.Partner (!r) y x ↔ L.Partner r x y := by
  rw [Partner, Partner, Bool.not_not, Or.comm]

theorem Ids.partner_unique (hids : L.Ids) (h : L.Partner r x y) (h' : L.Partner r x y') : y = y' := by
  rcases h with h | h <;> rcases h' with h' | h'
  · rw [h, Option.some.injEq] at h'
    exact h'
  · have hnone := hids.one_way (!r) y' x h'
    rw [Bool.not_not, h] at hnone
    cases hnone
  · have hnone := hids.one_way (!r) y x h
    rw [Bool.not_not, h'] at hnone
    cases hnone
  · exact hids.origin_inj (!r) y y' x h h'

theorem Ids.initial : (initial : Link β).Ids := by
  constructor <;> simp [Link.initial]

/-- Moves that open nothing and post nothing. -/
theorem Ids.of_shrink (hids : L.Ids) (hnext : ∀ s, L.next s ≤ M.next s)
    (hcur : ∀ s c, M.cur s = some c → L.cur s = some c) (hflight : ∀ s, (M.flight s).Sublist (L.flight s))
    (horigin : M.origin = L.origin)
    (hfresh : ∀ s c, M.next s ≤ c → M.sent s c = L.sent s c ∧ M.got s c = L.got s c) : M.Ids where
  cur_lt s c h := Nat.lt_of_lt_of_le (hids.cur_lt s c (hcur s c h)) (hnext s)
  flight_lt s y frame h :=
    Nat.lt_of_lt_of_le (hids.flight_lt s y frame ((hflight s).subset h)) (hnext (!s))
  origin_lt s w y h := by
    rw [horigin] at h
    obtain ⟨hw, hy⟩ := hids.origin_lt s w y h
    exact ⟨Nat.lt_of_lt_of_le hw (hnext s), Nat.lt_of_lt_of_le hy (hnext (!s))⟩
  origin_inj s w w' y h h' := hids.origin_inj s w w' y (horigin ▸ h) (horigin ▸ h')
  one_way s w y h := by
    rw [horigin] at h ⊢
    exact hids.one_way s w y h
  asking s y h := by
    rw [horigin]
    exact hids.asking s y ((hflight s).subset h)
  once s := (hids.once s).sublist (hflight s)
  fresh s c h := by
    rw [(hfresh s c h).1, (hfresh s c h).2]
    exact hids.fresh s c (Nat.le_trans (hnext s) h)

theorem mem_append_other {s r : Bool} {entry entry' : Nat × Frame β}
    (h : entry ∈ update L.flight (!r) (L.flight (!r) ++ [entry']) s) :
    entry ∈ L.flight s ∨ (s = !r ∧ entry = entry') := by
  rw [update_apply] at h
  split at h
  · rename_i hs
    rw [List.mem_append, List.mem_singleton] at h
    exact h.imp (fun h => hs ▸ h) fun h => ⟨hs, h⟩
  · exact .inl h

theorem le_update_succ (L : Link β) (r s : Bool) : L.next s ≤ update L.next r (L.next r + 1) s := by
  rw [update_apply]
  split
  · rename_i hs
    rw [hs]
    exact Nat.le_succ _
  · exact Nat.le_refl _

/-- A frame is posted on a connection the side has had. -/
theorem Ids.of_post (hids : L.Ids) {c : Nat} {frame : Frame β} (hc : c < M.next r)
    (hnext : ∀ s, L.next s ≤ M.next s) (hcur : ∀ s c, M.cur s = some c → c < M.next s)
    (hflight : M.flight = update L.flight (!r) (L.flight (!r) ++ [(c, frame)]))
    (horigin : M.origin = L.origin) (hasks : frame = .connect → c = L.next r)
    (hfresh : ∀ s c, M.next s ≤ c → M.sent s c = L.sent s c ∧ M.got s c = L.got s c) : M.Ids where
  cur_lt := hcur
  flight_lt s y frame h := by
    rw [hflight] at h
    rcases mem_append_other h with h | ⟨hs, hentry⟩
    · exact Nat.lt_of_lt_of_le (hids.flight_lt s y frame h) (hnext (!s))
    · rw [Prod.mk.injEq] at hentry
      rw [hs, Bool.not_not, hentry.1]
      exact hc
  origin_lt s w y h := by
    rw [horigin] at h
    obtain ⟨hw, hy⟩ := hids.origin_lt s w y h
    exact ⟨Nat.lt_of_lt_of_le hw (hnext s), Nat.lt_of_lt_of_le hy (hnext (!s))⟩
  origin_inj s w w' y h h' := hids.origin_inj s w w' y (horigin ▸ h) (horigin ▸ h')
  one_way s w y h := by
    rw [horigin] at h ⊢
    exact hids.one_way s w y h
  asking s y h := by
    rw [hflight] at h
    rw [horigin]
    rcases mem_append_other h with h | ⟨hs, hentry⟩
    · exact hids.asking s y h
    · -- a connection that has just been opened has no partner
      rw [Prod.mk.injEq] at hentry
      rw [hs, hentry.1, hasks hentry.2.symm, Bool.not_not]
      constructor
      · intro w hw
        have hlt := (hids.origin_lt (!r) w _ hw).2
        rw [Bool.not_not] at hlt
        omega
      · rw [Option.eq_none_iff_forall_ne_some]
        intro y hy
        have hlt := (hids.origin_lt r _ y hy).1
        omega
  once s := by
    rw [hflight, update_apply]
    split
    · rename_i hs
      subst hs
      rw [List.pairwise_append]
      refine ⟨hids.once (!r), List.pairwise_singleton _ _, ?_⟩
      intro f hf g hg hgc
      rw [List.mem_singleton] at hg
      subst hg
      obtain ⟨y, frame'⟩ := f
      have hlt := hids.flight_lt (!r) y frame' hf
      rw [Bool.not_not] at hlt
      have hnew := hasks hgc
      dsimp only
      omega
    · exact hids.once s
  fresh s c h := by
    rw [(hfresh s c h).1, (hfresh s c h).2]
    exact hids.fresh s c (Nat.le_trans (hnext s) h)

theorem sublist_of_pop {entry : Nat × Frame β} {rest : List (Nat × Frame β)}
    (h : L.flight r = entry :: rest) (s : Bool) :
    (update L.flight r rest s).Sublist (L.flight s) := by
  rw [update_apply]
  split
  · rename_i hs
    rw [hs, h]
    exact List.sublist_cons_self entry rest
  · exact .refl _

theorem Ids.cur_lt_opened (hids : L.Ids) {s : Bool} {c : Nat}
    (h : update L.cur r (some (L.next r)) s = some c) : c < update L.next r (L.next r + 1) s := by
  rw [update_apply] at h ⊢
  split at h
  · cases h
    rw [if_pos (by assumption)]
    exact Nat.lt_succ_self _
  · rw [if_neg (by assumption)]
    exact hids.cur_lt s c h

/-- The connection that is opened for `y` is the only one that gets an origin. -/
theorem origin_of_admitted {y y' w : Nat} {s : Bool}
    (h : update L.origin r (update (L.origin r) (L.next r) (some y)) s w = some y') :
    L.origin s w = some y' ∨ (s = r ∧ w = L.next r ∧ y' = y) := by
  rw [update_apply] at h
  split at h
  · rename_i hs
    subst hs
    rw [update_apply] at h
    split at h
    · rename_i hw
      cases h
      exact .inr ⟨rfl, hw, rfl⟩
    · exact .inl h
  · exact .inl h

/-- A connection is opened for the one that asked. -/
theorem Ids.of_admitted (hids : L.Ids) {y : Nat} {rest : List (Nat × Frame β)}
    (hflight : L.flight r = (y, .connect) :: rest) :
    Ids { L with
      next := update L.next r (L.next r + 1)
      cur := update L.cur r (some (L.next r))
      flight := update L.flight r rest
      origin := update L.origin r (update (L.origin r) (L.next r) (some y)) } := by
  have hsub := sublist_of_pop hflight
  have hnext := L.le_update_succ r
  have hy : (y, .connect) ∈ L.flight r := by
    rw [hflight]
    exact List.mem_cons_self
  have hyNext : y < L.next (!r) := hids.flight_lt r y _ hy
  constructor
  · exact fun s c hc => hids.cur_lt_opened hc
  · intro s y' frame h
    exact Nat.lt_of_lt_of_le (hids.flight_lt s y' frame ((hsub s).subset h)) (hnext (!s))
  · intro s w y' h
    rcases origin_of_admitted h with h | ⟨rfl, rfl, rfl⟩
    · obtain ⟨hw, hy'⟩ := hids.origin_lt s w y' h
      exact ⟨Nat.lt_of_lt_of_le hw (hnext s), Nat.lt_of_lt_of_le hy' (hnext (!s))⟩
    · dsimp only
      rw [update_self, update_of_ne (by simp)]
      exact ⟨Nat.lt_succ_self _, hyNext⟩
  · intro s w w' y' h h'
    have hnot : ∀ w, L.origin r w ≠ some y := (hids.asking r y hy).1
    rcases origin_of_admitted h with h | ⟨hs, hw, hy'⟩ <;>
      rcases origin_of_admitted h' with h' | ⟨hs', hw', hy''⟩
    · exact hids.origin_inj s w w' y' h h'
    · rw [hs', hy''] at h
      exact absurd h (hnot w)
    · rw [hs, hy'] at h'
      exact absurd h' (hnot w')
    · rw [hw, hw']
  · intro s w y' h
    rw [Option.eq_none_iff_forall_ne_some]
    intro z hz
    rcases origin_of_admitted h with h | ⟨hs, hw, hy'⟩ <;>
      rcases origin_of_admitted hz with hz | ⟨hs', hw', -⟩
    · rw [hids.one_way s w y' h] at hz
      cases hz
    · have hlt := (hids.origin_lt s w y' h).2
      rw [hs', hw'] at hlt
      exact Nat.lt_irrefl _ hlt
    · rw [hs, hy', (hids.asking r y hy).2] at hz
      cases hz
    · simp [hs] at hs'
  · intro s y' h
    have hmem := (hsub s).subset h
    obtain ⟨hnone, hnot⟩ := hids.asking s y' hmem
    constructor
    · intro w hw
      rcases origin_of_admitted hw with hw | ⟨hs, -, hy'⟩
      · exact hnone w hw
      · dsimp only at h
        rw [hs, hy', update_self] at h
        have honce := hids.once r
        rw [hflight, List.pairwise_cons] at honce
        exact honce.1 _ h rfl rfl
    · rw [Option.eq_none_iff_forall_ne_some]
      intro z hz
      rcases origin_of_admitted hz with hz | ⟨hs, hy', -⟩
      · rw [hnot] at hz
        cases hz
      · have hlt := hids.flight_lt s y' _ hmem
        rw [hs, hy'] at hlt
        exact Nat.lt_irrefl _ hlt
  · intro s
    exact (hids.once s).sublist (hsub s)
  · intro s c hc
    exact hids.fresh s c (Nat.le_trans (hnext s) hc)

theorem Ids.move (hids : L.Ids) (h : Move L M) : M.Ids := by
  cases h with
  | other r =>
      exact hids.of_shrink (L.le_update_succ r) (fun _ _ h => h) (fun _ => .refl _) rfl
        fun _ _ _ => ⟨rfl, rfl⟩
  | drop r =>
      refine hids.of_shrink (fun _ => Nat.le_refl _) ?_ (fun _ => .refl _) rfl fun _ _ _ => ⟨rfl, rfl⟩
      intro s c hc
      dsimp only at hc
      rw [update_apply] at hc
      split at hc
      · cases hc
      · exact hc
  | connect r hcur hquiet =>
      exact hids.of_post (r := r) (c := L.next r) (by simp) (L.le_update_succ r)
        (fun _ _ => hids.cur_lt_opened) rfl rfl (fun _ => rfl) fun _ _ _ => ⟨rfl, rfl⟩
  | post r c frame hcur hframe hknown =>
      refine hids.of_post (r := r) (hids.cur_lt r c hcur) (fun _ => Nat.le_refl _) hids.cur_lt rfl rfl
        (fun h => absurd h hframe) fun s c' hc' => ⟨?_, rfl⟩
      dsimp only at hc' ⊢
      rw [update_apply]
      split
      · rename_i hs
        subst hs
        have hlt := hids.cur_lt s c hcur
        rw [update_of_ne (by omega)]
      · rfl
  | refuse r y rest hflight hcur =>
      exact hids.of_shrink (fun _ => Nat.le_refl _) (fun _ _ h => h) (sublist_of_pop hflight) rfl
        fun _ _ _ => ⟨rfl, rfl⟩
  | deliver r y frame rest hflight hframe =>
      refine hids.of_shrink (fun _ => Nat.le_refl _) (fun _ _ h => h) (sublist_of_pop hflight) rfl
        fun s c hc => ⟨rfl, ?_⟩
      dsimp only [take] at hc ⊢
      rw [if_neg]
      rintro ⟨rfl, hcur⟩
      have hlt := hids.cur_lt s c hcur
      omega
  | admitted r y rest hflight hcur => exact hids.of_admitted hflight

/-! ### The order on the link -/

section Flow

variable {ok ok' : Nat → Prop} {l : List (Nat × Frame β)} {last : Option Nat} {c : Nat} {frame : Frame β}

theorem flow_cons (hframe : frame ≠ .connect) :
    Flow ok ((c, frame) :: l) last ↔ ok c ∧ Flow ok l last := by
  cases frame with
  | connect => exact absurd rfl hframe
  | accepted | data bytes | close => exact Iff.rfl

theorem Flow.mono (h : Flow ok l last) (hok : ∀ c, ok c → ok' c) : Flow ok' l last := by
  induction l with
  | nil => exact fun c hc => hok c (h c hc)
  | cons entry rest ih =>
      obtain ⟨c, frame⟩ := entry
      by_cases hframe : frame = .connect
      · rw [hframe] at h ⊢
        exact h
      · rw [flow_cons hframe] at h ⊢
        exact ⟨hok c h.1, ih h.2⟩

theorem Flow.forget (h : Flow ok l last) : Flow ok l none := by
  induction l generalizing ok with
  | nil =>
      intro c hc
      cases hc
  | cons entry rest ih =>
      obtain ⟨c, frame⟩ := entry
      by_cases hframe : frame = .connect
      · rw [hframe] at h ⊢
        exact @ih (· = c) h
      · rw [flow_cons hframe] at h ⊢
        exact ⟨h.1, ih h.2⟩

theorem Flow.append_connect (h : Flow ok l last) : Flow ok (l ++ [(c, .connect)]) (some c) := by
  induction l generalizing ok with
  | nil =>
      intro c' hc'
      exact (Option.some.inj hc').symm
  | cons entry rest ih =>
      obtain ⟨c', frame⟩ := entry
      rw [List.cons_append]
      by_cases hframe : frame = .connect
      · rw [hframe] at h ⊢
        exact @ih (· = c') h
      · rw [flow_cons hframe] at h ⊢
        exact ⟨h.1, ih h.2⟩

theorem Flow.append (h : Flow ok l (some c)) (hnew : frame ≠ .connect) :
    Flow ok (l ++ [(c, frame)]) (some c) := by
  induction l generalizing ok with
  | nil =>
      rw [List.nil_append, flow_cons hnew]
      exact ⟨h c rfl, h⟩
  | cons entry rest ih =>
      obtain ⟨c', frame'⟩ := entry
      rw [List.cons_append]
      by_cases hframe : frame' = .connect
      · rw [hframe] at h ⊢
        exact @ih (· = c') h
      · rw [flow_cons hframe] at h ⊢
        exact ⟨h.1, ih h.2⟩

theorem Flow.ok_last (h : Flow ok l (some c)) : ok c ∨ (c, .connect) ∈ l := by
  induction l generalizing ok with
  | nil => exact .inl (h c rfl)
  | cons entry rest ih =>
      obtain ⟨c', frame⟩ := entry
      by_cases hframe : frame = .connect
      · rw [hframe] at h ⊢
        rcases @ih (· = c') h with hc | hc
        · rw [hc]
          exact .inr List.mem_cons_self
        · exact .inr (List.mem_cons_of_mem _ hc)
      · rw [flow_cons hframe] at h
        exact (ih h.2).imp_right (List.mem_cons_of_mem _)

theorem flow_iff_of_no_connect (h : ∀ x, (x, .connect) ∉ l) :
    Flow ok l last ↔ (∀ c frame, (c, frame) ∈ l → ok c) ∧ ∀ c, last = some c → ok c := by
  induction l with
  | nil => simp [Flow]
  | cons entry rest ih =>
      obtain ⟨c, frame⟩ := entry
      have hframe : frame ≠ .connect := by
        rintro rfl
        exact h c List.mem_cons_self
      rw [flow_cons hframe, ih fun x hx => h x (List.mem_cons_of_mem _ hx)]
      constructor
      · rintro ⟨hc, hall, hlast⟩
        refine ⟨?_, hlast⟩
        intro c' frame' hmem
        rw [List.mem_cons, Prod.mk.injEq] at hmem
        rcases hmem with ⟨rfl, -⟩ | hmem
        · exact hc
        · exact hall c' frame' hmem
      · rintro ⟨hall, hlast⟩
        exact ⟨hall c frame List.mem_cons_self,
          fun c' frame' hmem => hall c' frame' (List.mem_cons_of_mem _ hmem), hlast⟩

end Flow

structure Order (L : Link β) : Prop where
  /-- The two sides do not ask at the same time. -/
  cross : ∀ r x y, (x, .connect) ∈ L.flight r → (y, .connect) ∉ L.flight (!r)
  /-- Nothing comes in for a connection the other side has not heard of. -/
  quiet : ∀ r x, L.cur r = some x → (x, .connect) ∈ L.flight (!r) → L.flight r = []
  flow : ∀ r, Flow (L.Ok r) (L.flight r) (L.cur (!r))

theorem Order.quiet_not (horder : L.Order) {x : Nat} (hcur : L.cur (!r) = some x)
    (hask : (x, .connect) ∈ L.flight r) : L.flight (!r) = [] :=
  horder.quiet (!r) x hcur (by rwa [Bool.not_not])

theorem Order.flow_not (horder : L.Order) (r : Bool) :
    Flow (L.Ok (!r)) (L.flight (!r)) (L.cur r) := by
  have hflow := horder.flow (!r)
  rwa [Bool.not_not] at hflow

/-- The order, side by side. -/
theorem Order.of_sides (r : Bool)
    (hcross : ∀ x y, (x, .connect) ∈ L.flight r → (y, .connect) ∉ L.flight (!r))
    (hquiet : ∀ x, L.cur r = some x → (x, .connect) ∈ L.flight (!r) → L.flight r = [])
    (hquiet' : ∀ x, L.cur (!r) = some x → (x, .connect) ∈ L.flight r → L.flight (!r) = [])
    (hflow : Flow (L.Ok r) (L.flight r) (L.cur (!r)))
    (hflow' : Flow (L.Ok (!r)) (L.flight (!r)) (L.cur r)) : L.Order := by
  have hside : ∀ s, s = r ∨ s = !r := fun s => by cases s <;> cases r <;> simp
  constructor
  · intro s x y hx hy
    rcases hside s with rfl | rfl
    · exact hcross x y hx hy
    · rw [Bool.not_not] at hy
      exact hcross y x hy hx
  · intro s x hcur hask
    rcases hside s with rfl | rfl
    · exact hquiet x hcur hask
    · rw [Bool.not_not] at hask
      exact hquiet' x hcur hask
  · intro s
    rcases hside s with rfl | rfl
    · exact hflow
    · rwa [Bool.not_not]

theorem Order.initial : (initial : Link β).Order := by
  constructor <;> simp [Link.initial, Flow]

variable {rest : List (Nat × Frame β)} {frame : Frame β}

theorem ok_of_none (hcur : L.cur r = none) (c : Nat) : L.Ok r c := by
  intro x hx
  rw [hcur] at hx
  cases hx

theorem Ok.mono {s : Bool} {c : Nat} (h : L.Ok s c) (hcur : M.cur s = L.cur s)
    (hpartner : ∀ x, L.Partner s x c → M.Partner s x c)
    (hask : ∀ x, (x, .connect) ∈ L.flight (!s) → (x, .connect) ∈ M.flight (!s)) : M.Ok s c := by
  intro x hx
  rw [hcur] at hx
  exact (h x hx).imp (hpartner x) (hask x)

theorem partner_congr (horigin : M.origin = L.origin) {s : Bool} {x c : Nat} (h : L.Partner s x c) :
    M.Partner s x c := by
  rwa [Partner, horigin]

theorem Order.of_drop (horder : L.Order) (hcur : M.cur = update L.cur r none)
    (hflight : M.flight = L.flight) (horigin : M.origin = L.origin) : M.Order := by
  have hself : M.cur r = none := by rw [hcur, update_self]
  have hother : M.cur (!r) = L.cur (!r) := by rw [hcur, update_of_ne (Bool.not_ne_self r)]
  refine Order.of_sides r ?_ ?_ ?_ ?_ ?_
  · rw [hflight]
    exact horder.cross r
  · intro x hx
    rw [hself] at hx
    cases hx
  · intro x hx hask
    rw [hother] at hx
    rw [hflight] at hask ⊢
    exact horder.quiet_not hx hask
  · rw [hflight, hother]
    exact (horder.flow r).mono fun c _ => ok_of_none hself c
  · rw [hflight, hself]
    refine (horder.flow_not r).forget.mono fun c hc => hc.mono hother (fun _ => partner_congr horigin) ?_
    rw [hflight]
    exact fun _ h => h

theorem Order.of_connect (horder : L.Order) {x : Nat} (hcur : M.cur = update L.cur r (some x))
    (hquiet : L.flight r = [])
    (hflight : M.flight = update L.flight (!r) (L.flight (!r) ++ [(x, .connect)]))
    (horigin : M.origin = L.origin) : M.Order := by
  have hself : M.cur r = some x := by rw [hcur, update_self]
  have hother : M.cur (!r) = L.cur (!r) := by rw [hcur, update_of_ne (Bool.not_ne_self r)]
  have hin : M.flight r = [] := by rw [hflight, update_of_ne (Bool.self_ne_not r), hquiet]
  have hout : M.flight (!r) = L.flight (!r) ++ [(x, .connect)] := by rw [hflight, update_self]
  refine Order.of_sides r ?_ ?_ ?_ ?_ ?_
  · intro x' y hx'
    simp [hin] at hx'
  · exact fun _ _ _ => hin
  · intro y _ hask
    simp [hin] at hask
  · rw [hin]
    intro c _ x' hx'
    rw [hself, Option.some.injEq] at hx'
    rw [hout, ← hx']
    exact .inr (List.mem_append_right _ List.mem_cons_self)
  · rw [hout, hself]
    refine ((horder.flow_not r).mono fun c hc => ?_).append_connect
    refine hc.mono hother (fun _ => partner_congr horigin) ?_
    rw [Bool.not_not, hquiet, hin]
    exact fun _ h => h

theorem Order.of_post (horder : L.Order) {c : Nat} (hc : L.cur r = some c) (hframe : frame ≠ .connect)
    (hknown : ∀ y, L.cur (!r) = some y → (y, .connect) ∉ L.flight r) (hcur : M.cur = L.cur)
    (hflight : M.flight = update L.flight (!r) (L.flight (!r) ++ [(c, frame)]))
    (horigin : M.origin = L.origin) : M.Order := by
  have hin : M.flight r = L.flight r := by rw [hflight, update_of_ne (Bool.self_ne_not r)]
  have hout : M.flight (!r) = L.flight (!r) ++ [(c, frame)] := by rw [hflight, update_self]
  have hask : ∀ x, (x, .connect) ∈ M.flight (!r) ↔ (x, .connect) ∈ L.flight (!r) := by
    intro x
    simp [hout, hframe.symm]
  refine Order.of_sides r ?_ ?_ ?_ ?_ ?_
  · intro x y hx
    rw [hask]
    exact horder.cross r x y (hin ▸ hx)
  · intro x hx h
    rw [hin]
    exact horder.quiet r x (hcur ▸ hx) ((hask x).mp h)
  · intro y hy h
    exact absurd (hin ▸ h) (hknown y (hcur ▸ hy))
  · rw [hin, hcur]
    refine (horder.flow r).mono fun c' hc' => ?_
    exact hc'.mono (by rw [hcur]) (fun _ => partner_congr horigin) fun x => (hask x).mpr
  · rw [hout, hcur, hc]
    have hflow := horder.flow_not r
    rw [hc] at hflow
    refine (hflow.mono fun c' hc' => ?_).append hframe
    refine hc'.mono (by rw [hcur]) (fun _ => partner_congr horigin) ?_
    rw [Bool.not_not, hin]
    exact fun _ h => h

theorem Order.of_refuse (horder : L.Order) (hpop : L.flight r = (y, .connect) :: rest)
    (hnone : L.cur r = none) (hcur : M.cur = L.cur) (hflight : M.flight = update L.flight r rest)
    (horigin : M.origin = L.origin) : M.Order := by
  have hin : M.flight r = rest := by rw [hflight, update_self]
  have hout : M.flight (!r) = L.flight (!r) := by rw [hflight, update_of_ne (Bool.not_ne_self r)]
  have hmem : ∀ entry, entry ∈ rest → entry ∈ L.flight r := by
    intro entry h
    rw [hpop]
    exact List.mem_cons_of_mem _ h
  refine Order.of_sides r ?_ ?_ ?_ ?_ ?_
  · intro x y' hx
    rw [hout]
    exact horder.cross r x y' (hmem _ (hin ▸ hx))
  · intro x hx
    rw [hcur, hnone] at hx
    cases hx
  · intro x hx h
    rw [hout]
    exact horder.quiet_not (hcur ▸ hx) (hmem _ (hin ▸ h))
  · rw [hin, hcur]
    have hflow := horder.flow r
    rw [hpop] at hflow
    exact Flow.mono hflow fun c _ => ok_of_none (by rw [hcur, hnone]) c
  · rw [hout, hcur]
    by_cases hy : L.cur (!r) = some y
    · -- the refused connection has heard nothing yet
      rw [horder.quiet_not hy (by rw [hpop]; exact List.mem_cons_self), hnone]
      intro c hc
      cases hc
    · refine (horder.flow_not r).mono fun c hc x hx => ?_
      rw [hcur] at hx
      refine (hc x hx).imp (partner_congr horigin) fun h => ?_
      rw [Bool.not_not, hpop, List.mem_cons, Prod.mk.injEq] at h
      rw [Bool.not_not, hin]
      rcases h with ⟨rfl, -⟩ | h
      · exact absurd hx hy
      · exact h

theorem Order.of_deliver (horder : L.Order) (hpop : L.flight r = (y, frame) :: rest)
    (hframe : frame ≠ .connect) (hcur : M.cur = L.cur) (hflight : M.flight = update L.flight r rest)
    (horigin : M.origin = L.origin) : M.Order := by
  have hin : M.flight r = rest := by rw [hflight, update_self]
  have hout : M.flight (!r) = L.flight (!r) := by rw [hflight, update_of_ne (Bool.not_ne_self r)]
  have hask : ∀ x, (x, .connect) ∈ L.flight r ↔ (x, .connect) ∈ M.flight r := by
    intro x
    simp [hpop, hin, hframe.symm]
  refine Order.of_sides r ?_ ?_ ?_ ?_ ?_
  · intro x y' hx
    rw [hout]
    exact horder.cross r x y' ((hask x).mpr hx)
  · intro x hx h
    rw [hout] at h
    rw [horder.quiet r x (hcur ▸ hx) h] at hpop
    cases hpop
  · intro x hx h
    rw [hout]
    exact horder.quiet_not (hcur ▸ hx) ((hask x).mpr h)
  · have hflow := horder.flow r
    rw [hpop, flow_cons hframe] at hflow
    rw [hin, hcur]
    refine hflow.2.mono fun c hc => hc.mono (by rw [hcur]) (fun _ => partner_congr horigin) ?_
    rw [hout]
    exact fun _ h => h
  · rw [hout, hcur]
    refine (horder.flow_not r).mono fun c hc => ?_
    refine hc.mono (by rw [hcur]) (fun _ => partner_congr horigin) ?_
    rw [Bool.not_not]
    exact fun x => (hask x).mp

theorem partner_of_admitted (hids : L.Ids) (horigin : M.origin =
      update L.origin r (update (L.origin r) (L.next r) (some y))) {s : Bool} {x c : Nat}
    (h : L.Partner s x c) : M.Partner s x c := by
  have hold : ∀ s w z, L.origin s w = some z → M.origin s w = some z := by
    intro s w z hw
    have hlt := (hids.origin_lt s w z hw).1
    rw [horigin, update_apply]
    split
    · rename_i hs
      subst hs
      rw [update_of_ne (by omega), hw]
    · exact hw
  exact h.imp (hold s x c) (hold (!s) c x)

theorem Order.of_admitted (horder : L.Order) (hids : L.Ids) (hpop : L.flight r = (y, .connect) :: rest)
    (hcur : M.cur = update L.cur r (some (L.next r))) (hflight : M.flight = update L.flight r rest)
    (horigin : M.origin = update L.origin r (update (L.origin r) (L.next r) (some y))) : M.Order := by
  have hself : M.cur r = some (L.next r) := by rw [hcur, update_self]
  have hother : M.cur (!r) = L.cur (!r) := by rw [hcur, update_of_ne (Bool.not_ne_self r)]
  have hin : M.flight r = rest := by rw [hflight, update_self]
  have hout : M.flight (!r) = L.flight (!r) := by rw [hflight, update_of_ne (Bool.not_ne_self r)]
  have hasked : (y, .connect) ∈ L.flight r := by
    rw [hpop]
    exact List.mem_cons_self
  have hmem : ∀ entry, entry ∈ rest → entry ∈ L.flight r := by
    intro entry h
    rw [hpop]
    exact List.mem_cons_of_mem _ h
  have hpartner : M.Partner r (L.next r) y := by
    rw [Partner, horigin, update_self, update_self]
    exact .inl rfl
  have hflow := horder.flow r
  rw [hpop] at hflow
  refine Order.of_sides r ?_ ?_ ?_ ?_ ?_
  · intro x y' hx
    rw [hout]
    exact horder.cross r x y' (hmem _ (hin ▸ hx))
  · intro x hx h
    rw [hself, Option.some.injEq] at hx
    have hlt := hids.flight_lt (!r) x _ (hout ▸ h)
    rw [Bool.not_not, hx] at hlt
    exact absurd hlt (Nat.lt_irrefl x)
  · intro x hx h
    rw [hout]
    exact horder.quiet_not (hother ▸ hx) (hmem _ (hin ▸ h))
  · rw [hin, hother]
    refine Flow.mono hflow fun c hc x hx => ?_
    rw [hself, Option.some.injEq] at hx
    rw [hc, ← hx]
    exact .inl hpartner
  · rw [hout, hself]
    -- all on its way to the other side is for the connection it asked with
    have hno : ∀ x, (x, .connect) ∉ L.flight (!r) := fun x => horder.cross r y x hasked
    have hold := (flow_iff_of_no_connect hno).mp (horder.flow_not r)
    rw [flow_iff_of_no_connect hno]
    have hkeep : ∀ c, L.Ok (!r) c → ∀ x, M.cur (!r) = some x → x ≠ y → M.Partner (!r) x c ∨
        (x, .connect) ∈ M.flight (!!r) := by
      intro c hc x hx hne
      rw [hother] at hx
      refine (hc x hx).imp (partner_of_admitted hids horigin) fun h => ?_
      rw [Bool.not_not, hpop, List.mem_cons, Prod.mk.injEq] at h
      rw [Bool.not_not, hin]
      exact h.resolve_left fun h => hne h.1
    constructor
    · intro c frame' h x hx
      by_cases hxy : x = y
      · rw [hother, hxy] at hx
        rw [horder.quiet_not hx hasked] at h
        cases h
      · exact hkeep c (hold.1 c frame' h) x hx hxy
    · intro c hc x hx
      rw [Option.some.injEq] at hc
      subst hc
      rw [hother] at hx
      rw [hx] at hflow
      have hrest : Flow (· = y) rest (some x) := hflow
      rcases hrest.ok_last with hxy | h
      · rw [hxy]
        exact .inl (partner_not.mpr hpartner)
      · rw [Bool.not_not, hin]
        exact .inr h

theorem Order.move (hids : L.Ids) (horder : L.Order) (h : Move L M) : M.Order := by
  cases h with
  | other r => exact ⟨horder.cross, horder.quiet, horder.flow⟩
  | drop r => exact horder.of_drop rfl rfl rfl
  | connect r hcur hquiet => exact horder.of_connect rfl hquiet rfl rfl
  | post r c frame hcur hframe hknown => exact horder.of_post hcur hframe hknown rfl rfl rfl
  | refuse r y rest hflight hcur => exact horder.of_refuse hflight hcur rfl rfl rfl
  | admitted r y rest hflight hcur => exact horder.of_admitted hids hflight rfl rfl rfl
  | deliver r y frame rest hflight hframe => exact horder.of_deliver hflight hframe rfl rfl rfl

/-- **A frame that arrives was posted on the partner of the connection that takes it.** -/
theorem partner_of_arrival (horder : L.Order) (hpop : L.flight r = (y, frame) :: rest)
    (hframe : frame ≠ .connect) (hcur : L.cur r = some x) : L.Partner r x y := by
  have hflow := horder.flow r
  rw [hpop, flow_cons hframe] at hflow
  rcases hflow.1 x hcur with hpartner | hask
  · exact hpartner
  · rw [horder.quiet r x hcur hask] at hpop
    cases hpop

/-! ### What has arrived -/

structure Arrived (L : Link β) : Prop where
  /-- What a connection has got of its partner, and what is still on its way to it. -/
  got_eq : ∀ r x y, L.Partner r x y → L.cur r = some x → L.got r x ++ bytesIn y (L.flight r) = L.sent (!r) y
  got_prefix : ∀ r x y, L.Partner r x y → L.got r x <+: L.sent (!r) y
  got_nil : ∀ r x, (∀ y, ¬ L.Partner r x y) → L.got r x = []
  asking : ∀ r y, (y, .connect) ∈ L.flight r → bytesIn y (L.flight r) = L.sent (!r) y
  accepted : ∀ r y, (y, .accepted) ∈ L.flight r → L.accepted (!r) y = true
  answered : ∀ r x, L.answered r x = true → ∃ y, L.Partner r x y ∧ L.accepted (!r) y = true

theorem bytesIn_cons (c y : Nat) (frame : Frame β) (rest : List (Nat × Frame β)) :
    bytesIn c ((y, frame) :: rest) = (if y = c then frame.bytes else []) ++ bytesIn c rest := by
  rw [bytesIn, List.flatMap_cons]
  rfl

theorem bytesIn_append (c y : Nat) (frame : Frame β) (l : List (Nat × Frame β)) :
    bytesIn c (l ++ [(y, frame)]) = bytesIn c l ++ if y = c then frame.bytes else [] := by
  simp [bytesIn]

theorem bytesIn_eq_nil {c : Nat} {l : List (Nat × Frame β)} (h : ∀ frame, (c, frame) ∉ l) :
    bytesIn c l = [] := by
  rw [bytesIn, List.flatMap_eq_nil_iff]
  rintro ⟨y, frame⟩ hmem
  dsimp only
  rw [if_neg]
  rintro rfl
  exact h frame hmem

theorem Arrived.initial : (initial : Link β).Arrived := by
  constructor <;> simp [Link.initial, Partner, bytesIn]

/-- Moves that neither post nor take anything off the link. -/
theorem Arrived.of_same (harrived : L.Arrived) (hcur : ∀ s c, M.cur s = some c → L.cur s = some c)
    (hflight : M.flight = L.flight) (horigin : M.origin = L.origin) (hsent : M.sent = L.sent)
    (hgot : M.got = L.got) (haccepted : M.accepted = L.accepted) (hanswered : M.answered = L.answered) :
    M.Arrived := by
  have hpartner : ∀ s x c, M.Partner s x c ↔ L.Partner s x c := fun s x c => by
    rw [Partner, Partner, horigin]
  constructor
  · intro s x c h hx
    rw [hgot, hflight, hsent]
    exact harrived.got_eq s x c ((hpartner s x c).mp h) (hcur s x hx)
  · intro s x c h
    rw [hgot, hsent]
    exact harrived.got_prefix s x c ((hpartner s x c).mp h)
  · intro s x h
    rw [hgot]
    exact harrived.got_nil s x fun c hc => h c ((hpartner s x c).mpr hc)
  · rw [hflight, hsent]
    exact harrived.asking
  · rw [hflight, haccepted]
    exact harrived.accepted
  · intro s x h
    rw [hanswered] at h
    obtain ⟨c, hc, hacc⟩ := harrived.answered s x h
    exact ⟨c, (hpartner s x c).mpr hc, by rw [haccepted, hacc]⟩

theorem Ids.partner_lt (hids : L.Ids) {s : Bool} {c : Nat} (h : L.Partner s x c) :
    x < L.next s ∧ c < L.next (!s) := by
  rcases h with h | h
  · exact hids.origin_lt s x c h
  · have hlt := hids.origin_lt (!s) c x h
    rw [Bool.not_not] at hlt
    exact ⟨hlt.2, hlt.1⟩

theorem Arrived.of_connect (harrived : L.Arrived) (hids : L.Ids)
    (hcur : M.cur = update L.cur r (some (L.next r)))
    (hflight : M.flight = update L.flight (!r) (L.flight (!r) ++ [(L.next r, .connect)]))
    (horigin : M.origin = L.origin) (hsent : M.sent = L.sent) (hgot : M.got = L.got)
    (haccepted : M.accepted = L.accepted) (hanswered : M.answered = L.answered) : M.Arrived := by
  have hpartner : ∀ s x c, M.Partner s x c ↔ L.Partner s x c := fun s x c => by
    rw [Partner, Partner, horigin]
  have hbytes : ∀ s c, bytesIn c (M.flight s) = bytesIn c (L.flight s) := by
    intro s c
    rw [hflight, update_apply]
    split
    · rename_i hs
      rw [bytesIn_append, hs]
      simp [Frame.bytes]
    · rfl
  constructor
  · intro s x c h hx
    rw [hpartner] at h
    rw [hcur, update_apply] at hx
    rw [hgot, hbytes, hsent]
    split at hx
    · rename_i hs
      have hlt := (hids.partner_lt h).1
      cases hx
      rw [hs] at hlt
      exact absurd hlt (Nat.lt_irrefl _)
    · exact harrived.got_eq s x c h hx
  · intro s x c h
    rw [hgot, hsent]
    exact harrived.got_prefix s x c ((hpartner s x c).mp h)
  · intro s x h
    rw [hgot]
    exact harrived.got_nil s x fun c hc => h c ((hpartner s x c).mpr hc)
  · intro s c hmem
    rw [hbytes, hsent]
    rw [hflight] at hmem
    rcases mem_append_other hmem with hmem | ⟨hs, hentry⟩
    · exact harrived.asking s c hmem
    · cases hentry
      rw [hs, Bool.not_not, (hids.fresh r _ (Nat.le_refl _)).1]
      refine bytesIn_eq_nil fun frame h => ?_
      have hlt := hids.flight_lt (!r) _ frame h
      rw [Bool.not_not] at hlt
      exact Nat.lt_irrefl _ hlt
  · intro s c hmem
    rw [haccepted]
    rw [hflight] at hmem
    rcases mem_append_other hmem with hmem | ⟨-, hentry⟩
    · exact harrived.accepted s c hmem
    · cases hentry
  · intro s x h
    rw [hanswered] at h
    obtain ⟨c, hc, hacc⟩ := harrived.answered s x h
    exact ⟨c, (hpartner s x c).mpr hc, by rw [haccepted, hacc]⟩

theorem Arrived.of_post (harrived : L.Arrived) {c : Nat} (hframe : frame ≠ .connect)
    (hcur : M.cur = L.cur) (hflight : M.flight = update L.flight (!r) (L.flight (!r) ++ [(c, frame)]))
    (horigin : M.origin = L.origin)
    (hsent : M.sent = update L.sent r (update (L.sent r) c (L.sent r c ++ frame.bytes)))
    (hgot : M.got = L.got) (haccepted : M.accepted = update L.accepted r
      (update (L.accepted r) c (L.accepted r c || frame.isAccepted)))
    (hanswered : M.answered = L.answered) : M.Arrived := by
  have hpartner : ∀ s x c, M.Partner s x c ↔ L.Partner s x c := fun s x c => by
    rw [Partner, Partner, horigin]
  -- what is posted is on its way
  have hbytes : ∀ s c', ∃ more, bytesIn c' (M.flight s) = bytesIn c' (L.flight s) ++ more ∧
      M.sent (!s) c' = L.sent (!s) c' ++ more := by
    intro s c'
    by_cases hs : s = !r
    · subst hs
      rw [hflight, hsent, Bool.not_not, update_self, update_self, bytesIn_append]
      by_cases hc : c = c'
      · subst hc
        exact ⟨frame.bytes, by rw [if_pos rfl], by rw [update_self]⟩
      · exact ⟨[], by rw [if_neg hc], by rw [update_of_ne (Ne.symm hc), List.append_nil]⟩
    · have hs' : (!s) ≠ r := fun h => hs (by rw [← h, Bool.not_not])
      rw [hflight, hsent, update_of_ne hs, update_of_ne hs']
      exact ⟨[], (List.append_nil _).symm, (List.append_nil _).symm⟩
  have hacc : ∀ s c', L.accepted s c' = true → M.accepted s c' = true := by
    intro s c' h
    rw [haccepted, update_apply]
    split
    · rename_i hs
      subst hs
      rw [update_apply]
      split
      · rename_i hc
        rw [← hc, h, Bool.true_or]
      · exact h
    · exact h
  constructor
  · intro s x c' h hx
    obtain ⟨more, hmore, hsent'⟩ := hbytes s c'
    rw [hgot, hmore, hsent', ← List.append_assoc,
      harrived.got_eq s x c' ((hpartner s x c').mp h) (hcur ▸ hx)]
  · intro s x c' h
    obtain ⟨more, -, hsent'⟩ := hbytes s c'
    rw [hgot, hsent']
    exact (harrived.got_prefix s x c' ((hpartner s x c').mp h)).trans (List.prefix_append _ _)
  · intro s x h
    rw [hgot]
    exact harrived.got_nil s x fun c hc => h c ((hpartner s x c).mpr hc)
  · intro s c' hmem
    obtain ⟨more, hmore, hsent'⟩ := hbytes s c'
    rw [hflight] at hmem
    rw [hmore, hsent']
    rcases mem_append_other hmem with hmem | ⟨-, hentry⟩
    · rw [harrived.asking s c' hmem]
    · exact absurd (Prod.mk.inj hentry).2.symm hframe
  · intro s c' hmem
    rw [hflight] at hmem
    rcases mem_append_other hmem with hmem | ⟨hs, hentry⟩
    · exact hacc _ _ (harrived.accepted s c' hmem)
    · cases hentry
      rw [hs, Bool.not_not, haccepted, update_self, update_self]
      exact Bool.or_true _
  · intro s x h
    rw [hanswered] at h
    obtain ⟨c', hc', hacc'⟩ := harrived.answered s x h
    exact ⟨c', (hpartner s x c').mpr hc', hacc _ _ hacc'⟩

/-- A `connect` that is taken off the link carried nothing. -/
theorem bytesIn_of_pop (hpop : L.flight r = (y, .connect) :: rest) (s : Bool) (c : Nat) :
    bytesIn c (update L.flight r rest s) = bytesIn c (L.flight s) := by
  rw [update_apply]
  split
  · rename_i hs
    rw [hs, hpop, bytesIn_cons]
    simp [Frame.bytes]
  · rfl

theorem Arrived.of_refuse (harrived : L.Arrived) (hpop : L.flight r = (y, .connect) :: rest)
    (hcur : M.cur = L.cur) (hflight : M.flight = update L.flight r rest)
    (horigin : M.origin = L.origin) (hsent : M.sent = L.sent) (hgot : M.got = L.got)
    (haccepted : M.accepted = L.accepted) (hanswered : M.answered = L.answered) : M.Arrived := by
  have hpartner : ∀ s x c, M.Partner s x c ↔ L.Partner s x c := fun s x c => by
    rw [Partner, Partner, horigin]
  constructor
  · intro s x c h hx
    rw [hgot, hflight, hsent, bytesIn_of_pop hpop]
    exact harrived.got_eq s x c ((hpartner s x c).mp h) (hcur ▸ hx)
  · intro s x c h
    rw [hgot, hsent]
    exact harrived.got_prefix s x c ((hpartner s x c).mp h)
  · intro s x h
    rw [hgot]
    exact harrived.got_nil s x fun c hc => h c ((hpartner s x c).mpr hc)
  · intro s c hmem
    rw [hflight] at hmem
    rw [hflight, hsent, bytesIn_of_pop hpop]
    exact harrived.asking s c ((sublist_of_pop hpop s).subset hmem)
  · intro s c hmem
    rw [hflight] at hmem
    rw [haccepted]
    exact harrived.accepted s c ((sublist_of_pop hpop s).subset hmem)
  · intro s x h
    rw [hanswered] at h
    obtain ⟨c, hc, hacc⟩ := harrived.answered s x h
    exact ⟨c, (hpartner s x c).mpr hc, by rw [haccepted, hacc]⟩

theorem partner_cases_of_admitted (horigin : M.origin =
      update L.origin r (update (L.origin r) (L.next r) (some y))) {s : Bool} {x c : Nat}
    (h : M.Partner s x c) :
    L.Partner s x c ∨ (s = r ∧ x = L.next r ∧ c = y) ∨ (s = !r ∧ x = y ∧ c = L.next r) := by
  have hcases : ∀ s w z, M.origin s w = some z →
      L.origin s w = some z ∨ (s = r ∧ w = L.next r ∧ z = y) := by
    intro s w z hw
    rw [horigin, update_apply] at hw
    split at hw
    · rename_i hs
      subst hs
      rw [update_apply] at hw
      split at hw
      · rename_i hnew
        exact .inr ⟨rfl, hnew, (Option.some.inj hw).symm⟩
      · exact .inl hw
    · exact .inl hw
  rcases h with h | h
  · rcases hcases s x c h with h | h
    · exact .inl (.inl h)
    · exact .inr (.inl h)
  · rcases hcases (!s) c x h with h | ⟨hs, hc, hx⟩
    · exact .inl (.inr h)
    · exact .inr (.inr ⟨by rw [← hs, Bool.not_not], hx, hc⟩)

theorem Arrived.of_admitted (harrived : L.Arrived) (hids : L.Ids) (hpop : L.flight r = (y, .connect) :: rest)
    (hcur : M.cur = update L.cur r (some (L.next r))) (hflight : M.flight = update L.flight r rest)
    (horigin : M.origin = update L.origin r (update (L.origin r) (L.next r) (some y)))
    (hsent : M.sent = L.sent) (hgot : M.got = L.got) (haccepted : M.accepted = L.accepted)
    (hanswered : M.answered = L.answered) : M.Arrived := by
  have hasked : (y, .connect) ∈ L.flight r := by
    rw [hpop]
    exact List.mem_cons_self
  obtain ⟨hnone, hnot⟩ := hids.asking r y hasked
  -- neither end has got anything yet
  have hgotNew : L.got r (L.next r) = [] := (hids.fresh r _ (Nat.le_refl _)).2
  have hgotOld : L.got (!r) y = [] := by
    refine harrived.got_nil (!r) y fun c hc => ?_
    rcases hc with hc | hc
    · rw [hnot] at hc
      cases hc
    · rw [Bool.not_not] at hc
      exact hnone c hc
  constructor
  · intro s x c h hx
    rw [hgot, hflight, hsent, bytesIn_of_pop hpop]
    rw [hcur, update_apply] at hx
    rcases partner_cases_of_admitted horigin h with h | ⟨hs, hx', hc⟩ | ⟨hs, hx', hc⟩
    · split at hx
      · rename_i hs
        have hlt := (hids.partner_lt h).1
        cases hx
        rw [hs] at hlt
        exact absurd hlt (Nat.lt_irrefl _)
      · exact harrived.got_eq s x c h hx
    · rw [hs, hx', hc, hgotNew, List.nil_append]
      exact harrived.asking r y hasked
    · rw [hs, hx', hc, hgotOld, Bool.not_not, (hids.fresh r _ (Nat.le_refl _)).1, List.nil_append]
      refine bytesIn_eq_nil fun frame hmem => ?_
      have hlt := hids.flight_lt (!r) _ frame hmem
      rw [Bool.not_not] at hlt
      exact Nat.lt_irrefl _ hlt
  · intro s x c h
    rw [hgot, hsent]
    rcases partner_cases_of_admitted horigin h with h | ⟨hs, hx', -⟩ | ⟨hs, hx', -⟩
    · exact harrived.got_prefix s x c h
    · rw [hs, hx', hgotNew]
      exact List.nil_prefix
    · rw [hs, hx', hgotOld]
      exact List.nil_prefix
  · intro s x h
    rw [hgot]
    exact harrived.got_nil s x fun c hc => h c (partner_of_admitted hids horigin hc)
  · intro s c hmem
    rw [hflight] at hmem
    rw [hflight, hsent, bytesIn_of_pop hpop]
    exact harrived.asking s c ((sublist_of_pop hpop s).subset hmem)
  · intro s c hmem
    rw [hflight] at hmem
    rw [haccepted]
    exact harrived.accepted s c ((sublist_of_pop hpop s).subset hmem)
  · intro s x h
    rw [hanswered] at h
    obtain ⟨c, hc, hacc⟩ := harrived.answered s x h
    exact ⟨c, partner_of_admitted hids horigin hc, by rw [haccepted, hacc]⟩

theorem Arrived.of_deliver (harrived : L.Arrived) (hids : L.Ids) (horder : L.Order)
    (hpop : L.flight r = (y, frame) :: rest) (hframe : frame ≠ .connect) (hcur : M.cur = L.cur)
    (hflight : M.flight = update L.flight r rest) (horigin : M.origin = L.origin)
    (hsent : M.sent = L.sent) (hgot : M.got = L.take r L.got (· ++ frame.bytes))
    (haccepted : M.accepted = L.accepted)
    (hanswered : M.answered = L.take r L.answered (· || frame.isAccepted)) : M.Arrived := by
  have hpartner : ∀ s x c, M.Partner s x c ↔ L.Partner s x c := fun s x c => by
    rw [Partner, Partner, horigin]
  have harrival : ∀ x, L.cur r = some x → L.Partner r x y :=
    fun x hx => partner_of_arrival horder hpop hframe hx
  constructor
  · intro s x c h hx
    rw [hpartner] at h
    rw [hcur] at hx
    have hold := harrived.got_eq s x c h hx
    rw [hgot, take, hflight, hsent]
    by_cases hs : s = r
    · subst hs
      have hc : c = y := hids.partner_unique h (harrival x hx)
      rw [hpop, bytesIn_cons, if_pos hc.symm] at hold
      rw [if_pos ⟨rfl, hx⟩, update_self, List.append_assoc, hold]
    · rw [if_neg (fun h => hs h.1), update_of_ne hs, hold]
  · intro s x c h
    rw [hpartner] at h
    rw [hgot, take, hsent]
    split
    · rename_i hx
      obtain ⟨rfl, hx⟩ := hx
      have hc : c = y := hids.partner_unique h (harrival x hx)
      have hold := harrived.got_eq s x c h hx
      rw [hpop, bytesIn_cons, if_pos hc.symm, ← List.append_assoc] at hold
      exact ⟨_, hold⟩
    · exact harrived.got_prefix s x c h
  · intro s x h
    rw [hgot, take]
    split
    · rename_i hx
      obtain ⟨rfl, hx⟩ := hx
      exact absurd ((hpartner s x y).mpr (harrival x hx)) (h y)
    · exact harrived.got_nil s x fun c hc => h c ((hpartner s x c).mpr hc)
  · intro s c hmem
    rw [hflight] at hmem
    have hold := harrived.asking s c ((sublist_of_pop hpop s).subset hmem)
    rw [hflight, hsent, ← hold]
    rw [update_apply] at hmem ⊢
    split at hmem
    · rename_i hs
      subst hs
      have honce := hids.once s
      rw [hpop, List.pairwise_cons] at honce
      rw [if_pos rfl, hpop, bytesIn_cons, if_neg (honce.1 _ hmem rfl), List.nil_append]
    · rw [if_neg (by assumption)]
  · intro s c hmem
    rw [hflight] at hmem
    rw [haccepted]
    exact harrived.accepted s c ((sublist_of_pop hpop s).subset hmem)
  · intro s x h
    rw [hanswered, take] at h
    rw [haccepted]
    split at h
    · rename_i hx
      obtain ⟨rfl, hx⟩ := hx
      rw [Bool.or_eq_true] at h
      rcases h with h | h
      · obtain ⟨c, hc, hacc⟩ := harrived.answered s x h
        exact ⟨c, (hpartner s x c).mpr hc, hacc⟩
      · refine ⟨y, (hpartner s x y).mpr (harrival x hx), harrived.accepted s y ?_⟩
        rw [hpop]
        cases frame with
        | accepted => exact List.mem_cons_self
        | connect | data bytes | close => simp [Frame.isAccepted] at h
    · obtain ⟨c, hc, hacc⟩ := harrived.answered s x h
      exact ⟨c, (hpartner s x c).mpr hc, hacc⟩

theorem Arrived.move (harrived : L.Arrived) (hids : L.Ids) (horder : L.Order) (h : Move L M) :
    M.Arrived := by
  cases h with
  | other r => exact harrived.of_same (fun _ _ h => h) rfl rfl rfl rfl rfl rfl
  | drop r =>
      refine harrived.of_same (fun s c hc => ?_) rfl rfl rfl rfl rfl rfl
      dsimp only at hc
      rw [update_apply] at hc
      split at hc
      · cases hc
      · exact hc
  | connect r hcur hquiet => exact harrived.of_connect hids rfl rfl rfl rfl rfl rfl rfl
  | post r c frame hcur hframe hknown => exact harrived.of_post hframe rfl rfl rfl rfl rfl rfl rfl
  | refuse r y rest hflight hcur => exact harrived.of_refuse hflight rfl rfl rfl rfl rfl rfl rfl
  | admitted r y rest hflight hcur => exact harrived.of_admitted hids hflight rfl rfl rfl rfl rfl rfl rfl
  | deliver r y frame rest hflight hframe =>
      exact harrived.of_deliver hids horder hflight hframe rfl rfl rfl rfl rfl rfl rfl

/-! ### The invariant -/

structure Inv (L : Link β) : Prop where
  ids : L.Ids
  order : L.Order
  arrived : L.Arrived

theorem Inv.initial : (initial : Link β).Inv := ⟨.initial, .initial, .initial⟩

theorem Inv.move (hinv : L.Inv) (h : Move L M) : M.Inv where
  ids := hinv.ids.move h
  order := hinv.order.move hinv.ids h
  arrived := hinv.arrived.move hinv.ids hinv.order h

/-- Any number of moves. -/
abbrev Moves : Link β → Link β → Prop := Relation.ReflTransGen Move

theorem Inv.moves (hinv : L.Inv) (h : Moves L M) : M.Inv := by
  induction h with
  | refl => exact hinv
  | tail _ hmove ih => exact ih.move hmove

end Link

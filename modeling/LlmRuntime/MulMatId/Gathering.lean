import LlmRuntime.MulMatId.Model

/-!
# The lists of the experts

Whatever order the invocations of the gather shader step in, the places an expert's counter has handed out
are the places of an order in which the pairs were met: `Holds` says which pairs those are, by where each
invocation stands, and which of them are written.
-/

namespace MulMatId

open Kernel

namespace Invocation

/-- The ids an invocation has dealt with are those of its stride below this. -/
def bound (total : Nat) : Invocation → Nat
  | enter => 0
  | cleared => 0
  | loop i => i
  | found i => i
  | claimed i _ => i + 1
  | half i _ => i + 1
  | gathered => total
  | closing => total
  | left => total

/-- Past the first barrier. -/
def Started : Invocation → Bool
  | enter => false
  | cleared => false
  | _ => true

/-- Past the second barrier. -/
def Passed : Invocation → Bool
  | closing => true
  | left => true
  | _ => false

end Invocation

namespace Gather

/-- A workgroup of the expert `e` whose counter has handed out the places of `order`. -/
structure Holds (K : Gather) (e : Nat) (order : List Nat) (count : Nat) (inv : Nat → Invocation)
    (T : Tables) : Prop where
  nodup : order.Nodup
  mem_iff : ∀ j, j ∈ order ↔ j < K.total ∧ K.expert j = e ∧ j < (inv (j % K.wgSize)).bound K.total
  count_eq : inv 0 ≠ .enter → count = order.length
  loop_mod : ∀ t < K.wgSize, ∀ i, inv t = .loop i → i % K.wgSize = t
  found_mod : ∀ t < K.wgSize, ∀ i, inv t = .found i → i % K.wgSize = t ∧ i < K.total ∧ K.expert i = e
  claimed_at : ∀ t < K.wgSize, ∀ i pos, inv t = .claimed i pos → i % K.wgSize = t ∧ order[pos]? = some i
  half_at : ∀ t < K.wgSize, ∀ i pos, inv t = .half i pos → i % K.wgSize = t ∧ order[pos]? = some i
  used_written : ∀ pos i, order[pos]? = some i → inv (i % K.wgSize) ≠ .claimed i pos →
    T.globalGatheredExpertUsed (e * K.params.nTokens + pos) = i % K.params.nExpertUsed
  token_written : ∀ pos i, order[pos]? = some i → inv (i % K.wgSize) ≠ .claimed i pos →
    inv (i % K.wgSize) ≠ .half i pos →
    T.globalGatheredTokens (e * K.params.nTokens + pos) = i / K.params.nExpertUsed
  first_barrier : ∀ t < K.wgSize, (inv t).Started → ∀ t' < K.wgSize, inv t' ≠ .enter
  second_barrier : ∀ t < K.wgSize, (inv t).Passed → ∀ t' < K.wgSize, (inv t').IsPast
  closing_zero : ∀ t < K.wgSize, inv t = .closing → t = 0
  count_written : inv 0 = .left → T.gatheredCountIds e = order.length

variable {K : Gather} {e count t i pos : Nat} {order : List Nat} {inv : Nat → Invocation} {T : Tables}

namespace Holds

theorem initial (K : Gather) (e count : Nat) (T : Tables) :
    Holds K e [] count (fun _ => .enter) T where
  nodup := List.nodup_nil
  mem_iff j := by simp [Invocation.bound]
  count_eq h := absurd rfl h
  loop_mod t _ i h := by cases h
  found_mod t _ i h := by cases h
  claimed_at t _ i pos h := by cases h
  half_at t _ i pos h := by cases h
  used_written pos i h := by cases h
  token_written pos i h := by cases h
  first_barrier t _ h := by cases h
  second_barrier t _ h := by cases h
  closing_zero t _ h := by cases h
  count_written h := by cases h

/-- An invocation that moves on without a new place has no pair of the expert between where it stood and
where it stands. -/
theorem mem_iff_move {a : Invocation} (h : Holds K e order count inv T)
    (hbound : ∀ j, j % K.wgSize = t → j < K.total → K.expert j = e →
      (j < (inv t).bound K.total ↔ j < a.bound K.total)) (j : Nat) :
    j ∈ order ↔ j < K.total ∧ K.expert j = e ∧
      j < (Function.update inv t a (j % K.wgSize)).bound K.total := by
  rw [h.mem_iff]
  by_cases hj : j % K.wgSize = t
  · rw [hj, Function.update_self]
    exact and_congr_right fun hlt => and_congr_right fun hexp => hbound j hj hlt hexp
  · rw [Function.update_of_ne hj]

theorem clear (h : Holds K e order count inv T) (ht : t < K.wgSize) (hat : inv t = .enter) :
    Holds K e order (if t = 0 then 0 else count) (Function.update inv t .cleared) T := by
  -- nobody is past the first barrier, so no place has been handed out
  have hnone : order = [] := by
    refine List.eq_nil_iff_forall_not_mem.mpr fun j hj => ?_
    have hlt : j % K.wgSize < K.wgSize := Nat.mod_lt _ (by omega)
    have hbound := ((h.mem_iff j).mp hj).2.2
    cases hinv : inv (j % K.wgSize) with
    | enter => simp [hinv, Invocation.bound] at hbound
    | cleared => simp [hinv, Invocation.bound] at hbound
    | _ => exact absurd hat (h.first_barrier _ hlt (by rw [hinv]; rfl) t ht)
  subst hnone
  constructor
  case mem_iff => exact h.mem_iff_move fun j _ _ _ => by rw [hat]; rfl
  all_goals grind -ring -linarith [Function.update_apply, Holds, Invocation.Started, Invocation.Passed, Invocation.IsPast]

theorem start (h : Holds K e order count inv T) (ht : t < K.wgSize) (hat : inv t = .cleared)
    (hall : ∀ t' < K.wgSize, inv t' ≠ .enter) :
    Holds K e order count (Function.update inv t (.loop t)) T := by
  have hmod : t % K.wgSize = t := Nat.mod_eq_of_lt ht
  constructor
  case mem_iff =>
    refine h.mem_iff_move fun j hj _ _ => ?_
    have hle : t ≤ j := hj ▸ Nat.mod_le j K.wgSize
    rw [hat]
    simp only [Invocation.bound]
    omega
  all_goals grind -ring -linarith [Function.update_apply, Holds, Invocation.Started, Invocation.Passed, Invocation.IsPast]

/-- Two indices of one stride that are less than a stride apart. -/
theorem eq_of_mod {w i j : Nat} (hij : i ≤ j) (hlt : j < i + w) (hmod : j % w = i % w) : j = i := by
  have hzero : (j - i) % w = 0 := Nat.sub_mod_eq_zero_of_mod_eq hmod
  rw [Nat.mod_eq_of_lt (by omega)] at hzero
  omega

theorem skip (h : Holds K e order count inv T) (ht : t < K.wgSize) (hat : inv t = .loop i)
    (hother : K.expert i ≠ e) : Holds K e order count (Function.update inv t (.loop (i + K.wgSize))) T := by
  have hmod : i % K.wgSize = t := h.loop_mod t ht i hat
  have hmod' : (i + K.wgSize) % K.wgSize = t := (Nat.add_mod_right i K.wgSize).trans hmod
  constructor
  case mem_iff =>
    refine h.mem_iff_move fun j hj _ hexp => ?_
    rw [hat]
    simp only [Invocation.bound]
    refine ⟨fun hlt => by omega, fun hlt => ?_⟩
    by_contra hge
    exact hother (eq_of_mod (by omega) hlt (hj.trans hmod.symm) ▸ hexp)
  all_goals grind -ring -linarith [Function.update_apply, Holds, Invocation.Started, Invocation.Passed, Invocation.IsPast]

theorem find (h : Holds K e order count inv T) (ht : t < K.wgSize) (hat : inv t = .loop i)
    (hi : i < K.total) (hown : K.expert i = e) :
    Holds K e order count (Function.update inv t (.found i)) T := by
  have hmod : i % K.wgSize = t := h.loop_mod t ht i hat
  constructor
  case mem_iff => exact h.mem_iff_move fun j _ _ _ => by rw [hat]; rfl
  all_goals grind -ring -linarith [Function.update_apply, Holds, Invocation.Started, Invocation.Passed, Invocation.IsPast]

/-- The place taken is the next one, and the pair has no other. -/
theorem claim (h : Holds K e order count inv T) (ht : t < K.wgSize) (hat : inv t = .found i) :
    Holds K e (order ++ [i]) (count + 1) (Function.update inv t (.claimed i count)) T := by
  obtain ⟨hmod, hi, hown⟩ := h.found_mod t ht i hat
  have hzero : inv 0 ≠ .enter := h.first_barrier t ht (by rw [hat]; rfl) 0 (by omega)
  have hcount : count = order.length := h.count_eq hzero
  have hfresh : i ∉ order := by
    intro hmem
    have hbound := ((h.mem_iff i).mp hmem).2.2
    rw [hmod, hat] at hbound
    exact Nat.lt_irrefl _ hbound
  have hold : ∀ pos j, order[pos]? = some j → pos < order.length ∧ j ≠ i := by
    intro pos j hget
    obtain ⟨hlt, rfl⟩ := List.getElem?_eq_some_iff.mp hget
    exact ⟨hlt, fun heq => hfresh (heq ▸ List.getElem_mem hlt)⟩
  have hget : ∀ pos j, (order ++ [i])[pos]? = some j ↔
      order[pos]? = some j ∨ pos = order.length ∧ j = i := by
    intro pos j
    grind -ring -linarith
  constructor
  case mem_iff =>
    intro j
    rw [List.mem_append, List.mem_singleton, h.mem_iff]
    by_cases hj : j % K.wgSize = t
    · rw [hj, hat, Function.update_self]
      simp only [Invocation.bound]
      grind -ring -linarith
    · rw [Function.update_of_ne hj]
      exact ⟨fun h => h.resolve_right fun heq => hj (heq ▸ hmod), Or.inl⟩
  case nodup =>
    exact List.nodup_append.mpr ⟨h.nodup, by simp, fun a ha b hb hab =>
      hfresh (List.mem_singleton.mp hb ▸ hab ▸ ha)⟩
  all_goals grind -ring -linarith [Function.update_apply, Holds, Invocation.Started, Invocation.Passed, Invocation.IsPast]

theorem writeUsed (h : Holds K e order count inv T) (ht : t < K.wgSize) (hat : inv t = .claimed i pos) :
    Holds K e order count (Function.update inv t (.half i pos))
      { T with
        globalGatheredExpertUsed := Function.update T.globalGatheredExpertUsed
          (e * K.params.nTokens + pos) (i % K.params.nExpertUsed) } := by
  obtain ⟨hmod, hpos⟩ := h.claimed_at t ht i pos hat
  constructor
  case mem_iff => exact h.mem_iff_move fun j _ _ _ => by rw [hat]; rfl
  all_goals grind -ring -linarith [Function.update_apply, Holds, Invocation.Started, Invocation.Passed, Invocation.IsPast]

theorem writeToken (h : Holds K e order count inv T) (ht : t < K.wgSize) (hat : inv t = .half i pos) :
    Holds K e order count (Function.update inv t (.loop (i + K.wgSize)))
      { T with
        globalGatheredTokens := Function.update T.globalGatheredTokens
          (e * K.params.nTokens + pos) (i / K.params.nExpertUsed) } := by
  obtain ⟨hmod, hpos⟩ := h.half_at t ht i pos hat
  have hmod' : (i + K.wgSize) % K.wgSize = t := (Nat.add_mod_right i K.wgSize).trans hmod
  constructor
  case mem_iff =>
    refine h.mem_iff_move fun j hj _ _ => ?_
    rw [hat]
    simp only [Invocation.bound]
    refine ⟨fun hlt => by omega, fun hlt => ?_⟩
    by_contra hge
    have heq := eq_of_mod (by omega) hlt (hj.trans hmod.symm)
    omega
  all_goals grind -ring -linarith [Function.update_apply, Holds, Invocation.Started, Invocation.Passed, Invocation.IsPast]

theorem endLoop (h : Holds K e order count inv T) (ht : t < K.wgSize) (hat : inv t = .loop i)
    (hi : ¬ i < K.total) : Holds K e order count (Function.update inv t .gathered) T := by
  constructor
  case mem_iff =>
    refine h.mem_iff_move fun j _ hlt _ => ?_
    rw [hat]
    simp only [Invocation.bound]
    omega
  all_goals grind -ring -linarith [Function.update_apply, Holds, Invocation.Started, Invocation.Passed, Invocation.IsPast]

theorem pass (h : Holds K e order count inv T) (ht : t < K.wgSize) (hat : inv t = .gathered)
    (hall : ∀ t' < K.wgSize, (inv t').IsPast) :
    Holds K e order count (Function.update inv t (if t = 0 then .closing else .left)) T := by
  constructor
  case mem_iff =>
    refine h.mem_iff_move fun j _ _ _ => ?_
    rw [hat]
    split <;> rfl
  all_goals grind -ring -linarith [Function.update_apply, Holds, Invocation.Started, Invocation.Passed, Invocation.IsPast]

theorem report (h : Holds K e order count inv T) (ht : t < K.wgSize) (hat : inv t = .closing) :
    Holds K e order count (Function.update inv t .left)
      { T with gatheredCountIds := Function.update T.gatheredCountIds e count } := by
  have hzero : t = 0 := h.closing_zero t ht hat
  have hcount : count = order.length := h.count_eq (by rw [← hzero, hat]; simp)
  constructor
  case mem_iff => exact h.mem_iff_move fun j _ _ _ => by rw [hat]; rfl
  all_goals grind -ring -linarith [Function.update_apply, Holds, Invocation.Started, Invocation.Passed, Invocation.IsPast]

/-- The places handed out go to pairs of the expert, each of them at most once. -/
theorem length_le (h : Holds K e order count inv T) : order.length ≤ (K.routed e).length := by
  have hsub : order ⊆ (List.range K.total).filter fun i => K.expert i = e := by
    intro j hj
    obtain ⟨hlt, hexp, _⟩ := (h.mem_iff j).mp hj
    exact List.mem_filter.mpr ⟨List.mem_range.mpr hlt, decide_eq_true hexp⟩
  rw [routed, List.length_map]
  exact (List.subperm_of_subset h.nodup hsub).length_le

/-- What is kept of the tables outside an expert's part of them does not matter to it. -/
theorem frame {T' : Tables} (h : Holds K e order count inv T) (hroom : (K.routed e).length ≤ K.params.nTokens)
    (hused : ∀ pos < K.params.nTokens, T'.globalGatheredExpertUsed (e * K.params.nTokens + pos) =
      T.globalGatheredExpertUsed (e * K.params.nTokens + pos))
    (htoken : ∀ pos < K.params.nTokens, T'.globalGatheredTokens (e * K.params.nTokens + pos) =
      T.globalGatheredTokens (e * K.params.nTokens + pos))
    (hcount : T'.gatheredCountIds e = T.gatheredCountIds e) : Holds K e order count inv T' := by
  have hpos : ∀ pos i, order[pos]? = some i → pos < K.params.nTokens := by
    intro pos i hget
    obtain ⟨hlt, _⟩ := List.getElem?_eq_some_iff.mp hget
    have hlen := h.length_le
    omega
  exact { h with
    used_written := fun pos i hget hinv =>
      (hused pos (hpos pos i hget)).trans (h.used_written pos i hget hinv)
    token_written := fun pos i hget hinv hinv' =>
      (htoken pos (hpos pos i hget)).trans (h.token_written pos i hget hinv hinv')
    count_written := fun hinv => hcount.trans (h.count_written hinv) }

end Holds

/-! ### The whole dispatch -/

/-- The sizes for which the shader's 32 bit arithmetic is arithmetic, and no expert has more pairs than its
part of the tables has places. -/
structure Fits (K : Gather) : Prop where
  wgSize_pos : 0 < K.wgSize
  covers : K.params.nExpert ≤ K.numWgX * K.numWgY
  grid : K.numWgX * K.numWgY ≤ 2 ^ 32
  pairs : K.params.nExpertUsed * K.params.nTokens + K.wgSize ≤ 2 ^ 32
  table : K.params.nExpert * K.params.nTokens ≤ 2 ^ 32
  room : ∀ e < K.params.nExpert, (K.routed e).length ≤ K.params.nTokens

theorem Fits.total_eq (hK : K.Fits) : K.total = K.params.nExpertUsed * K.params.nTokens := by
  have hpairs := hK.pairs
  have hpos := hK.wgSize_pos
  exact u32_of_lt (by omega)

theorem Fits.next_eq (hK : K.Fits) (hi : i < K.total) : u32 (i + K.wgSize) = i + K.wgSize := by
  have hpairs := hK.pairs
  rw [hK.total_eq] at hi
  exact u32_of_lt (by omega)

theorem Fits.ownExpert_eq (hK : K.Fits) {wg : Nat × Nat} (hwg : K.InGrid wg) :
    K.ownExpert wg = wg.2 * K.numWgX + wg.1 := by
  obtain ⟨hx, hy⟩ := hwg
  have hgrid := hK.grid
  have hlast : (wg.2 + 1) * K.numWgX ≤ K.numWgY * K.numWgX := Nat.mul_le_mul_right _ hy
  rw [Nat.succ_mul, Nat.mul_comm K.numWgY] at hlast
  exact u32_of_lt (by omega)

theorem Fits.ownExpert_injective (hK : K.Fits) {wg wg' : Nat × Nat} (hwg : K.InGrid wg)
    (hwg' : K.InGrid wg') (h : K.ownExpert wg = K.ownExpert wg') : wg = wg' := by
  rw [hK.ownExpert_eq hwg, hK.ownExpert_eq hwg'] at h
  obtain ⟨hy, hx⟩ := eq_of_mul_add_eq hwg.1 hwg'.1 h
  exact Prod.ext hx hy

/-- The workgroup an expert is assigned to. -/
theorem Fits.exists_wg (hK : K.Fits) (he : e < K.params.nExpert) : ∃ wg, K.InGrid wg ∧ K.ownExpert wg = e := by
  have hlt : e < K.numWgX * K.numWgY := Nat.lt_of_lt_of_le he hK.covers
  have hpos : 0 < K.numWgX := by
    rcases Nat.eq_zero_or_pos K.numWgX with hzero | hpos
    · rw [hzero, Nat.zero_mul] at hlt
      omega
    · exact hpos
  have hwg : K.InGrid (e % K.numWgX, e / K.numWgX) := ⟨Nat.mod_lt e hpos, Nat.div_lt_of_lt_mul hlt⟩
  refine ⟨_, hwg, ?_⟩
  rw [hK.ownExpert_eq hwg]
  exact Nat.div_add_mod' e K.numWgX

/-- What a step of the workgroup `wg` leaves as it was. -/
structure Within (K : Gather) (wg : Nat × Nat) (s s' : GatherState) : Prop where
  workgroup : ∀ wg', wg' ≠ wg → s'.workgroup wg' = s.workgroup wg'
  used : ∀ i, (∀ pos < K.params.nTokens, i ≠ K.ownExpert wg * K.params.nTokens + pos) →
    s'.tables.globalGatheredExpertUsed i = s.tables.globalGatheredExpertUsed i
  tokens : ∀ i, (∀ pos < K.params.nTokens, i ≠ K.ownExpert wg * K.params.nTokens + pos) →
    s'.tables.globalGatheredTokens i = s.tables.globalGatheredTokens i
  counts : ∀ e, e ≠ K.ownExpert wg → s'.tables.gatheredCountIds e = s.tables.gatheredCountIds e

/-- A workgroup of an expert. -/
def Serves (K : Gather) (s : GatherState) (wg : Nat × Nat) : Prop :=
  ∃ order, Holds K (K.ownExpert wg) order (s.workgroup wg).count (s.workgroup wg).invocation s.tables

/-- A workgroup past the last expert. -/
def Idles (K : Gather) (s : GatherState) (wg : Nat × Nat) : Prop :=
  ∀ t < K.wgSize, (s.workgroup wg).invocation t = .enter ∨ (s.workgroup wg).invocation t = .left

theorem within_moveTo (K : Gather) (s : GatherState) (wg : Nat × Nat) (t : Nat) (a : Invocation) :
    Within K wg s (s.moveTo wg t a) where
  workgroup _ h := s.workgroup_moveTo_of_ne wg t a h
  used _ _ := rfl
  tokens _ _ := rfl
  counts _ _ := rfl

theorem within_setCount (K : Gather) (s : GatherState) (wg : Nat × Nat) (n t : Nat) (a : Invocation) :
    Within K wg s ((s.setCount wg n).moveTo wg t a) where
  workgroup _ h := ((s.setCount wg n).workgroup_moveTo_of_ne wg t a h).trans (s.workgroup_setCount_of_ne wg n h)
  used _ _ := rfl
  tokens _ _ := rfl
  counts _ _ := rfl

variable {s s' : GatherState} {wg : Nat × Nat}

/-- A step of a workgroup that serves an expert, whatever the other workgroups do. -/
theorem Serves.advance (hK : K.Fits) (hown : K.ownExpert wg < K.params.nExpert)
    (ht : t < K.wgSize) (h : K.Serves s wg)
    (hstep : K.advance s wg t ((s.workgroup wg).invocation t) = some s') :
    K.Serves s' wg ∧ Within K wg s s' := by
  obtain ⟨order, h⟩ := h
  have hroom := hK.room _ hown
  -- a place an invocation holds is within the expert's part of the tables
  have hplace : ∀ i pos, order[pos]? = some i →
      pos < K.params.nTokens ∧ K.gatheredId wg pos = K.ownExpert wg * K.params.nTokens + pos := by
    intro i pos hget
    obtain ⟨hlt, _⟩ := List.getElem?_eq_some_iff.mp hget
    have hlen := h.length_le
    have hpos : pos < K.params.nTokens := by omega
    have hlast : (K.ownExpert wg + 1) * K.params.nTokens ≤ K.params.nExpert * K.params.nTokens :=
      Nat.mul_le_mul_right _ hown
    have htable := hK.table
    rw [Nat.succ_mul] at hlast
    exact ⟨hpos, u32_of_lt (by omega)⟩
  cases hat : (s.workgroup wg).invocation t with
  | enter =>
      rw [hat, Gather.advance, if_pos hown, Option.some.injEq] at hstep
      subst hstep
      refine ⟨⟨order, ?_⟩, ?_⟩
      · have hclear := h.clear ht hat
        split
        case isTrue hzero => simpa [hzero] using hclear
        case isFalse hzero => simpa [hzero] using hclear
      · split
        · exact within_setCount ..
        · exact within_moveTo ..
  | cleared =>
      rw [hat, Gather.advance] at hstep
      split at hstep
      case isTrue hall =>
        cases hstep
        exact ⟨⟨order, by simpa using h.start ht hat hall⟩, within_moveTo ..⟩
      case isFalse => cases hstep
  | loop i =>
      rw [hat, Gather.advance] at hstep
      split at hstep
      case isTrue hi =>
        split at hstep
        case isTrue hexp =>
          cases hstep
          exact ⟨⟨order, by simpa using h.find ht hat hi hexp.symm⟩, within_moveTo ..⟩
        case isFalse hexp =>
          rw [hK.next_eq hi] at hstep
          cases hstep
          exact ⟨⟨order, by simpa using h.skip ht hat (Ne.symm hexp)⟩, within_moveTo ..⟩
      case isFalse hi =>
        cases hstep
        exact ⟨⟨order, by simpa using h.endLoop ht hat hi⟩, within_moveTo ..⟩
  | found i =>
      rw [hat, Gather.advance, Option.some.injEq] at hstep
      have hclaim := h.claim ht hat
      have hlen := hclaim.length_le
      have hcount : (s.workgroup wg).count = order.length :=
        h.count_eq (h.first_barrier t ht (by rw [hat]; rfl) 0 hK.wgSize_pos)
      have htotal : (K.routed (K.ownExpert wg)).length ≤ K.total := by
        rw [routed, List.length_map]
        exact (List.length_filter_le ..).trans (by rw [List.length_range])
      have hsmall : (s.workgroup wg).count + 1 < 2 ^ 32 := by
        have hpairs := hK.pairs
        have hpos := hK.wgSize_pos
        rw [List.length_append, List.length_singleton] at hlen
        rw [hK.total_eq] at htotal
        omega
      rw [u32_of_lt hsmall] at hstep
      subst hstep
      exact ⟨⟨order ++ [i], by simpa using hclaim⟩, within_setCount ..⟩
  | claimed i pos =>
      rw [hat, Gather.advance, Option.some.injEq] at hstep
      obtain ⟨hpos, hid⟩ := hplace i pos (h.claimed_at t ht i pos hat).2
      rw [hid] at hstep
      subst hstep
      refine ⟨⟨order, by simpa [GatherState.writeExpertUsed] using h.writeUsed ht hat⟩, ?_⟩
      exact {
        workgroup := fun wg' hne => GatherState.workgroup_moveTo_of_ne _ _ _ _ hne
        used := fun j hj => Function.update_of_ne (hj pos hpos) ..
        tokens := fun _ _ => rfl
        counts := fun _ _ => rfl }
  | half i pos =>
      rw [hat, Gather.advance, Option.some.injEq] at hstep
      obtain ⟨hmod, hget⟩ := h.half_at t ht i pos hat
      obtain ⟨hpos, hid⟩ := hplace i pos hget
      have hi : i < K.total := ((h.mem_iff i).mp (List.mem_of_getElem? hget)).1
      rw [hid, hK.next_eq hi] at hstep
      subst hstep
      refine ⟨⟨order, by simpa [GatherState.writeToken] using h.writeToken ht hat⟩, ?_⟩
      exact {
        workgroup := fun wg' hne => GatherState.workgroup_moveTo_of_ne _ _ _ _ hne
        used := fun _ _ => rfl
        tokens := fun j hj => Function.update_of_ne (hj pos hpos) ..
        counts := fun _ _ => rfl }
  | gathered =>
      rw [hat, Gather.advance] at hstep
      split at hstep
      case isTrue hall =>
        cases hstep
        exact ⟨⟨order, by simpa using h.pass ht hat hall⟩, within_moveTo ..⟩
      case isFalse => cases hstep
  | closing =>
      rw [hat, Gather.advance, Option.some.injEq] at hstep
      subst hstep
      refine ⟨⟨order, by simpa [GatherState.writeCountIds] using h.report ht hat⟩, ?_⟩
      exact {
        workgroup := fun wg' hne => GatherState.workgroup_moveTo_of_ne _ _ _ _ hne
        used := fun _ _ => rfl
        tokens := fun _ _ => rfl
        counts := fun e he => Function.update_of_ne he .. }
  | left =>
      rw [hat] at hstep
      cases hstep

theorem Idles.advance (hown : ¬ K.ownExpert wg < K.params.nExpert) (ht : t < K.wgSize) (h : K.Idles s wg)
    (hstep : K.advance s wg t ((s.workgroup wg).invocation t) = some s') :
    s' = s.moveTo wg t .left ∧ (s.workgroup wg).invocation t = .enter ∧ K.Idles s' wg := by
  obtain hat | hat := h t ht
  · rw [hat, Gather.advance, if_neg hown, Option.some.injEq] at hstep
    subst hstep
    refine ⟨rfl, hat, fun t' ht' => ?_⟩
    rw [GatherState.workgroup_moveTo]
    by_cases heq : t' = t
    · exact Or.inr (heq ▸ Function.update_self ..)
    · simpa [Function.update_of_ne heq] using h t' ht'
  · rw [hat] at hstep
    cases hstep

/-- Each workgroup of the grid serves its expert, or has none and idles. -/
def Sound (K : Gather) (s : GatherState) : Prop :=
  ∀ wg, K.InGrid wg → (K.ownExpert wg < K.params.nExpert → K.Serves s wg) ∧
    (¬ K.ownExpert wg < K.params.nExpert → K.Idles s wg)

theorem Serves.of_within (hK : K.Fits) {wg' : Nat × Nat} (hwg : K.InGrid wg) (hwg' : K.InGrid wg')
    (hne : wg' ≠ wg) (hown : K.ownExpert wg' < K.params.nExpert) (h : K.Serves s wg')
    (hwithin : Within K wg s s') : K.Serves s' wg' := by
  obtain ⟨order, h⟩ := h
  have hexpert : K.ownExpert wg' ≠ K.ownExpert wg := fun heq => hne (hK.ownExpert_injective hwg' hwg heq)
  -- the parts of two experts do not meet
  have hapart : ∀ pos < K.params.nTokens, ∀ pos' < K.params.nTokens,
      K.ownExpert wg' * K.params.nTokens + pos ≠ K.ownExpert wg * K.params.nTokens + pos' :=
    fun pos hpos pos' hpos' heq => hexpert (eq_of_mul_add_eq hpos hpos' heq).1
  refine ⟨order, ?_⟩
  rw [hwithin.workgroup wg' hne]
  exact h.frame (hK.room _ hown) (fun pos hpos => hwithin.used _ (hapart pos hpos))
    (fun pos hpos => hwithin.tokens _ (hapart pos hpos)) (hwithin.counts _ hexpert)

theorem Sound.step (hK : K.Fits) {e : (Nat × Nat) × Nat} (h : K.Sound s) (hstep : K.step s e = some s') :
    K.Sound s' := by
  rw [Gather.step] at hstep
  split at hstep
  case isFalse => cases hstep
  case isTrue hin =>
    obtain ⟨hwg, ht⟩ := hin
    obtain ⟨hserves, hidles⟩ := h e.1 hwg
    have hboth : ((K.ownExpert e.1 < K.params.nExpert → K.Serves s' e.1) ∧
        (¬ K.ownExpert e.1 < K.params.nExpert → K.Idles s' e.1)) ∧ Within K e.1 s s' := by
      by_cases hown : K.ownExpert e.1 < K.params.nExpert
      · obtain ⟨hs', hwithin⟩ := (hserves hown).advance hK hown ht hstep
        exact ⟨⟨fun _ => hs', fun hn => absurd hown hn⟩, hwithin⟩
      · obtain ⟨rfl, _, hs'⟩ := (hidles hown).advance hown ht hstep
        exact ⟨⟨fun hy => absurd hy hown, fun _ => hs'⟩, within_moveTo ..⟩
    intro wg hwg'
    by_cases hne : wg = e.1
    · exact hne ▸ hboth.1
    · obtain ⟨hserves, hidles⟩ := h wg hwg'
      refine ⟨fun hown => (hserves hown).of_within hK hwg hwg' hne hown hboth.2, fun hown t ht => ?_⟩
      rw [hboth.2.workgroup wg hne]
      exact hidles hown t ht

theorem sound_of_reachable (hK : K.Fits) {counts : Nat × Nat → Nat} (h : (K.machine counts T).Reachable s) :
    K.Sound s := by
  refine h.keeps (P := K.Sound) ?_ fun s e s' hs hstep => Sound.step hK hs hstep
  exact fun wg _ => ⟨fun _ => ⟨[], .initial ..⟩, fun _ _ _ => Or.inl rfl⟩

/-- A workgroup that has left has listed its expert's pairs. -/
theorem Holds.listed_perm (hK : K.Fits) (h : Holds K e order count inv T)
    (hleft : ∀ t < K.wgSize, inv t = .left) :
    T.gatheredCountIds e = (K.routed e).length ∧ (K.listed T e).Perm (K.routed e) := by
  have hat : ∀ j, inv (j % K.wgSize) = .left := fun j => hleft _ (Nat.mod_lt j hK.wgSize_pos)
  have hperm : order.Perm ((List.range K.total).filter fun i => K.expert i = e) := by
    refine (List.perm_ext_iff_of_nodup h.nodup (List.nodup_range.filter _)).mpr fun j => ?_
    rw [h.mem_iff, hat, List.mem_filter, List.mem_range, decide_eq_true_eq]
    simp only [Invocation.bound]
    exact ⟨fun ⟨hlt, hexp, _⟩ => ⟨hlt, hexp⟩, fun ⟨hlt, hexp⟩ => ⟨hlt, hexp, hlt⟩⟩
  have hcount : T.gatheredCountIds e = order.length := h.count_written (hleft 0 hK.wgSize_pos)
  have hlisted : K.listed T e = order.map fun i => (i / K.params.nExpertUsed, i % K.params.nExpertUsed) := by
    rw [listed, hcount]
    refine List.ext_getElem (by simp) fun pos hpos hpos' => ?_
    rw [List.length_map] at hpos'
    have hget : order[pos]? = some order[pos] := List.getElem?_eq_getElem hpos'
    simp only [List.getElem_map, List.getElem_range]
    rw [h.used_written pos _ hget (by rw [hat]; simp),
      h.token_written pos _ hget (by rw [hat]; simp) (by rw [hat]; simp)]
  rw [hcount, hlisted, routed, List.length_map]
  exact ⟨hperm.length_eq, hperm.map _⟩

/-- **The gather shader lists every expert's pairs.** Whatever order the invocations of all the workgroups
step in and whatever the tables held, once all of them have left, the count of each expert is the number
of the pairs of a token and a slot that name it, and its part of the tables lists those pairs, each once. -/
theorem gather_lists (hK : K.Fits) {counts : Nat × Nat → Nat} (h : (K.machine counts T).Reachable s)
    (hfinished : K.Finished s) (he : e < K.params.nExpert) :
    s.tables.gatheredCountIds e = (K.routed e).length ∧ (K.listed s.tables e).Perm (K.routed e) := by
  obtain ⟨wg, hwg, rfl⟩ := hK.exists_wg he
  obtain ⟨order, hholds⟩ := (sound_of_reachable hK h wg hwg).1 he
  exact hholds.listed_perm hK (hfinished wg hwg)

end Gather

end MulMatId

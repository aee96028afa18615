import LlmRuntime.MulMatId.Tiles
import Mathlib.Data.List.FinRange
import Mathlib.Data.List.ProdSigma

/-!
# What the product writes

Every write of a dispatch puts one element of the product where it belongs, and every element is written.
-/

namespace MulMatId

open Kernel

namespace Tiling

variable {L : Tiling}

/-- The invocation that holds a place of the tile. -/
theorem exists_invocation {i j : Nat} (hi : i < L.rows) (hj : j < L.cols) :
    ∃ t < L.totalWorkgroupSize, ∃ tn < L.tileN, ∃ tm < L.tileM,
      L.getLocalM t * L.tileM + tm = i ∧ L.getLocalN t * L.tileN + tn = j := by
  have hM : i / L.tileM < L.workgroupSizeM :=
    Nat.div_lt_of_lt_mul (by rw [Nat.mul_comm]; exact hi)
  have hN : j / L.tileN < L.workgroupSizeN :=
    Nat.div_lt_of_lt_mul (by rw [Nat.mul_comm]; exact hj)
  have hlast : (j / L.tileN + 1) * L.workgroupSizeM ≤ L.workgroupSizeN * L.workgroupSizeM :=
    Nat.mul_le_mul_right _ hN
  rw [Nat.succ_mul, Nat.mul_comm L.workgroupSizeN] at hlast
  refine ⟨j / L.tileN * L.workgroupSizeM + i / L.tileM, ?_, j % L.tileN, Nat.mod_lt _ L.tileN_pos,
    i % L.tileM, Nat.mod_lt _ L.tileM_pos, ?_, ?_⟩
  · rw [totalWorkgroupSize]
    omega
  · rw [getLocalM, Nat.mul_comm (j / L.tileN), Nat.mul_add_mod, Nat.mod_eq_of_lt hM, Nat.div_add_mod']
  · rw [getLocalN, Nat.mul_comm (j / L.tileN), Nat.mul_add_div L.workgroupSizeM_pos, Nat.div_eq_of_lt hM,
      Nat.add_zero, Nat.div_add_mod']

end Tiling

namespace Product

variable {S H D : Type*} {P : Product S H D} {A : Nat → Nat → Nat → H} {names : Nat → Nat → Nat}

/-- The tables list, for each expert, the pairs of a token and a slot that name it. -/
structure Lists (P : Product S H D) (names : Nat → Nat → Nat) : Prop where
  sound : ∀ e < P.params.nExpert, ∀ p < P.tables.gatheredCountIds e,
    P.tokenAt e p < P.params.nTokens ∧ P.slotAt e p < P.params.nExpertUsed ∧
      names (P.tokenAt e p) (P.slotAt e p) = e
  complete : ∀ token < P.params.nTokens, ∀ slot < P.params.nExpertUsed,
    names token slot < P.params.nExpert → ∃ p < P.tables.gatheredCountIds (names token slot),
      P.tokenAt (names token slot) p = token ∧ P.slotAt (names token slot) p = slot
  once : ∀ e < P.params.nExpert, ∀ p < P.tables.gatheredCountIds e, ∀ p' < P.tables.gatheredCountIds e,
    P.tokenAt e p = P.tokenAt e p' → P.slotAt e p = P.slotAt e p' → p = p'

/-- Where the element of a row of a pair's product stands in `dst`. -/
def dstIndex (P : Product S H D) (token slot row : Nat) : Nat :=
  P.params.offsetDst + token * (P.params.m * P.params.nExpertUsed) + slot * P.params.m + row

/-- The element of the product of an expert's matrix and a pair's row of `src1`: the sum over all columns,
in their order. -/
def element (P : Product S H D) (A : Nat → Nat → Nat → H) (e token slot row : Nat) : D :=
  P.format.storeVal (P.sumOver A (u32 (P.params.offsetSrc0 + e * P.params.stride02)) row token slot
    (List.range P.params.k) P.format.accZero)

theorem dstIndex_lt (P : Product S H D) {token slot row : Nat} (htoken : token < P.params.nTokens)
    (hslot : slot < P.params.nExpertUsed) (hrow : row < P.params.m) :
    P.dstIndex token slot row <
      P.params.offsetDst + P.params.nTokens * (P.params.m * P.params.nExpertUsed) := by
  have hlast : (token + 1) * (P.params.m * P.params.nExpertUsed) ≤
      P.params.nTokens * (P.params.m * P.params.nExpertUsed) := Nat.mul_le_mul_right _ htoken
  have hlast' : (slot + 1) * P.params.m ≤ P.params.nExpertUsed * P.params.m := Nat.mul_le_mul_right _ hslot
  rw [Nat.succ_mul] at hlast hlast'
  rw [Nat.mul_comm P.params.nExpertUsed] at hlast'
  rw [dstIndex]
  omega

/-- Two elements of the result have two places. -/
theorem dstIndex_injective {token slot row token' slot' row' : Nat} (hslot : slot < P.params.nExpertUsed)
    (hslot' : slot' < P.params.nExpertUsed) (hrow : row < P.params.m) (hrow' : row' < P.params.m)
    (h : P.dstIndex token slot row = P.dstIndex token' slot' row') :
    token = token' ∧ slot = slot' ∧ row = row' := by
  have hplace : ∀ a b, a * (P.params.m * P.params.nExpertUsed) + b * P.params.m =
      (a * P.params.nExpertUsed + b) * P.params.m := fun a b => by
    rw [Nat.add_mul, Nat.mul_assoc, Nat.mul_comm P.params.m]
  have hsum : (token * P.params.nExpertUsed + slot) * P.params.m + row =
      (token' * P.params.nExpertUsed + slot') * P.params.m + row' := by
    rw [dstIndex, dstIndex] at h
    rw [← hplace, ← hplace]
    omega
  obtain ⟨hpair, hrows⟩ := eq_of_mul_add_eq hrow hrow' hsum
  obtain ⟨htokens, hslots⟩ := eq_of_mul_add_eq hslot hslot' hpair
  exact ⟨htokens, hslots, hrows⟩

theorem kOuters_sum (hP : P.Fits) :
    (P.kOuters.flatMap fun o => (List.range (min P.tiling.tileK (P.params.k - o))).map (o + ·)) =
      List.range P.params.k := by
  rw [kOuters, flatMap_indices P.tiling.tileK_pos hP.depth (by omega), Nat.sub_zero, List.range_eq_range']

theorem mem_kOuters (hP : P.Fits) {o : Nat} (ho : o ∈ P.kOuters) : o < P.params.k := by
  have hdepth := hP.depth
  rw [kOuters, mem_indices P.tiling.tileK_pos
    (fun i j hij hj => decide_eq_true (Nat.lt_of_le_of_lt hij (of_decide_eq_true hj)))
    (fun i hi => by
      have hlt : i < P.params.k := of_decide_eq_true hi
      omega)
    (fun i hi => by
      have hlt : i < P.params.k := of_decide_eq_true hi
      omega)] at ho
  exact of_decide_eq_true ho.1

variable {T : Task} {shared : Local → Nat}

/-- The writes of an invocation are those of the places of the tile it holds. -/
theorem Fits.stores_eq (hP : P.Fits) (hL : P.Lists names) (hT : P.Within T) (hshared : P.Copied T shared)
    {t : Nat} (ht : t < P.tiling.totalWorkgroupSize) (acc : Nat → Nat → H) :
    P.stores T shared t acc = (List.range P.tiling.tileN).flatMap fun tn =>
      (List.range P.tiling.tileM).flatMap fun tm =>
        if P.pairAt T t tn < P.tables.gatheredCountIds T.expert ∧ P.rowAt T t tm < P.params.m then
          [(P.dstIndex (P.tokenAt T.expert (P.pairAt T t tn)) (P.slotAt T.expert (P.pairAt T t tn))
            (P.rowAt T t tm), P.format.storeVal (acc tn tm))]
        else [] := by
  have hcount := hP.counts _ hT.expert
  have hcols := hP.cols
  have hrows := hP.rows
  have hdst := hP.dst
  have hoffN := hT.offsetWgN
  have hoffM := hT.offsetWgM
  refine List.flatMap_congr fun tn htn => ?_
  have hN := P.tiling.localN_lt ht (List.mem_range.mp htn)
  have hn : u32 (u32 (T.offsetWgN + P.tiling.getLocalN t * P.tiling.tileN) + tn) = P.pairAt T t tn := by
    rw [u32_of_lt (n := T.offsetWgN + P.tiling.getLocalN t * P.tiling.tileN) (by omega),
      u32_of_lt (by omega), Nat.add_assoc, pairAt]
  rw [hn]
  by_cases hpair : P.pairAt T t tn < P.tables.gatheredCountIds T.expert
  · obtain ⟨hslot, htoken⟩ := hshared _ hN hpair
    have hsub : sub32 (P.pairAt T t tn) T.offsetWgN = P.tiling.getLocalN t * P.tiling.tileN + tn := by
      rw [pairAt] at hpair ⊢
      rw [sub32_of_le (Nat.le_add_right ..) (by omega), Nat.add_sub_cancel_left]
    obtain ⟨htok, hsl, _⟩ := hL.sound _ hT.expert _ hpair
    rw [if_pos hpair, hsub, hslot, htoken]
    refine List.flatMap_congr fun tm htm => ?_
    have hM := P.tiling.localM_lt t (List.mem_range.mp htm)
    have hm : u32 (u32 (T.offsetWgM + P.tiling.getLocalM t * P.tiling.tileM) + tm) = P.rowAt T t tm := by
      rw [u32_of_lt (n := T.offsetWgM + P.tiling.getLocalM t * P.tiling.tileM) (by omega),
        u32_of_lt (by omega), Nat.add_assoc, rowAt]
    rw [hm]
    by_cases hrow : P.rowAt T t tm < P.params.m
    · have hindex := P.dstIndex_lt htok hsl hrow
      have hstride : P.params.m * P.params.nExpertUsed ≤
          P.params.nTokens * (P.params.m * P.params.nExpertUsed) :=
        Nat.le_mul_of_pos_left _ (Nat.zero_lt_of_lt htok)
      rw [if_pos hrow, if_pos ⟨hpair, hrow⟩, u32_of_lt (n := P.params.m * P.params.nExpertUsed) (by omega)]
      rw [dstIndex] at hindex ⊢
      unfold pairAt at hindex ⊢
      rw [u32_of_lt (n := P.params.offsetDst + _ + _) (by omega), u32_of_lt (by omega)]
    · rw [if_neg hrow, if_neg fun h => hrow h.2]
  · rw [if_neg hpair]
    simp [hpair]

/-- Two places of the tiles that stand for one element are one place. -/
theorem Fits.place_injective (hP : P.Fits) (hL : P.Lists names) (wg wg' : Nat × Nat) (hx : wg.1 < P.numWgX)
    (hy : wg.2 < P.numWgY) (hx' : wg'.1 < P.numWgX) (hy' : wg'.2 < P.numWgY) {T T' : Task}
    (hT : P.task wg = some T) (hT' : P.task wg' = some T') {t tn tm t' tn' tm' : Nat}
    (ht : t < P.tiling.totalWorkgroupSize) (htn : tn < P.tiling.tileN) (htm : tm < P.tiling.tileM)
    (ht' : t' < P.tiling.totalWorkgroupSize) (htn' : tn' < P.tiling.tileN) (htm' : tm' < P.tiling.tileM)
    (hpair : P.pairAt T t tn < P.tables.gatheredCountIds T.expert) (hrow : P.rowAt T t tm < P.params.m)
    (hpair' : P.pairAt T' t' tn' < P.tables.gatheredCountIds T'.expert)
    (hrow' : P.rowAt T' t' tm' < P.params.m)
    (h : P.dstIndex (P.tokenAt T.expert (P.pairAt T t tn)) (P.slotAt T.expert (P.pairAt T t tn))
        (P.rowAt T t tm) =
      P.dstIndex (P.tokenAt T'.expert (P.pairAt T' t' tn')) (P.slotAt T'.expert (P.pairAt T' t' tn'))
        (P.rowAt T' t' tm')) : wg = wg' ∧ t = t' ∧ tn = tn' ∧ tm = tm' := by
  obtain ⟨_, _, he, hM, _, hN, _⟩ := hP.task_tile hx hy hT
  obtain ⟨_, _, he', hM', _, hN', _⟩ := hP.task_tile hx' hy' hT'
  obtain ⟨_, hslot, hname⟩ := hL.sound _ he _ hpair
  obtain ⟨_, hslot', hname'⟩ := hL.sound _ he' _ hpair'
  obtain ⟨htokens, hslots, hrows⟩ := dstIndex_injective hslot hslot' hrow hrow' h
  have hexpert : T.expert = T'.expert := by rw [← hname, ← hname', htokens, hslots]
  rw [← hexpert] at hpair' htokens hslots
  have hpairs := hL.once _ he _ hpair _ hpair' htokens hslots
  -- a tile and a place of it are read off the place among all
  rw [pairAt, pairAt, hN, hN'] at hpairs
  rw [rowAt, rowAt, hM, hM'] at hrows
  obtain ⟨hdivN, hj⟩ := eq_of_mul_add_eq (Tiling.localN_lt ht htn) (Tiling.localN_lt ht' htn') hpairs
  obtain ⟨hdivM, hi⟩ := eq_of_mul_add_eq (Tiling.localM_lt t htm) (Tiling.localM_lt t' htm') hrows
  have htask : T = T' := by
    obtain ⟨e, oM, oN⟩ := T
    obtain ⟨e', oM', oN'⟩ := T'
    simp only [Task.mk.injEq]
    refine ⟨hexpert, hM.trans ?_, hN.trans ?_⟩
    · rw [hdivM]
      exact hM'.symm
    · rw [hdivN]
      exact hN'.symm
  obtain ⟨hlocalN, htn⟩ := eq_of_mul_add_eq htn htn' hj
  obtain ⟨hlocalM, htm⟩ := eq_of_mul_add_eq htm htm' hi
  refine ⟨hP.task_injective hx hy hx' hy' hT (htask ▸ hT'), ?_, htn, htm⟩
  rw [← Nat.div_add_mod t P.tiling.workgroupSizeM, ← Nat.div_add_mod t' P.tiling.workgroupSizeM]
  rw [Tiling.getLocalN, Tiling.getLocalN] at hlocalN
  rw [Tiling.getLocalM, Tiling.getLocalM] at hlocalM
  rw [hlocalN, hlocalM]

/-- The writes of a workgroup's run: the elements of its tile. -/
theorem Fits.mem_writes (hP : P.Fits) (hL : P.Lists names) (hA : P.LoadsSrc0 A) (wg : Nat × Nat)
    (hx : wg.1 < P.numWgX) (hy : wg.2 < P.numWgY)
    {ws : Fin P.tiling.totalWorkgroupSize → List (Nat × D)} (hrun : P.WorkgroupRun wg ws)
    (t : Fin P.tiling.totalWorkgroupSize) (w : Nat × D) :
    w ∈ ws t ↔ ∃ T, P.task wg = some T ∧ ∃ tn < P.tiling.tileN, ∃ tm < P.tiling.tileM,
      (P.pairAt T t tn < P.tables.gatheredCountIds T.expert ∧ P.rowAt T t tm < P.params.m) ∧
      w = (P.dstIndex (P.tokenAt T.expert (P.pairAt T t tn)) (P.slotAt T.expert (P.pairAt T t tn))
          (P.rowAt T t tm),
        P.element A T.expert (P.tokenAt T.expert (P.pairAt T t tn)) (P.slotAt T.expert (P.pairAt T t tn))
          (P.rowAt T t tm)) := by
  cases hrun with
  | idle htask => simp [htask]
  | @busy T htask shared l hcopies shmem acc hrounds =>
      have hT := hP.task_within hx hy htask
      have hshared := hP.copied hT shared hcopies
      dsimp only
      rw [hP.stores_eq hL hT hshared t.isLt]
      simp only [htask, Option.some.injEq, exists_eq_left', List.mem_flatMap, List.mem_range]
      refine exists_congr fun tn => and_congr_right fun htn => exists_congr fun tm =>
        and_congr_right fun htm => ?_
      by_cases hin : P.pairAt T t tn < P.tables.gatheredCountIds T.expert ∧ P.rowAt T t tm < P.params.m
      · have hsum := hP.rounds_sum hA hT hshared (fun o ho => mem_kOuters hP ho) hrounds t.isLt htn htm
          hin.2 hin.1
        rw [if_pos hin, List.mem_singleton, hsum, kOuters_sum hP]
        exact (and_iff_right hin).symm
      · rw [if_neg hin]
        simp [hin]

/-- An invocation writes to no place twice. -/
theorem Fits.nodup_writes (hP : P.Fits) (hL : P.Lists names) (wg : Nat × Nat) (hx : wg.1 < P.numWgX)
    (hy : wg.2 < P.numWgY) {ws : Fin P.tiling.totalWorkgroupSize → List (Nat × D)}
    (hrun : P.WorkgroupRun wg ws) (t : Fin P.tiling.totalWorkgroupSize) : ((ws t).map Prod.fst).Nodup := by
  cases hrun with
  | idle => exact List.nodup_nil
  | @busy T htask shared l hcopies shmem acc hrounds =>
      have hT := hP.task_within hx hy htask
      have hshared := hP.copied hT shared hcopies
      dsimp only
      rw [hP.stores_eq hL hT hshared t.isLt]
      have hmem : ∀ {tn tm : Nat} {w : Nat × D}, w ∈ (if P.pairAt T t tn <
            P.tables.gatheredCountIds T.expert ∧ P.rowAt T t tm < P.params.m then
          [(P.dstIndex (P.tokenAt T.expert (P.pairAt T t tn)) (P.slotAt T.expert (P.pairAt T t tn))
            (P.rowAt T t tm), P.format.storeVal (acc t tn tm))]
          else []) → (P.pairAt T t tn < P.tables.gatheredCountIds T.expert ∧ P.rowAt T t tm < P.params.m) ∧
            w.1 = P.dstIndex (P.tokenAt T.expert (P.pairAt T t tn)) (P.slotAt T.expert (P.pairAt T t tn))
              (P.rowAt T t tm) := by
        intro tn tm w hw
        split at hw
        case isTrue hin => exact ⟨hin, congrArg Prod.fst (List.mem_singleton.mp hw)⟩
        case isFalse => cases hw
      refine nodup_map_flatMap List.nodup_range (fun tn htn => ?_) fun tn htn tn' htn' hne a ha b hb hab => ?_
      · refine nodup_map_flatMap List.nodup_range (fun tm _ => ?_)
          fun tm htm tm' htm' hne a ha b hb hab => ?_
        · split
          · exact List.nodup_singleton _
          · exact List.nodup_nil
        · obtain ⟨hin, ha⟩ := hmem ha
          obtain ⟨hin', hb⟩ := hmem hb
          exact hne (hP.place_injective hL wg wg hx hy hx hy htask htask t.isLt (List.mem_range.mp htn)
            (List.mem_range.mp htm) t.isLt (List.mem_range.mp htn) (List.mem_range.mp htm') hin.1 hin.2 hin'.1
            hin'.2 (ha.symm.trans (hab.trans hb))).2.2.2
      · obtain ⟨tm, htm, ha⟩ := List.mem_flatMap.mp ha
        obtain ⟨tm', htm', hb⟩ := List.mem_flatMap.mp hb
        obtain ⟨hin, ha⟩ := hmem ha
        obtain ⟨hin', hb⟩ := hmem hb
        exact hne (hP.place_injective hL wg wg hx hy hx hy htask htask t.isLt (List.mem_range.mp htn)
          (List.mem_range.mp htm) t.isLt (List.mem_range.mp htn') (List.mem_range.mp htm') hin.1 hin.2 hin'.1
          hin'.2 (ha.symm.trans (hab.trans hb))).2.2.1

variable {writes : P.Thread → List (Nat × D)} {dst dst' : Nat → D} {v v' : P.Thread} {x : Nat}

theorem Fits.nodup_dispatched (hP : P.Fits) (hL : P.Lists names) (h : P.Dispatched writes dst dst') (v : P.Thread) :
    ((writes v).map Prod.fst).Nodup :=
  hP.nodup_writes hL (v.1.1, v.1.2) v.1.1.isLt v.1.2.isLt (h.1 v.1) v.2

theorem Fits.mem_dispatched (hP : P.Fits) (hL : P.Lists names) (hA : P.LoadsSrc0 A)
    (h : P.Dispatched writes dst dst') (v : P.Thread) (w : Nat × D) :
    w ∈ writes v ↔ ∃ T, P.task (v.1.1, v.1.2) = some T ∧ ∃ tn < P.tiling.tileN, ∃ tm < P.tiling.tileM,
      (P.pairAt T v.2 tn < P.tables.gatheredCountIds T.expert ∧ P.rowAt T v.2 tm < P.params.m) ∧
      w = (P.dstIndex (P.tokenAt T.expert (P.pairAt T v.2 tn)) (P.slotAt T.expert (P.pairAt T v.2 tn))
          (P.rowAt T v.2 tm),
        P.element A T.expert (P.tokenAt T.expert (P.pairAt T v.2 tn)) (P.slotAt T.expert (P.pairAt T v.2 tn))
          (P.rowAt T v.2 tm)) :=
  hP.mem_writes hL hA (v.1.1, v.1.2) v.1.1.isLt v.1.2.isLt (h.1 v.1) v.2 w

/-- Two invocations write to different places. -/
theorem Fits.writer_unique (hP : P.Fits) (hL : P.Lists names) (hA : P.LoadsSrc0 A)
    (h : P.Dispatched writes dst dst') (hx : x ∈ (writes v).map Prod.fst) (hx' : x ∈ (writes v').map Prod.fst) :
    v = v' := by
  obtain ⟨w, hw, rfl⟩ := List.mem_map.mp hx
  obtain ⟨w', hw', heq⟩ := List.mem_map.mp hx'
  obtain ⟨T, hT, tn, htn, tm, htm, hin, rfl⟩ := (hP.mem_dispatched hL hA h v w).mp hw
  obtain ⟨T', hT', tn', htn', tm', htm', hin', rfl⟩ := (hP.mem_dispatched hL hA h v' w').mp hw'
  obtain ⟨hwg, ht, -⟩ := hP.place_injective hL (v.1.1, v.1.2) (v'.1.1, v'.1.2) v.1.1.isLt v.1.2.isLt v'.1.1.isLt
    v'.1.2.isLt hT hT' v.2.isLt htn htm v'.2.isLt htn' htm' hin.1 hin.2 hin'.1 hin'.2 heq.symm
  obtain ⟨hx, hy⟩ := Prod.ext_iff.mp hwg
  exact Prod.ext (Prod.ext (Fin.ext hx) (Fin.ext hy)) (Fin.ext ht)

/-- An invocation writes elements of the product only. -/
theorem Fits.element_of_mem (hP : P.Fits) (hL : P.Lists names) (hA : P.LoadsSrc0 A)
    (h : P.Dispatched writes dst dst') : ∀ v, ∀ w ∈ writes v,
    ∃ token < P.params.nTokens, ∃ slot < P.params.nExpertUsed, ∃ row < P.params.m,
      names token slot < P.params.nExpert ∧
        w = (P.dstIndex token slot row, P.element A (names token slot) token slot row) := by
  intro v w hw
  obtain ⟨T, hT, tn, htn, tm, htm, ⟨hpair, hrow⟩, rfl⟩ := (hP.mem_dispatched hL hA h v w).mp hw
  have he := (hP.task_within v.1.1.isLt v.1.2.isLt hT).expert
  obtain ⟨htoken, hslot, hname⟩ := hL.sound _ he _ hpair
  exact ⟨_, htoken, _, hslot, _, hrow, by rw [hname]; exact he, by rw [hname]⟩

/-- Every element is written. -/
theorem Fits.exists_writer (hP : P.Fits) (hL : P.Lists names) (hA : P.LoadsSrc0 A)
    (h : P.Dispatched writes dst dst') : ∀ token < P.params.nTokens, ∀ slot < P.params.nExpertUsed,
    ∀ row < P.params.m, names token slot < P.params.nExpert →
      ∃ v, (P.dstIndex token slot row, P.element A (names token slot) token slot row) ∈ writes v := by
  intro token htoken slot hslot row hrow he
  obtain ⟨p, hp, htok, hsl⟩ := hL.complete token htoken slot hslot he
  obtain ⟨wg, hx, hy, htask⟩ := hP.exists_task he hrow hp
  obtain ⟨t, ht, tn, htn, tm, htm, hM, hN⟩ := Tiling.exists_invocation
    (Nat.mod_lt row P.tiling.rows_pos) (Nat.mod_lt p P.tiling.cols_pos)
  refine ⟨((⟨wg.1, hx⟩, ⟨wg.2, hy⟩), ⟨t, ht⟩), (hP.mem_dispatched hL hA h _ _).mpr ⟨_, htask, tn, htn, tm, htm, ?_⟩⟩
  simp only [pairAt, rowAt, hM, hN, Nat.div_add_mod', htok, hsl]
  exact ⟨⟨hp, hrow⟩, trivial⟩

/-- **The product shader writes the elements.** In whatever order the invocations copy, load and write,
the writes of a dispatch are those of the elements of the pairs that name an expert: the sum over all columns,
in their order. -/
theorem Fits.dispatched (hP : P.Fits) (hL : P.Lists names) (hA : P.LoadsSrc0 A)
    (h : P.Dispatched writes dst dst') : ∃ l : List (Nat × D), dst' = store dst l ∧
      ∀ w, w ∈ l ↔ ∃ token < P.params.nTokens, ∃ slot < P.params.nExpertUsed, ∃ row < P.params.m,
        names token slot < P.params.nExpert ∧
          w = (P.dstIndex token slot row, P.element A (names token slot) token slot row) := by
  obtain ⟨l, hl, hdst⟩ := h.2
  refine ⟨l, hdst, fun w => ?_⟩
  rw [hl.mem_iff]
  constructor
  · intro ⟨v, hw⟩
    exact hP.element_of_mem hL hA h v w hw
  · rintro ⟨token, htoken, slot, hslot, row, hrow, he, rfl⟩
    exact hP.exists_writer hL hA h token htoken slot hslot row hrow he

/-- Rounds can be run over any columns, on any memory. -/
theorem exists_rounds (T : Task) (shared : Local → Nat) (ks : List Nat) (shmem : Nat → H)
    (acc : Nat → Nat → Nat → H) : ∃ acc', P.Rounds T shared ks shmem acc acc' := by
  induction ks generalizing shmem acc with
  | nil => exact ⟨acc, .nil⟩
  | cons o ks ih =>
      have hloads := Interleaving.inOrder (List.finRange P.tiling.totalWorkgroupSize)
        (fun t => P.loads T shared o t) (List.nodup_finRange _) fun t ht => absurd (List.mem_finRange t) ht
      obtain ⟨acc', hrest⟩ := ih (store shmem _) _
      exact ⟨acc', .cons hloads hrest⟩

/-- A dispatch can be run, whatever the shared memories hold. -/
theorem exists_dispatched (P : Product S H D) (dst : Nat → D) (mem : Nat → H) :
    ∃ writes dst', P.Dispatched writes dst dst' := by
  have hrun : ∀ wg, ∃ ws, P.WorkgroupRun wg ws := by
    intro wg
    cases htask : P.task wg with
    | none => exact ⟨_, .idle htask⟩
    | some T =>
        have hcopies := Interleaving.inOrder (List.finRange P.tiling.totalWorkgroupSize)
          (fun t => P.copies T t) (List.nodup_finRange _) fun t ht => absurd (List.mem_finRange t) ht
        obtain ⟨acc, hrounds⟩ := P.exists_rounds T (store (fun _ => 0) _) P.kOuters mem
          fun _ _ _ => P.format.accZero
        exact ⟨_, .busy htask hcopies hrounds⟩
  choose ws hws using hrun
  have hl := Interleaving.inOrder
    ((List.finRange P.numWgX ×ˢ List.finRange P.numWgY) ×ˢ List.finRange P.tiling.totalWorkgroupSize)
    (fun v : P.Thread => ws (v.1.1, v.1.2) v.2)
    (((List.nodup_finRange _).product (List.nodup_finRange _)).product (List.nodup_finRange _))
    fun v hv => absurd (List.mem_product.mpr ⟨List.mem_product.mpr ⟨List.mem_finRange _, List.mem_finRange _⟩,
      List.mem_finRange _⟩) hv
  exact ⟨_, _, fun wg => hws _, _, hl, rfl⟩

end Product

end MulMatId

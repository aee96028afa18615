import LlmRuntime.MulMatId.Assigning

/-!
# What a workgroup computes

The invocations of a workgroup fill the shared memory together; what stands there after a barrier depends
on the tile and not on the order. Each sum then runs over the columns in their order, tile by tile.
-/

namespace Kernel

variable {α β : Type*} [DecidableEq α]

/-- A place all writers of which write the same, and one of which writes, after a barrier. -/
theorem store_interleaving {n : Nat} {ws : Fin n → List (α × β)} {l : List (α × β)} {mem : α → β} {x : α} {v : β}
    (hl : Interleaving ws l) (hsome : ∃ t : Fin n, ∃ w ∈ ws t, w.1 = x)
    (hagree : ∀ t : Fin n, ∀ w ∈ ws t, w.1 = x → w.2 = v) : store mem l x = v := by
  obtain ⟨t, w, hw, hx⟩ := hsome
  refine store_of_agree ⟨w, (hl.mem_iff w).mpr ⟨t, hw⟩, hx⟩ fun u hu hux => ?_
  obtain ⟨t', hu⟩ := (hl.mem_iff u).mp hu
  exact hagree t' u hu hux

/-- The blocks of a strided loop, one after another, are all there is below the bound. -/
theorem flatMap_indices {step bound fuel start : Nat} (hstep : 0 < step) (hwrap : bound + step ≤ 2 ^ 32)
    (hfuel : bound ≤ start + fuel) :
    ((indices step (fun i => i < bound) fuel start).flatMap fun o =>
        (List.range (min step (bound - o))).map (o + ·)) = List.range' start (bound - start) := by
  induction fuel generalizing start with
  | zero =>
      rw [show bound - start = 0 by omega]
      rfl
  | succ fuel ih =>
      rw [indices]
      split
      case isTrue hlt =>
        have hlt : start < bound := of_decide_eq_true hlt
        have hsplit : List.range' start (bound - start) =
            List.range' start (min step (bound - start)) ++
              List.range' (start + step) (bound - (start + step)) := by
          by_cases hle : step ≤ bound - start
          · rw [Nat.min_eq_left hle, List.range'_append_1]
            congr 1
            omega
          · rw [Nat.min_eq_right (by omega), show bound - (start + step) = 0 by omega, List.range'_zero,
              List.append_nil]
        rw [u32_of_lt (by omega), List.flatMap_cons, ih (by omega), hsplit, List.range_eq_range',
          List.map_add_range', Nat.add_zero]
      case isFalse hge =>
        have hge : ¬ start < bound := fun h => hge (decide_eq_true h)
        rw [show bound - start = 0 by omega]
        rfl

end Kernel

namespace MulMatId

open Kernel

namespace Tiling

variable (L : Tiling)

theorem shmem_small : L.tileSrc0Shmem + L.tileSrc1Shmem + L.totalWorkgroupSize ≤ 2 ^ 32 := L.small

theorem rows_lt : L.rows < 2 ^ 32 := by
  have hsmall := L.shmem_small
  have hpos := L.totalWorkgroupSize_pos
  have hle : L.rows ≤ L.tileSrc0Shmem := Nat.le_mul_of_pos_left _ L.tileK_pos
  omega

theorem cols_small : L.cols + L.totalWorkgroupSize ≤ 2 ^ 32 := by
  have hsmall := L.shmem_small
  have hle : L.cols ≤ L.tileSrc1Shmem := Nat.le_mul_of_pos_left _ L.tileK_pos
  omega

variable {L}

theorem localM_lt {tm : Nat} (t : Nat) (htm : tm < L.tileM) : L.getLocalM t * L.tileM + tm < L.rows := by
  have hlocal : L.getLocalM t < L.workgroupSizeM := Nat.mod_lt t L.workgroupSizeM_pos
  have hlast : (L.getLocalM t + 1) * L.tileM ≤ L.workgroupSizeM * L.tileM := Nat.mul_le_mul_right _ hlocal
  rw [Nat.succ_mul] at hlast
  rw [rows]
  omega

theorem localN_lt {t tn : Nat} (ht : t < L.totalWorkgroupSize) (htn : tn < L.tileN) :
    L.getLocalN t * L.tileN + tn < L.cols := by
  have hlocal : L.getLocalN t < L.workgroupSizeN := Nat.div_lt_of_lt_mul ht
  have hlast : (L.getLocalN t + 1) * L.tileN ≤ L.workgroupSizeN * L.tileN := Nat.mul_le_mul_right _ hlocal
  rw [Nat.succ_mul] at hlast
  rw [cols]
  omega

/-- The invocation whose stride an index belongs to. -/
theorem mem_stride (L : Tiling) (cond : Nat → Bool) (bound i : Nat) (hdown : ∀ i j, i ≤ j → cond j → cond i)
    (hbound : ∀ i, cond i → i < bound) (hwrap : bound + L.totalWorkgroupSize ≤ 2 ^ 32) :
    (∃ t : Fin L.totalWorkgroupSize, i ∈ indices L.totalWorkgroupSize cond bound t) ↔ cond i := by
  have hpos := L.totalWorkgroupSize_pos
  have hmem (t : Nat) : i ∈ indices L.totalWorkgroupSize cond bound t ↔
      cond i ∧ t ≤ i ∧ i % L.totalWorkgroupSize = t % L.totalWorkgroupSize := by
    refine mem_indices hpos hdown (fun i hi => ?_) fun i hi => ?_
    · have hlt := hbound i hi
      omega
    · have hlt := hbound i hi
      omega
  constructor
  · rintro ⟨t, ht⟩
    exact ((hmem t).mp ht).1
  · intro hi
    exact ⟨⟨i % L.totalWorkgroupSize, Nat.mod_lt i hpos⟩,
      (hmem _).mpr ⟨hi, Nat.mod_le i _, (Nat.mod_mod i _).symm⟩⟩

end Tiling

namespace Product

variable {S H D : Type*} {P : Product S H D} {T : Task} {shared : Local → Nat}

/-- The token of the `p`-th pair of an expert. -/
def tokenAt (P : Product S H D) (e p : Nat) : Nat := P.tables.globalGatheredTokens (e * P.params.nTokens + p)

/-- The slot of the `p`-th pair of an expert. -/
def slotAt (P : Product S H D) (e p : Nat) : Nat :=
  P.tables.globalGatheredExpertUsed (e * P.params.nTokens + p)

/-- A task within its expert's product. -/
structure Within (P : Product S H D) (T : Task) : Prop where
  expert : T.expert < P.params.nExpert
  offsetWgM : T.offsetWgM < P.params.m
  offsetWgN : T.offsetWgN < P.tables.gatheredCountIds T.expert

theorem Fits.task_within (hP : P.Fits) {wg : Nat × Nat} (hx : wg.1 < P.numWgX) (hy : wg.2 < P.numWgY)
    (hT : P.task wg = some T) : P.Within T := by
  obtain ⟨_, _, he, _, hM, _, hN⟩ := hP.task_tile hx hy hT
  exact ⟨he, hM, hN⟩

/-- The pairs of the tile stand in the shared memory. -/
def Copied (P : Product S H D) (T : Task) (shared : Local → Nat) : Prop :=
  ∀ i < P.tiling.cols, T.offsetWgN + i < P.tables.gatheredCountIds T.expert →
    shared (.gatheredExpertUsed i) = P.slotAt T.expert (T.offsetWgN + i) ∧
      shared (.gatheredTokens i) = P.tokenAt T.expert (T.offsetWgN + i)

theorem Fits.copied (hP : P.Fits) (hT : P.Within T) (shared : Local → Nat) {l : List (Local × Nat)}
    (hl : Interleaving (fun t : Fin P.tiling.totalWorkgroupSize => P.copies T t) l) :
    P.Copied T (store shared l) := by
  have hcount := hP.counts _ hT.expert
  have hcols := hP.cols
  have hoff := hT.offsetWgN
  have hlast : (T.expert + 1) * P.params.nTokens ≤ P.params.nExpert * P.params.nTokens :=
    Nat.mul_le_mul_right _ hT.expert
  have htable := hP.table
  rw [Nat.succ_mul] at hlast
  -- no index of the copy wraps
  have hindex : ∀ i < P.tiling.cols, u32 (T.offsetWgN + i) = T.offsetWgN + i := fun i hi =>
    u32_of_lt (by omega)
  have hread : ∀ i, T.offsetWgN + i < P.tables.gatheredCountIds T.expert →
      u32 (u32 (T.expert * P.params.nTokens + T.offsetWgN) + i) =
        T.expert * P.params.nTokens + (T.offsetWgN + i) := fun i hi => by
    rw [u32_of_lt (n := T.expert * P.params.nTokens + T.offsetWgN) (by omega), u32_of_lt (by omega),
      Nat.add_assoc]
  have hcond : ∀ i, (decide (i < P.tiling.cols) &&
      decide (u32 (T.offsetWgN + i) < P.tables.gatheredCountIds T.expert)) = true ↔
      i < P.tiling.cols ∧ T.offsetWgN + i < P.tables.gatheredCountIds T.expert := by
    intro i
    rw [Bool.and_eq_true, decide_eq_true_eq, decide_eq_true_eq]
    exact and_congr_right fun hi => by rw [hindex i hi]
  have hstride := fun i => P.tiling.mem_stride
    (fun i => decide (i < P.tiling.cols) && decide (u32 (T.offsetWgN + i) < P.tables.gatheredCountIds T.expert))
    P.tiling.cols i
    (fun i j hij hj => by
      obtain ⟨h, h'⟩ := (hcond j).mp hj
      exact (hcond i).mpr ⟨by omega, by omega⟩)
    (fun i hi => ((hcond i).mp hi).1) P.tiling.cols_small
  intro i hi hpair
  obtain ⟨t, ht⟩ := (hstride i).mpr ((hcond i).mpr ⟨hi, hpair⟩)
  -- every write to a place of the tile has the value of that place
  have hwrites : ∀ t : Fin P.tiling.totalWorkgroupSize, ∀ w ∈ P.copies T t,
      ∃ j, T.offsetWgN + j < P.tables.gatheredCountIds T.expert ∧
        (w = (.gatheredExpertUsed j, P.slotAt T.expert (T.offsetWgN + j)) ∨
          w = (.gatheredTokens j, P.tokenAt T.expert (T.offsetWgN + j))) := by
    intro t w hw
    obtain ⟨j, hj, hw⟩ := List.mem_flatMap.mp hw
    have hin := ((hcond j).mp ((hstride j).mp ⟨t, hj⟩)).2
    rw [hread j hin] at hw
    refine ⟨j, hin, ?_⟩
    rw [slotAt, tokenAt]
    simpa only [List.mem_cons, List.not_mem_nil, or_false] using hw
  have hmem : ∀ w, w ∈ [((.gatheredExpertUsed i : Local), P.slotAt T.expert (T.offsetWgN + i)),
      (.gatheredTokens i, P.tokenAt T.expert (T.offsetWgN + i))] → w ∈ P.copies T t := by
    intro w hw
    refine List.mem_flatMap.mpr ⟨i, ht, ?_⟩
    rw [hread i hpair]
    exact hw
  constructor
  · refine store_interleaving hl ⟨t, _, hmem _ List.mem_cons_self, rfl⟩ fun t w hw hx => ?_
    obtain ⟨j, _, rfl | rfl⟩ := hwrites t w hw
    · cases hx
      rfl
    · cases hx
  · refine store_interleaving hl ⟨t, _, hmem _ (List.mem_cons_of_mem _ List.mem_cons_self), rfl⟩
      fun t w hw hx => ?_
    obtain ⟨j, _, rfl | rfl⟩ := hwrites t w hw
    · cases hx
    · cases hx
      rfl

/-- What `init_shmem_src0` is for: between them the invocations put the tile of the matrix `A` at
`batchOffset` into the first part of the shared memory. -/
structure LoadsSrc0 (P : Product S H D) (A : (batchOffset row col : Nat) → H) : Prop where
  inside : ∀ t < P.tiling.totalWorkgroupSize, ∀ batch offsetM kOuter,
    ∀ w ∈ P.initShmemSrc0 t batch offsetM kOuter, w.1 < P.tiling.tileSrc0Shmem
  loads : ∀ batch offsetM kOuter tm tk, tm < P.tiling.rows → tk < P.tiling.tileK →
    offsetM + tm < P.params.m → kOuter + tk < P.params.k →
      (∃ t < P.tiling.totalWorkgroupSize, ∃ w ∈ P.initShmemSrc0 t batch offsetM kOuter,
        w.1 = tk + tm * P.tiling.tileK) ∧
      ∀ t < P.tiling.totalWorkgroupSize, ∀ w ∈ P.initShmemSrc0 t batch offsetM kOuter,
        w.1 = tk + tm * P.tiling.tileK → w.2 = A batch (offsetM + tm) (kOuter + tk)

/-- The element of `src1` a pair is multiplied with. -/
def src1At (P : Product S H D) (token slot col : Nat) : H :=
  P.format.shmemType (P.src1 (u32 (P.params.offsetSrc1 + token * P.params.stride12 +
    slot % P.params.bNe1 * P.params.stride11 + col)))

theorem mem_initShmemIdSrc1 (t : Fin P.tiling.totalWorkgroupSize) {kOuter : Nat} {w : Nat × H}
    (hw : w ∈ P.initShmemIdSrc1 T shared t kOuter) :
    P.tiling.tileSrc0Shmem ≤ w.1 := by
  obtain ⟨elemIdx, _, rfl⟩ := List.mem_map.mp hw
  exact Nat.le_add_right ..

variable {A : Nat → Nat → Nat → H} {l : List (Nat × H)} {shmem : Nat → H} {kOuter : Nat}

/-- The matrix's tile after the barrier. -/
theorem shmem_src0 (hA : P.LoadsSrc0 A)
    (hl : Interleaving (fun t : Fin P.tiling.totalWorkgroupSize => P.loads T shared kOuter t) l)
    {tm tk : Nat} (htm : tm < P.tiling.rows) (htk : tk < P.tiling.tileK)
    (hrow : T.offsetWgM + tm < P.params.m) (hcol : kOuter + tk < P.params.k) :
    store shmem l (tk + tm * P.tiling.tileK) = A (P.src0BatchOffset T) (T.offsetWgM + tm) (kOuter + tk) := by
  obtain ⟨⟨t, ht, w, hw, hx⟩, hagree⟩ := hA.loads (P.src0BatchOffset T) T.offsetWgM kOuter tm tk htm htk hrow hcol
  refine store_interleaving hl ⟨⟨t, ht⟩, w, List.mem_append_left _ hw, hx⟩ fun t u hu hux => ?_
  obtain hu | hu := List.mem_append.mp hu
  · exact hagree t t.isLt u hu hux
  · have hge := mem_initShmemIdSrc1 t hu
    have hlast : (tm + 1) * P.tiling.tileK ≤ P.tiling.rows * P.tiling.tileK := Nat.mul_le_mul_right _ htm
    rw [Nat.succ_mul] at hlast
    rw [hux, Tiling.tileSrc0Shmem, Nat.mul_comm] at hge
    omega

/-- The rows of the pairs after the barrier. -/
theorem Fits.shmem_src1 (hP : P.Fits) (hA : P.LoadsSrc0 A) (hT : P.Within T) (hshared : P.Copied T shared)
    (hl : Interleaving (fun t : Fin P.tiling.totalWorkgroupSize => P.loads T shared kOuter t) l)
    {n tk : Nat} (hn : n < P.tiling.cols) (htk : tk < P.tiling.tileK)
    (hpair : T.offsetWgN + n < P.tables.gatheredCountIds T.expert) (hcol : kOuter + tk < P.params.k) :
    store shmem l (P.tiling.tileSrc0Shmem + (n * P.tiling.tileK + tk)) =
      P.src1At (P.tokenAt T.expert (T.offsetWgN + n)) (P.slotAt T.expert (T.offsetWgN + n)) (kOuter + tk) := by
  have hcount := hP.counts _ hT.expert
  have hcols := hP.cols
  have hdepth := hP.depth
  have hpos := P.tiling.tileK_pos
  have hdiv : (n * P.tiling.tileK + tk) / P.tiling.tileK = n := by
    rw [Nat.mul_comm, Nat.mul_add_div hpos, Nat.div_eq_of_lt htk, Nat.add_zero]
  have hmod : (n * P.tiling.tileK + tk) % P.tiling.tileK = tk := by
    rw [Nat.mul_comm, Nat.mul_add_mod, Nat.mod_eq_of_lt htk]
  have hin : n * P.tiling.tileK + tk < P.tiling.tileSrc1Shmem := by
    have hlast : (n + 1) * P.tiling.tileK ≤ P.tiling.cols * P.tiling.tileK := Nat.mul_le_mul_right _ hn
    rw [Nat.succ_mul] at hlast
    rw [Tiling.tileSrc1Shmem, Nat.mul_comm P.tiling.tileK]
    omega
  have hrest : n < P.restTokenN T := by
    have hoff := hT.offsetWgN
    rw [restTokenN, sub32_of_le (Nat.le_of_lt hoff) (by omega)]
    omega
  have hsmall := P.tiling.shmem_small
  obtain ⟨t, ht⟩ := (P.tiling.mem_stride (fun i => decide (i < P.tiling.tileSrc1Shmem)) P.tiling.tileSrc1Shmem
    (n * P.tiling.tileK + tk)
    (fun i j hij hj => decide_eq_true (Nat.lt_of_le_of_lt hij (of_decide_eq_true hj)))
    (fun i hi => of_decide_eq_true hi) (by omega)).mpr (decide_eq_true hin)
  refine store_interleaving hl ⟨t, _, List.mem_append_right _ (List.mem_map.mpr ⟨_, ht, rfl⟩), rfl⟩
    fun t u hu hux => ?_
  obtain hu | hu := List.mem_append.mp hu
  · have hlt := hA.inside t t.isLt _ _ _ u hu
    omega
  · obtain ⟨elemIdx, _, rfl⟩ := List.mem_map.mp hu
    have helem : elemIdx = n * P.tiling.tileK + tk := Nat.add_left_cancel hux
    obtain ⟨hslot, htoken⟩ := hshared n hn hpair
    have hcol' : u32 (kOuter + tk) = kOuter + tk := u32_of_lt (by omega)
    simp only [helem, idSrc1Val, hdiv, hmod, if_pos hrest, hcol', if_pos hcol, hslot, htoken, src1At]

/-- The product of a row and a pair, added up in the order of the columns. -/
def sumOver (P : Product S H D) (A : Nat → Nat → Nat → H) (batch row token slot : Nat) (cols : List Nat)
    (acc : H) : H :=
  cols.foldl (fun acc col => P.format.add acc (P.format.mul (A batch row col) (P.src1At token slot col))) acc

theorem sumOver_append (batch row token slot : Nat) (cols cols' : List Nat) (acc : H) :
    P.sumOver A batch row token slot (cols ++ cols') acc =
      P.sumOver A batch row token slot cols' (P.sumOver A batch row token slot cols acc) :=
  List.foldl_append

/-- A sum of an invocation, as the loop over `k_inner` changes it. -/
theorem foldl_accumulate (t : Nat) (ks : List Nat) (acc : Nat → Nat → H) {tn tm : Nat}
    (htn : tn < P.tiling.tileN) (htm : tm < P.tiling.tileM) :
    ks.foldl (P.accumulate t shmem) acc tn tm = ks.foldl (fun a kInner => P.format.add a
      (P.format.mul (shmem (kInner + (P.tiling.getLocalM t * P.tiling.tileM + tm) * P.tiling.tileK))
        (shmem (P.tiling.tileSrc0Shmem +
          ((P.tiling.getLocalN t * P.tiling.tileN + tn) * P.tiling.tileK + kInner))))) (acc tn tm) := by
  induction ks generalizing acc with
  | nil => rfl
  | cons kInner ks ih =>
      rw [List.foldl_cons, List.foldl_cons, ih, accumulate, if_pos ⟨htn, htm⟩]

/-- The row of an expert's matrix an invocation's sum belongs to. -/
def rowAt (P : Product S H D) (T : Task) (t tm : Nat) : Nat :=
  T.offsetWgM + (P.tiling.getLocalM t * P.tiling.tileM + tm)

/-- The pair of an expert an invocation's sum belongs to. -/
def pairAt (P : Product S H D) (T : Task) (t tn : Nat) : Nat :=
  T.offsetWgN + (P.tiling.getLocalN t * P.tiling.tileN + tn)

/-- The sums of the invocations after the rounds over `kOuters`. -/
theorem Fits.rounds_sum (hP : P.Fits) (hA : P.LoadsSrc0 A) (hT : P.Within T) (hshared : P.Copied T shared)
    {ks : List Nat} (hks : ∀ o ∈ ks, o < P.params.k) {acc acc' : Nat → Nat → Nat → H}
    (hrounds : P.Rounds T shared ks shmem acc acc') {t tn tm : Nat} (ht : t < P.tiling.totalWorkgroupSize)
    (htn : tn < P.tiling.tileN) (htm : tm < P.tiling.tileM) (hrow : P.rowAt T t tm < P.params.m)
    (hpair : P.pairAt T t tn < P.tables.gatheredCountIds T.expert) :
    acc' t tn tm = P.sumOver A (P.src0BatchOffset T) (P.rowAt T t tm)
      (P.tokenAt T.expert (P.pairAt T t tn)) (P.slotAt T.expert (P.pairAt T t tn))
      (ks.flatMap fun o => (List.range (min P.tiling.tileK (P.params.k - o))).map (o + ·)) (acc t tn tm) := by
  have hdepth := hP.depth
  have hkpos := P.tiling.tileK_pos
  induction hrounds with
  | nil => rfl
  | @cons o ks shmem acc acc' l hloads _ ih =>
      have ho : o < P.params.k := hks o List.mem_cons_self
      rw [ih fun o' ho' => hks o' (List.mem_cons_of_mem o ho'), List.flatMap_cons, sumOver_append]
      congr 1
      have hrest : sub32 P.params.k o = P.params.k - o := sub32_of_le (Nat.le_of_lt ho) (by omega)
      change (List.range (min P.tiling.tileK (sub32 P.params.k o))).foldl
        (P.accumulate t (store shmem l)) (acc t) tn tm = _
      rw [foldl_accumulate t _ _ htn htm, sumOver, List.foldl_map, hrest]
      refine List.foldl_ext _ _ _ fun a kInner hk => ?_
      have hk := List.mem_range.mp hk
      rw [shmem_src0 hA hloads (Tiling.localM_lt t htm) (by omega) hrow (by omega),
        hP.shmem_src1 hA hT hshared hloads (Tiling.localN_lt ht htn) (by omega) hpair (by omega)]
      rfl

end Product

end MulMatId

import LlmRuntime.MulMatId.Ending
import LlmRuntime.MulMatId.Writing
import Mathlib.Algebra.BigOperators.Ring.List
import Mathlib.Algebra.Ring.Nat

/-!
# Encoding an expert product

`ggml_webgpu_mul_mat_id` reads the sizes of both dispatches off the tensors of the node, and puts the lists
of the experts behind the result, where `get_alloc_size` has left room for them.
-/

namespace MulMatId

open Kernel

/-- What is read of a tensor. -/
structure Tensor where
  ne0 : Nat
  ne1 : Nat
  ne2 : Nat
  nb1 : Nat
  nb2 : Nat
  typeSize : Nat
  misalignment : Nat
  offset : Nat
  nbytes : Nat
deriving DecidableEq, Repr

/-- A `GGML_OP_MUL_MAT_ID` node: its result has a row of the matrices' rows for each pair, and the tokens of
`src1`. -/
structure Node where
  src0 : Tensor
  src1 : Tensor
  src2 : Tensor
  dst : Tensor
  dst_ne0 : dst.ne0 = src0.ne1
  dst_ne2 : dst.ne2 = src1.ne2

/-- What the backend has beside the patch: the limits of the device, the width of a `size_t`, `CEIL_DIV`,
`ROUNDUP_POW2`, `WEBGPU_STORAGE_BUF_BINDING_MULT` and `compute_2d_workgroups`. -/
structure Backend where
  sizeTBits : Nat
  minStorageBufferOffsetAlignment : Nat
  maxComputeWorkgroupsPerDimension : Nat
  maxComputeInvocationsPerWorkgroup : Nat
  ceilDiv : Nat → Nat → Nat
  roundupPow2 : Nat → Nat → Nat
  webgpuStorageBufBindingMult : Nat
  compute2dWorkgroups : Nat → Nat → Nat × Nat

/-- `CEIL_DIV` rounds the quotient up, where the sum of the operands has room in 32 bits. -/
def Backend.Divides (B : Backend) : Prop :=
  ∀ a b, 0 < b → a + b ≤ 2 ^ 32 → B.ceilDiv a b = Kernel.ceilDiv a b

/-- `ROUNDUP_POW2` rounds up to a multiple of a power of two, where the sum of the operands has room in 32
bits. The alignment of a binding is one, and a word is a multiple of what the size of a binding is one of. -/
structure Backend.Aligns (B : Backend) : Prop where
  roundupPow2 : ∀ x k, x + 2 ^ k ≤ 2 ^ 32 →
    2 ^ k ∣ B.roundupPow2 x (2 ^ k) ∧ x ≤ B.roundupPow2 x (2 ^ k) ∧ B.roundupPow2 x (2 ^ k) < x + 2 ^ k
  alignment : ∃ k, B.minStorageBufferOffsetAlignment = 2 ^ k
  mult : ∃ k ≤ 2, B.webgpuStorageBufBindingMult = 2 ^ k
  sizeTBits : 32 ≤ B.sizeTBits

namespace Node

variable (N : Node) (B : Backend)

def gatherParams : GatherParams where
  offsetIds := u32 (N.src2.misalignment / N.src2.typeSize)
  nExpert := u32 N.src0.ne2
  nExpertUsed := u32 N.dst.ne1
  nTokens := u32 N.dst.ne2
  strideIds1 := u32 (N.src2.nb1 / N.src2.typeSize)

def gatherWgX : Nat := min (u32 N.src0.ne2) B.maxComputeWorkgroupsPerDimension

def gatherWgY : Nat := u32 (B.ceilDiv (u32 N.src0.ne2) (N.gatherWgX B))

/-- The dispatch of the gather shader. -/
def gather (ids : Nat → BitVec 32) : Gather where
  params := N.gatherParams
  wgSize := B.maxComputeInvocationsPerWorkgroup
  numWgX := N.gatherWgX B
  numWgY := N.gatherWgY B
  ids := ids

def mainParams : MulMatIdParams where
  offsetSrc0 := u32 (N.src0.misalignment / N.src0.typeSize)
  offsetSrc1 := u32 (N.src1.misalignment / N.src1.typeSize)
  offsetDst := u32 (N.dst.misalignment / N.dst.typeSize)
  k := u32 N.src0.ne0
  m := u32 N.src0.ne1
  nExpert := u32 N.src0.ne2
  nExpertUsed := u32 N.dst.ne1
  nTokens := u32 N.dst.ne2
  bNe1 := u32 N.src1.ne1
  stride01 := u32 (N.src0.nb1 / N.src0.typeSize)
  stride11 := u32 (N.src1.nb1 / N.src1.typeSize)
  stride02 := u32 (N.src0.nb2 / N.src0.typeSize)
  stride12 := u32 (N.src1.nb2 / N.src1.typeSize)

/-- The workgroups asked of the main dispatch: tiles for all pairs, and one more for each expert that can
have any. -/
def totalWg (L : Tiling) : Nat :=
  let tileMS := u32 (L.tileM * L.workgroupSizeM)
  let tileNS := u32 (L.tileN * L.workgroupSizeN)
  let wgM := u32 (B.ceilDiv N.dst.ne0 tileMS)
  let totalGathered := u32 (N.dst.ne1 * N.dst.ne2)
  let maxActiveExperts := min (u32 N.src0.ne2) totalGathered
  let maxWgN := u32 (B.ceilDiv totalGathered tileNS + maxActiveExperts)
  u32 (wgM * maxWgN)

variable {S H D : Type*}

/-- The main dispatch, over the grid `compute_2d_workgroups` makes of `total_wg`. -/
def product (L : Tiling) (format : Format S H D) (initShmemSrc0 : Nat → Nat → Nat → Nat → List (Nat × H))
    (src1 : Nat → S) (tables : Tables) : Product S H D where
  params := N.mainParams
  tiling := L
  format := format
  numWgX := (B.compute2dWorkgroups (N.totalWg B L) B.maxComputeWorkgroupsPerDimension).1
  numWgY := (B.compute2dWorkgroups (N.totalWg B L) B.maxComputeWorkgroupsPerDimension).2
  src1 := src1
  tables := tables
  initShmemSrc0 := initShmemSrc0

/-- The expert a token's slot names. -/
def expertOf (ids : Nat → BitVec 32) (token slot : Nat) : Nat :=
  (ids (u32 (N.gatherParams.offsetIds + token * N.gatherParams.strideIds1 + slot))).toNat

/-- The sizes of a node for which both dispatches compute in 32 bits what they are meant to, and a routing
that gives no token an expert twice. -/
structure Fits (L : Tiling) (ids : Nat → BitVec 32) : Prop where
  invocations : 0 < B.maxComputeInvocationsPerWorkgroup
  dimension : 0 < B.maxComputeWorkgroupsPerDimension
  experts : 0 < N.src0.ne2
  experts_small : N.src0.ne2 ≤ 2 ^ 31
  used_small : N.dst.ne1 < 2 ^ 32
  pairs : N.dst.ne1 * N.dst.ne2 + B.maxComputeInvocationsPerWorkgroup ≤ 2 ^ 32
  pairs_tiles : N.dst.ne1 * N.dst.ne2 + L.cols ≤ 2 ^ 32
  table : N.src0.ne2 * N.dst.ne2 ≤ 2 ^ 32
  rows : N.src0.ne1 + L.rows ≤ 2 ^ 32
  cols : N.dst.ne2 + L.cols ≤ 2 ^ 32
  depth : N.src0.ne0 + L.tileK ≤ 2 ^ 32
  dst : N.dst.misalignment / N.dst.typeSize + N.dst.ne2 * (N.src0.ne1 * N.dst.ne1) < 2 ^ 32
  workgroups : ceilDiv N.src0.ne1 L.rows *
    (ceilDiv (N.dst.ne1 * N.dst.ne2) L.cols + min N.src0.ne2 (N.dst.ne1 * N.dst.ne2)) < 2 ^ 32
  distinct : ∀ token < N.dst.ne2, ∀ slot < N.dst.ne1, ∀ slot' < N.dst.ne1,
    N.expertOf ids token slot = N.expertOf ids token slot' → slot = slot'

variable {N B} {L : Tiling} {ids : Nat → BitVec 32}

theorem Fits.nExpert_eq (hN : N.Fits B L ids) : u32 N.src0.ne2 = N.src0.ne2 := by
  have hsmall := hN.experts_small
  exact u32_of_lt (by omega)

theorem Fits.nExpertUsed_eq (hN : N.Fits B L ids) : u32 N.dst.ne1 = N.dst.ne1 := u32_of_lt hN.used_small

theorem Fits.nTokens_eq (hN : N.Fits B L ids) : u32 N.dst.ne2 = N.dst.ne2 := by
  have hcols := hN.cols
  have hpos := L.cols_pos
  exact u32_of_lt (by omega)

theorem Fits.gather_grid (hN : N.Fits B L ids) (hB : B.Divides) :
    N.src0.ne2 ≤ N.gatherWgX B * N.gatherWgY B ∧
      N.gatherWgX B * N.gatherWgY B ≤ 2 ^ 32 := by
  have hexperts := hN.experts
  have hsmall := hN.experts_small
  have hdimension := hN.dimension
  have hx : N.gatherWgX B = min N.src0.ne2 B.maxComputeWorkgroupsPerDimension := by
    rw [gatherWgX, hN.nExpert_eq]
  have hpos : 0 < N.gatherWgX B := by omega
  have hquotient : Kernel.ceilDiv N.src0.ne2 (N.gatherWgX B) ≤ N.src0.ne2 + N.gatherWgX B - 1 := Nat.div_le_self ..
  have hy : N.gatherWgY B = Kernel.ceilDiv N.src0.ne2 (N.gatherWgX B) := by
    rw [gatherWgY, hN.nExpert_eq, hB _ _ hpos (by omega), u32_of_lt (by omega)]
  refine ⟨?_, ?_⟩
  · rw [hy, Nat.mul_comm]
    exact le_ceilDiv_mul hpos
  · have hround := Nat.mul_div_le (N.src0.ne2 + N.gatherWgX B - 1) (N.gatherWgX B)
    rw [hy, ceilDiv]
    omega

variable (B) in
/-- The pairs are numbered token by token. -/
theorem expert_eq (hused : u32 N.dst.ne1 = N.dst.ne1) (i : Nat) :
    (N.gather B ids).expert i = N.expertOf ids (i / N.dst.ne1) (i % N.dst.ne1) := by
  simp only [Gather.expert, gather, expertOf, gatherParams, hused]

theorem Fits.total_eq (hN : N.Fits B L ids) : (N.gather B ids).total = N.dst.ne1 * N.dst.ne2 := by
  have hpairs := hN.pairs
  have hinv := hN.invocations
  simp only [Gather.total, gather, gatherParams, hN.nExpertUsed_eq, hN.nTokens_eq]
  exact u32_of_lt (by omega)

/-- No expert has more pairs than there are tokens. -/
theorem Fits.room (hN : N.Fits B L ids) (e : Nat) :
    ((N.gather B ids).routed e).length ≤ N.dst.ne2 := by
  have htokens : (((N.gather B ids).routed e).map Prod.fst).Nodup := by
    rw [Gather.routed, List.map_map]
    refine List.Nodup.map_on (fun i hi j hj hij => ?_) (List.nodup_range.filter _)
    rw [List.mem_filter, List.mem_range, hN.total_eq, decide_eq_true_eq, expert_eq B hN.nExpertUsed_eq] at hi hj
    simp only [Function.comp_apply, gather, gatherParams, hN.nExpertUsed_eq] at hij
    have hpos : 0 < N.dst.ne1 := Nat.pos_of_mul_pos_right (Nat.zero_lt_of_lt hi.1)
    have hslot := hN.distinct (i / N.dst.ne1) (Nat.div_lt_of_lt_mul hi.1) (i % N.dst.ne1) (Nat.mod_lt i hpos)
      (j % N.dst.ne1) (Nat.mod_lt j hpos) (by rw [hi.2, hij, hj.2])
    rw [← Nat.div_add_mod i N.dst.ne1, ← Nat.div_add_mod j N.dst.ne1, hij, hslot]
  have hsub : ((N.gather B ids).routed e).map Prod.fst ⊆ List.range N.dst.ne2 := by
    intro token htoken
    rw [Gather.routed, List.map_map] at htoken
    obtain ⟨i, hi, rfl⟩ := List.mem_map.mp htoken
    rw [List.mem_filter, List.mem_range, hN.total_eq] at hi
    simp only [Function.comp_apply, gather, gatherParams, hN.nExpertUsed_eq]
    exact List.mem_range.mpr (Nat.div_lt_of_lt_mul hi.1)
  have hlength := (List.subperm_of_subset htokens hsub).length_le
  rwa [List.length_map, List.length_range] at hlength

theorem Fits.gather_fits (hN : N.Fits B L ids) (hB : B.Divides) : (N.gather B ids).Fits := by
  have hpairs := hN.pairs
  have hinv := hN.invocations
  obtain ⟨hcovers, hgrid⟩ := hN.gather_grid hB
  constructor
  case wgSize_pos => exact hinv
  case grid => exact hgrid
  case room =>
    intro e _
    change _ ≤ u32 N.dst.ne2
    rw [hN.nTokens_eq]
    exact hN.room e
  all_goals simp only [gather, gatherParams, hN.nExpertUsed_eq, hN.nTokens_eq, hN.nExpert_eq]
  case covers => exact hcovers
  case pairs => exact hpairs
  case table => exact hN.table

/-! ### The two dispatches together -/

variable {format : Format S H D} {initShmemSrc0 : Nat → Nat → Nat → Nat → List (Nat × H)} {src1 : Nat → S} {T : Tables}

/-- The workgroups asked for are as many as the arithmetic says. -/
theorem Fits.totalWg_eq (hN : N.Fits B L ids) (hB : B.Divides) : N.totalWg B L = ceilDiv N.src0.ne1 L.rows *
    (ceilDiv (N.dst.ne1 * N.dst.ne2) L.cols + min N.src0.ne2 (N.dst.ne1 * N.dst.ne2)) := by
  have hrows := hN.rows
  have hpairs := hN.pairs_tiles
  have hworkgroups := hN.workgroups
  have hrpos := L.rows_pos
  have hcpos := L.cols_pos
  have hcols := L.cols_small
  have hwpos := L.totalWorkgroupSize_pos
  have hM : u32 (L.tileM * L.workgroupSizeM) = L.rows := by
    rw [Nat.mul_comm]
    exact u32_of_lt L.rows_lt
  have hC : u32 (L.tileN * L.workgroupSizeN) = L.cols := by
    rw [Nat.mul_comm, ← Tiling.cols]
    exact u32_of_lt (by omega)
  have htotal : u32 (N.dst.ne1 * N.dst.ne2) = N.dst.ne1 * N.dst.ne2 := u32_of_lt (by omega)
  have hwgM : u32 (ceilDiv N.src0.ne1 L.rows) = ceilDiv N.src0.ne1 L.rows := by
    have hle : ceilDiv N.src0.ne1 L.rows ≤ N.src0.ne1 + L.rows - 1 := Nat.div_le_self ..
    exact u32_of_lt (by omega)
  have hround : B.ceilDiv (N.dst.ne1 * N.dst.ne2) L.cols = ceilDiv (N.dst.ne1 * N.dst.ne2) L.cols :=
    hB _ _ hcpos hpairs
  rw [totalWg, hM, hC, htotal, hN.nExpert_eq, N.dst_ne0, hB _ _ hrpos hrows, hwgM, hround]
  by_cases hm : ceilDiv N.src0.ne1 L.rows = 0
  · rw [hm, Nat.zero_mul, Nat.zero_mul]
    rfl
  · have hle := Nat.le_mul_of_pos_left (ceilDiv (N.dst.ne1 * N.dst.ne2) L.cols +
      min N.src0.ne2 (N.dst.ne1 * N.dst.ne2)) (Nat.pos_of_ne_zero hm)
    rw [u32_of_lt (n := ceilDiv (N.dst.ne1 * N.dst.ne2) L.cols + _) (by omega), u32_of_lt hworkgroups]

/-- The pairs of all the experts are pairs. -/
theorem sum_routed_le (K : Gather) (n : Nat) : ((List.range n).map fun e => (K.routed e).length).sum ≤ K.total := by
  have hsplit : ∀ (l : List Nat) (n : Nat), (l.filter fun i => K.expert i < n + 1).length =
      (l.filter fun i => K.expert i < n).length + (l.filter fun i => K.expert i = n).length := by
    intro l n
    induction l with
    | nil => rfl
    | cons i l ih =>
        simp only [List.filter_cons]
        grind -ring -linarith
  have hsum : ((List.range n).map fun e => (K.routed e).length).sum =
      ((List.range K.total).filter fun i => K.expert i < n).length := by
    induction n with
    | zero => simp
    | succ n ih =>
        rw [List.range_succ, List.map_append, List.sum_append, ih, hsplit]
        simp [Gather.routed]
  rw [hsum]
  exact (List.length_filter_le ..).trans (Nat.le_of_eq List.length_range)

variable (B ids) in
/-- The tables list what the gather dispatch is to list. -/
def Gathered (N : Node) (T : Tables) : Prop :=
  ∀ e < u32 N.src0.ne2, T.gatheredCountIds e = ((N.gather B ids).routed e).length ∧
    ((N.gather B ids).listed T e).Perm ((N.gather B ids).routed e)

/-- The tiles of all experts are no more than the workgroups asked for. -/
theorem Fits.sum_width_le (hN : N.Fits B L ids) (hB : B.Divides) (hT : N.Gathered B ids T) :
    ((List.range N.src0.ne2).map
      (N.product B L format initShmemSrc0 src1 T).width).sum ≤ N.totalWg B L := by
  have hm : u32 N.src0.ne1 = N.src0.ne1 := by
    have hrows := hN.rows
    have hpos := L.rows_pos
    exact u32_of_lt (by omega)
  have hwidth : (List.range N.src0.ne2).map
      (N.product B L format initShmemSrc0 src1 T).width =
      ((List.range N.src0.ne2).map fun e => ((N.gather B ids).routed e).length).map
        fun n => ceilDiv N.src0.ne1 L.rows * ceilDiv n L.cols := by
    rw [List.map_map]
    refine List.map_congr_left fun e he => ?_
    have he : e < u32 N.src0.ne2 := by rw [hN.nExpert_eq]; exact List.mem_range.mp he
    simp only [Product.width, product, mainParams, hm, (hT e he).1, Function.comp_apply]
  have hcounts := sum_routed_le (N.gather B ids) N.src0.ne2
  have hsum := sum_ceilDiv_le L.cols_pos
    ((List.range N.src0.ne2).map fun e => ((N.gather B ids).routed e).length)
  have hnonempty := length_filter_pos_le_sum
    ((List.range N.src0.ne2).map fun e => ((N.gather B ids).routed e).length)
  have hlength := List.length_filter_le (fun n => decide (0 < n))
    ((List.range N.src0.ne2).map fun e => ((N.gather B ids).routed e).length)
  rw [List.length_map, List.length_range] at hlength
  rw [hN.total_eq] at hcounts
  have hdown : ((List.range N.src0.ne2).map fun e => ((N.gather B ids).routed e).length).sum / L.cols ≤
      ceilDiv (N.dst.ne1 * N.dst.ne2) L.cols :=
    Nat.div_le_div_right (by have hpos := L.cols_pos; omega)
  rw [hwidth, hN.totalWg_eq hB, List.sum_map_mul_left]
  refine Nat.mul_le_mul_left _ ?_
  omega

theorem Fits.product_fits (hN : N.Fits B L ids) (hB : B.Divides) (hT : N.Gathered B ids T)
    (hgrid : N.totalWg B L ≤ (B.compute2dWorkgroups (N.totalWg B L) B.maxComputeWorkgroupsPerDimension).1 *
      (B.compute2dWorkgroups (N.totalWg B L) B.maxComputeWorkgroupsPerDimension).2)
    (hsmall : (B.compute2dWorkgroups (N.totalWg B L) B.maxComputeWorkgroupsPerDimension).1 *
      (B.compute2dWorkgroups (N.totalWg B L) B.maxComputeWorkgroupsPerDimension).2 < 2 ^ 32) :
    (N.product B L format initShmemSrc0 src1 T).Fits := by
  have hrows := hN.rows
  have hdepth := hN.depth
  have hdst := hN.dst
  have hrpos := L.rows_pos
  have hkpos := L.tileK_pos
  have hm : u32 N.src0.ne1 = N.src0.ne1 := u32_of_lt (by omega)
  have hk : u32 N.src0.ne0 = N.src0.ne0 := u32_of_lt (by omega)
  have hoff : u32 (N.dst.misalignment / N.dst.typeSize) = N.dst.misalignment / N.dst.typeSize :=
    u32_of_lt (by omega)
  constructor
  case counts =>
    intro e he
    change _ ≤ u32 N.dst.ne2
    rw [hN.nTokens_eq]
    exact (hT e he).1.trans_le (hN.room e)
  case covers =>
    change ((List.range (u32 N.src0.ne2)).map _).sum ≤ _
    rw [hN.nExpert_eq]
    exact (hN.sum_width_le hB hT).trans hgrid
  case grid => exact hsmall
  all_goals simp only [product, mainParams, hm, hk, hoff, hN.nExpert_eq, hN.nExpertUsed_eq, hN.nTokens_eq]
  case rows => exact hrows
  case cols => exact hN.cols
  case depth => exact hdepth
  case table => exact hN.table
  case dst => exact hdst

theorem Fits.mem_routed (hN : N.Fits B L ids) (e token slot : Nat) :
    (token, slot) ∈ (N.gather B ids).routed e ↔
      token < N.dst.ne2 ∧ slot < N.dst.ne1 ∧ N.expertOf ids token slot = e := by
  have hused : (N.gather B ids).params.nExpertUsed = N.dst.ne1 := hN.nExpertUsed_eq
  rw [Gather.routed, List.mem_map, hused]
  constructor
  · rintro ⟨i, hi, heq⟩
    rw [List.mem_filter, List.mem_range, hN.total_eq, decide_eq_true_eq, expert_eq B hN.nExpertUsed_eq] at hi
    obtain ⟨rfl, rfl⟩ := Prod.mk.injEq .. ▸ heq
    have hpos : 0 < N.dst.ne1 := Nat.pos_of_mul_pos_right (Nat.zero_lt_of_lt hi.1)
    exact ⟨Nat.div_lt_of_lt_mul hi.1, Nat.mod_lt i hpos, hi.2⟩
  · rintro ⟨htoken, hslot, he⟩
    have hpos : 0 < N.dst.ne1 := Nat.zero_lt_of_lt hslot
    have hdiv : (token * N.dst.ne1 + slot) / N.dst.ne1 = token := by
      rw [Nat.mul_comm, Nat.mul_add_div hpos, Nat.div_eq_of_lt hslot, Nat.add_zero]
    have hmod : (token * N.dst.ne1 + slot) % N.dst.ne1 = slot := by
      rw [Nat.mul_comm, Nat.mul_add_mod, Nat.mod_eq_of_lt hslot]
    have hlast : (token + 1) * N.dst.ne1 ≤ N.dst.ne2 * N.dst.ne1 := Nat.mul_le_mul_right _ htoken
    rw [Nat.succ_mul, Nat.mul_comm N.dst.ne2] at hlast
    refine ⟨token * N.dst.ne1 + slot, ?_, by rw [hdiv, hmod]⟩
    rw [List.mem_filter, List.mem_range, hN.total_eq, decide_eq_true_eq, expert_eq B hN.nExpertUsed_eq, hdiv,
      hmod]
    exact ⟨by omega, he⟩

theorem Fits.lists (hN : N.Fits B L ids) (hT : N.Gathered B ids T) :
    (N.product B L format initShmemSrc0 src1 T).Lists (N.expertOf ids) := by
  -- what is listed at a place, and at no other
  have hget : ∀ e < u32 N.src0.ne2, ∀ p < T.gatheredCountIds e, ((N.gather B ids).listed T e)[p]? =
      some (T.globalGatheredTokens (e * u32 N.dst.ne2 + p), T.globalGatheredExpertUsed (e * u32 N.dst.ne2 + p)) := by
    intro e _ p hp
    rw [Gather.listed, List.getElem?_map, List.getElem?_range hp]
    rfl
  constructor
  case sound =>
    intro e he p hp
    have hmem := ((hT e he).2.mem_iff).mp (List.mem_of_getElem? (hget e he p hp))
    rw [hN.mem_routed] at hmem
    change _ < u32 N.dst.ne2 ∧ _ < u32 N.dst.ne1 ∧ _
    rw [hN.nTokens_eq, hN.nExpertUsed_eq]
    exact hmem
  case complete =>
    intro token htoken slot hslot he
    change token < u32 N.dst.ne2 at htoken
    change slot < u32 N.dst.ne1 at hslot
    rw [hN.nTokens_eq] at htoken
    rw [hN.nExpertUsed_eq] at hslot
    have hmem := ((hT _ he).2.mem_iff).mpr ((hN.mem_routed _ token slot).mpr ⟨htoken, hslot, rfl⟩)
    obtain ⟨p, hp, heq⟩ := List.mem_map.mp hmem
    exact ⟨p, List.mem_range.mp hp, congrArg Prod.fst heq, congrArg Prod.snd heq⟩
  case once =>
    intro e he p hp p' hp' htoken hslot
    have hnodup : ((N.gather B ids).listed T e).Nodup := by
      refine ((hT e he).2.nodup_iff).mpr ?_
      refine List.Nodup.map_on (fun i _ j _ hij => ?_) (List.nodup_range.filter _)
      obtain ⟨hdiv, hmod⟩ := Prod.mk.injEq .. ▸ hij
      rw [← Nat.div_add_mod i (N.gather B ids).params.nExpertUsed, hdiv, hmod, Nat.div_add_mod]
    have hlength : p < ((N.gather B ids).listed T e).length := by
      rw [Gather.listed, List.length_map, List.length_range]
      exact hp
    refine (List.getElem?_inj hlength hnodup).mp ?_
    rw [hget e he p hp, hget e he p' hp']
    exact congrArg some (Prod.ext htoken hslot)

variable {A : Nat → Nat → Nat → H} {counts : Nat × Nat → Nat} {es : List ((Nat × Nat) × Nat)}
  {s : GatherState} {dst dst' : Nat → D}

/-- **The two shaders compute the product.** After any complete run of the gather dispatch and any run of the
main dispatch over the tables it left, each element of the result whose slot names an expert is the sum,
over all columns in their order, of the products of that expert's row and the token's row of `src1`; exactly
one invocation writes it, once, and no invocation writes anything else. -/
theorem mul_mat_id_computes (hB : B.Divides) (hN : N.Fits B L ids)
    (hrun : ((N.gather B ids).machine counts T).run ((N.gather B ids).machine counts T).start es = some s)
    (hend : ∀ e, (N.gather B ids).step s e = none)
    (hgrid : N.totalWg B L ≤ (B.compute2dWorkgroups (N.totalWg B L) B.maxComputeWorkgroupsPerDimension).1 *
      (B.compute2dWorkgroups (N.totalWg B L) B.maxComputeWorkgroupsPerDimension).2)
    (hsmall : (B.compute2dWorkgroups (N.totalWg B L) B.maxComputeWorkgroupsPerDimension).1 *
      (B.compute2dWorkgroups (N.totalWg B L) B.maxComputeWorkgroupsPerDimension).2 < 2 ^ 32)
    (hA : (N.product B L format initShmemSrc0 src1 s.tables).LoadsSrc0 A)
    (writes : (N.product B L format initShmemSrc0 src1 s.tables).Thread → List (Nat × D))
    (hdispatched : (N.product B L format initShmemSrc0 src1 s.tables).Dispatched writes dst dst') :
    let P := N.product B L format initShmemSrc0 src1 s.tables
    (∀ token < N.dst.ne2, ∀ slot < N.dst.ne1, ∀ row < N.src0.ne1, N.expertOf ids token slot < N.src0.ne2 →
      dst' (P.dstIndex token slot row) = P.element A (N.expertOf ids token slot) token slot row ∧
        ∃! v, P.dstIndex token slot row ∈ (writes v).map Prod.fst) ∧
    (∀ v, ((writes v).map Prod.fst).Nodup ∧ ∀ x ∈ (writes v).map Prod.fst, ∃ token < N.dst.ne2,
      ∃ slot < N.dst.ne1, ∃ row < N.src0.ne1, N.expertOf ids token slot < N.src0.ne2 ∧
        x = P.dstIndex token slot row) ∧
    ∀ x, (∀ token < N.dst.ne2, ∀ slot < N.dst.ne1, ∀ row < N.src0.ne1,
      N.expertOf ids token slot < N.src0.ne2 → x ≠ P.dstIndex token slot row) → dst' x = dst x := by
  intro P
  have hgathered : N.Gathered B ids s.tables := fun e he =>
    Gather.gather_lists (hN.gather_fits hB) ⟨es, hrun⟩ (Gather.finished_of_stuck hend) he
  have hP : P.Fits := hN.product_fits hB hgathered hgrid hsmall
  have hL : P.Lists (N.expertOf ids) := hN.lists hgathered
  obtain ⟨l, hdst, hmem⟩ := hP.dispatched hL hA hdispatched
  have helement := hP.element_of_mem hL hA hdispatched
  have hwriter := hP.exists_writer hL hA hdispatched
  have hm : P.params.m = N.src0.ne1 := by
    have hrows := hN.rows
    have hpos := L.rows_pos
    exact u32_of_lt (by omega)
  have hused : P.params.nExpertUsed = N.dst.ne1 := hN.nExpertUsed_eq
  have htokens : P.params.nTokens = N.dst.ne2 := hN.nTokens_eq
  have hexperts : P.params.nExpert = N.src0.ne2 := hN.nExpert_eq
  rw [hm, hused, htokens, hexperts] at hmem helement hwriter
  refine ⟨fun token htoken slot hslot row hrow he => ⟨?_, ?_⟩, fun v => ⟨?_, fun x hx => ?_⟩, fun x hx => ?_⟩
  · rw [hdst]
    refine store_of_agree ⟨_, (hmem _).mpr ⟨token, htoken, slot, hslot, row, hrow, he, rfl⟩, rfl⟩
      fun w hw hx => ?_
    obtain ⟨token', htoken', slot', hslot', row', hrow', he', rfl⟩ := (hmem w).mp hw
    obtain ⟨rfl, rfl, rfl⟩ := Product.dstIndex_injective (by rw [hused]; exact hslot')
      (by rw [hused]; exact hslot) (by rw [hm]; exact hrow') (by rw [hm]; exact hrow) hx
    rfl
  · obtain ⟨v, hv⟩ := hwriter token htoken slot hslot row hrow he
    have hthere := List.mem_map_of_mem (f := Prod.fst) hv
    exact ⟨v, hthere, fun v' hv' => hP.writer_unique hL hA hdispatched hv' hthere⟩
  · exact hP.nodup_dispatched hL hdispatched v
  · obtain ⟨w, hw, rfl⟩ := List.mem_map.mp hx
    obtain ⟨token, htoken, slot, hslot, row, hrow, he, rfl⟩ := helement v w hw
    exact ⟨token, htoken, slot, hslot, row, hrow, he, rfl⟩
  · rw [hdst]
    refine store_of_forall_ne fun w hw hwx => ?_
    obtain ⟨token, htoken, slot, hslot, row, hrow, he, rfl⟩ := (hmem w).mp hw
    exact hx token htoken slot hslot row hrow he hwx.symm

/-- Two experts of two rows and two columns, two tokens and whole numbers. -/
def small : Node where
  src0 := { ne0 := 2, ne1 := 2, ne2 := 2, nb1 := 8, nb2 := 16, typeSize := 4, misalignment := 0, offset := 0, nbytes := 32 }
  src1 := { ne0 := 2, ne1 := 1, ne2 := 2, nb1 := 8, nb2 := 8, typeSize := 4, misalignment := 0, offset := 0, nbytes := 16 }
  src2 := { ne0 := 1, ne1 := 2, ne2 := 1, nb1 := 4, nb2 := 8, typeSize := 4, misalignment := 0, offset := 0, nbytes := 8 }
  dst := { ne0 := 2, ne1 := 1, ne2 := 2, nb1 := 8, nb2 := 8, typeSize := 4, misalignment := 0, offset := 0, nbytes := 16 }
  dst_ne0 := rfl
  dst_ne2 := rfl

def smallBackend : Backend where
  sizeTBits := 32
  minStorageBufferOffsetAlignment := 256
  maxComputeWorkgroupsPerDimension := 65535
  maxComputeInvocationsPerWorkgroup := 2
  ceilDiv := Kernel.ceilDiv
  roundupPow2 x p := Kernel.ceilDiv x p * p
  webgpuStorageBufBindingMult := 4
  compute2dWorkgroups n _ := (n, 1)

theorem smallBackend_divides : smallBackend.Divides := fun _ _ _ _ => rfl

theorem smallTiling_small : 1 * (1 * 2) + 1 * (1 * 1) + 1 * 1 ≤ 2 ^ 32 := by omega

/-- A workgroup of one invocation takes both rows of a pair, one column at a time. -/
def smallTiling : Tiling where
  tileM := 2
  tileN := 1
  tileK := 1
  workgroupSizeM := 1
  workgroupSizeN := 1
  tileM_pos := Nat.two_pos
  tileN_pos := Nat.one_pos
  tileK_pos := Nat.one_pos
  workgroupSizeM_pos := Nat.one_pos
  workgroupSizeN_pos := Nat.one_pos
  small := smallTiling_small

def smallFormat : Format Nat Nat Nat where
  src1Zero := 0
  shmemType := id
  accZero := 0
  add := (· + ·)
  mul := (· * ·)
  storeVal := id

/-- The first token is routed to the second expert, the second token to the first one. -/
def smallIds (i : Nat) : BitVec 32 := if i = 0 then 1 else 0

theorem small_fits : small.Fits smallBackend smallTiling smallIds := by
  constructor <;> decide

/-- The elements of the matrices are numbered from one on. -/
def smallElement (batch row col : Nat) : Nat := batch + 2 * row + col + 1

def smallLoad (_ batch offsetM kOuter : Nat) : List (Nat × Nat) :=
  [(0, smallElement batch offsetM kOuter), (1, smallElement batch (offsetM + 1) kOuter)]

theorem smallLoad_loads {P : Product Nat Nat Nat} (htiling : P.tiling = smallTiling)
    (hload : P.initShmemSrc0 = smallLoad) : P.LoadsSrc0 smallElement := by
  constructor
  · intro t _ batch offsetM kOuter w hw
    rw [hload, smallLoad, List.mem_cons, List.mem_singleton] at hw
    rw [htiling]
    obtain rfl | rfl := hw
    · change 0 < 2
      decide
    · change 1 < 2
      decide
  · intro batch offsetM kOuter tm tk htm htk _ _
    rw [htiling] at htm htk ⊢
    change tm < 2 at htm
    obtain rfl : tk = 0 := Nat.lt_one_iff.mp htk
    have hplace : 0 + tm * smallTiling.tileK = tm := by
      rw [Nat.zero_add]
      exact Nat.mul_one tm
    rw [hplace, hload]
    have hwrites : ∀ w ∈ smallLoad 0 batch offsetM kOuter, w.1 = tm → w.2 = smallElement batch (offsetM + tm) kOuter := by
      intro w hw hplace
      rw [smallLoad, List.mem_cons, List.mem_singleton] at hw
      obtain rfl | rfl := hw
      · rw [← hplace]
        rfl
      · rw [← hplace]
    refine ⟨⟨0, Nat.one_pos, ?_⟩, fun t _ => hwrites⟩
    obtain rfl | rfl : tm = 0 ∨ tm = 1 := by omega
    · exact ⟨_, List.mem_cons_self, rfl⟩
    · exact ⟨_, List.mem_cons_of_mem _ List.mem_cons_self, rfl⟩

/-- The second row of the first token: 7 * 1 + 8 * 2. -/
theorem mul_mat_id_computes_small : ∃ (s : GatherState)
    (writes : (small.product smallBackend smallTiling smallFormat smallLoad (· + 1) s.tables).Thread → List (Nat × Nat))
    (dst' : Nat → Nat), (small.product smallBackend smallTiling smallFormat smallLoad (· + 1) s.tables).Dispatched writes
      (fun _ => 0) dst' ∧ dst' 1 = 23 ∧ ∃! v, 1 ∈ (writes v).map Prod.fst := by
  obtain ⟨es, s, hrun, hend⟩ := Gather.exists_stuck (small_fits.gather_fits smallBackend_divides) (fun _ => 7)
    ⟨fun _ => 9, fun _ => 9, fun _ => 9⟩
    (Gather.sound_of_reachable (small_fits.gather_fits smallBackend_divides) .start)
  obtain ⟨writes, dst', hdispatched⟩ := Product.exists_dispatched
    (small.product smallBackend smallTiling smallFormat smallLoad (· + 1) s.tables) (fun _ => 0) fun _ => 1
  have hcomputes := (mul_mat_id_computes smallBackend_divides small_fits hrun hend (by decide) (by decide)
    (smallLoad_loads rfl rfl) writes hdispatched).1 0 (by decide) 0 (by decide) 1 (by decide) (by decide)
  exact ⟨s, writes, dst', hdispatched, hcomputes⟩

/-! ### The lists behind the result -/

/-- What is kept of a number in a `size_t`. -/
def sizeT (B : Backend) (n : Nat) : Nat := n % 2 ^ B.sizeTBits

def gatheredBufNbytes (N : Node) (B : Backend) : Nat := sizeT B (N.src0.ne2 * N.src1.ne2 * 4)

def gatheredExpertUsedAlignOffset (N : Node) (B : Backend) : Nat :=
  B.roundupPow2 (sizeT B (N.dst.offset + N.dst.nbytes)) B.minStorageBufferOffsetAlignment

def gatheredTokensAlignOffset (N : Node) (B : Backend) : Nat :=
  B.roundupPow2 (sizeT B (N.gatheredExpertUsedAlignOffset B + N.gatheredBufNbytes B))
    B.minStorageBufferOffsetAlignment

def gatheredCountIdsAlignOffset (N : Node) (B : Backend) : Nat :=
  B.roundupPow2 (sizeT B (N.gatheredTokensAlignOffset B + N.gatheredBufNbytes B)) B.minStorageBufferOffsetAlignment

def gatheredBindingSize (N : Node) (B : Backend) : Nat :=
  B.roundupPow2 (N.gatheredBufNbytes B) B.webgpuStorageBufBindingMult

def gatheredCountIdsBindingSize (N : Node) (B : Backend) : Nat :=
  B.roundupPow2 (sizeT B (N.src0.ne2 * 4)) B.webgpuStorageBufBindingMult

/-- The `GGML_OP_MUL_MAT_ID` case of `get_alloc_size`, from the size `res` there is so far. -/
def getAllocSize (N : Node) (B : Backend) (res : Nat) : Nat :=
  let gatheredSize := sizeT B (4 * N.src0.ne2 * N.src1.ne2)
  let gatheredCountIdsSize := sizeT B (4 * N.src0.ne2)
  B.roundupPow2 (sizeT B (res + gatheredSize * 2 + gatheredCountIdsSize + u32 (B.minStorageBufferOffsetAlignment * 3)))
    B.webgpuStorageBufBindingMult

theorem sizeT_of_lt {B : Backend} (hB : B.Aligns) {n : Nat} (hn : n < 2 ^ 32) : sizeT B n = n :=
  Nat.mod_eq_of_lt (hn.trans_le (Nat.pow_le_pow_right Nat.two_pos hB.sizeTBits))

/-- An offset is rounded up to the alignment, by less than the alignment. -/
theorem aligned {B : Backend} (hB : B.Aligns) {x : Nat} (hx : x + B.minStorageBufferOffsetAlignment ≤ 2 ^ 32) :
    B.minStorageBufferOffsetAlignment ∣ B.roundupPow2 (sizeT B x) B.minStorageBufferOffsetAlignment ∧
      x ≤ B.roundupPow2 (sizeT B x) B.minStorageBufferOffsetAlignment ∧
      B.roundupPow2 (sizeT B x) B.minStorageBufferOffsetAlignment < x + B.minStorageBufferOffsetAlignment := by
  obtain ⟨k, hk⟩ := hB.alignment
  have hpos : 0 < 2 ^ k := Nat.two_pow_pos k
  rw [hk] at hx ⊢
  rw [sizeT_of_lt hB (by omega)]
  exact hB.roundupPow2 x k hx

/-- A size is not rounded down. -/
theorem le_bindingSize {B : Backend} (hB : B.Aligns) {x : Nat} (hx : x + 4 ≤ 2 ^ 32) :
    x ≤ B.roundupPow2 x B.webgpuStorageBufBindingMult := by
  obtain ⟨k, hk, hmult⟩ := hB.mult
  have hle : 2 ^ k ≤ 4 := Nat.pow_le_pow_right Nat.two_pos hk
  rw [hmult]
  exact (hB.roundupPow2 x k (by omega)).2.1

/-- A size that is a whole number of words is not rounded. -/
theorem bindingSize_words {B : Backend} (hB : B.Aligns) {n : Nat} (hn : n * 4 + 4 ≤ 2 ^ 32) :
    B.roundupPow2 (n * 4) B.webgpuStorageBufBindingMult = n * 4 := by
  obtain ⟨k, hk, hmult⟩ := hB.mult
  have hle : 2 ^ k ≤ 4 := Nat.pow_le_pow_right Nat.two_pos hk
  obtain ⟨hdvd, hge, hlt⟩ := hB.roundupPow2 (n * 4) k (by omega)
  rw [hmult]
  -- what is added is a multiple of the power, and less than it
  have hword : 2 ^ k ∣ n * 4 := Dvd.dvd.mul_left (Nat.pow_dvd_pow 2 hk) n
  have hadded := Nat.eq_zero_of_dvd_of_lt (Nat.dvd_sub hdvd hword) (by omega)
  omega

theorem gatheredBufNbytes_eq {B : Backend} (hB : B.Aligns) (h : N.src0.ne2 * N.src1.ne2 * 4 + 4 ≤ 2 ^ 32) :
    N.gatheredBufNbytes B = N.src0.ne2 * N.src1.ne2 * 4 := sizeT_of_lt hB (by omega)

theorem gatheredBindingSize_eq {B : Backend} (hB : B.Aligns) (h : N.src0.ne2 * N.src1.ne2 * 4 + 4 ≤ 2 ^ 32) :
    N.gatheredBindingSize B = N.src0.ne2 * N.src1.ne2 * 4 := by
  rw [gatheredBindingSize, N.gatheredBufNbytes_eq hB h]
  exact bindingSize_words hB h

theorem gatheredCountIdsBindingSize_eq {B : Backend} (hB : B.Aligns) (h : N.src0.ne2 * 4 + 4 ≤ 2 ^ 32) :
    N.gatheredCountIdsBindingSize B = N.src0.ne2 * 4 := by
  rw [gatheredCountIdsBindingSize, sizeT_of_lt hB (by omega)]
  exact bindingSize_words hB h

/-- What is asked for has both tables, the counts and three alignments. -/
theorem le_getAllocSize {B : Backend} (hB : B.Aligns) (res : Nat)
    (h : res + N.src0.ne2 * N.src1.ne2 * 8 + N.src0.ne2 * 4 + B.minStorageBufferOffsetAlignment * 3 + 4 ≤ 2 ^ 32) :
    res + N.src0.ne2 * N.src1.ne2 * 8 + N.src0.ne2 * 4 + B.minStorageBufferOffsetAlignment * 3 ≤
      N.getAllocSize B res := by
  have hwords : 4 * N.src0.ne2 * N.src1.ne2 = N.src0.ne2 * N.src1.ne2 * 4 := by
    rw [Nat.mul_assoc, Nat.mul_comm]
  rw [getAllocSize, hwords, Nat.mul_comm 4, sizeT_of_lt hB (n := N.src0.ne2 * 4) (by omega),
    sizeT_of_lt hB (n := N.src0.ne2 * N.src1.ne2 * 4) (by omega),
    u32_of_lt (n := B.minStorageBufferOffsetAlignment * 3) (by omega), sizeT_of_lt hB (by omega)]
  have hround := le_bindingSize hB (x := res + N.src0.ne2 * N.src1.ne2 * 4 * 2 + N.src0.ne2 * 4 +
    B.minStorageBufferOffsetAlignment * 3) (by omega)
  omega

/-- **The lists of the experts have room of their own.** They start where a binding may, behind the result
and one behind the other, every place an expert's list can take is within its binding, and the last of
them ends within what `get_alloc_size` asked for, as long as that ends below 4 GiB. -/
theorem lists_have_room (N : Node) (B : Backend) (hB : B.Aligns) {res : Nat} (hres : N.dst.nbytes ≤ res)
    (hsize : N.dst.offset + res + N.src0.ne2 * N.src1.ne2 * 8 + N.src0.ne2 * 4 +
      B.minStorageBufferOffsetAlignment * 3 + 4 ≤ 2 ^ 32) :
    (B.minStorageBufferOffsetAlignment ∣ N.gatheredExpertUsedAlignOffset B ∧
      B.minStorageBufferOffsetAlignment ∣ N.gatheredTokensAlignOffset B ∧
      B.minStorageBufferOffsetAlignment ∣ N.gatheredCountIdsAlignOffset B) ∧
    N.dst.offset + N.dst.nbytes ≤ N.gatheredExpertUsedAlignOffset B ∧
    N.gatheredExpertUsedAlignOffset B + N.gatheredBindingSize B ≤ N.gatheredTokensAlignOffset B ∧
    N.gatheredTokensAlignOffset B + N.gatheredBindingSize B ≤ N.gatheredCountIdsAlignOffset B ∧
    N.gatheredCountIdsAlignOffset B + N.gatheredCountIdsBindingSize B ≤ N.dst.offset + N.getAllocSize B res ∧
    ∀ e < N.src0.ne2, 4 * (e + 1) ≤ N.gatheredCountIdsBindingSize B ∧
      ∀ pos < N.dst.ne2, 4 * (e * N.dst.ne2 + pos + 1) ≤ N.gatheredBindingSize B := by
  have hbuf := N.gatheredBufNbytes_eq hB (by omega)
  have halloc := N.le_getAllocSize hB res (by omega)
  obtain ⟨husedDvd, hused, husedLt⟩ := aligned hB (x := N.dst.offset + N.dst.nbytes) (by omega)
  rw [← gatheredExpertUsedAlignOffset] at husedDvd hused husedLt
  obtain ⟨htokensDvd, htokens, htokensLt⟩ :=
    aligned hB (x := N.gatheredExpertUsedAlignOffset B + N.gatheredBufNbytes B) (by omega)
  rw [← gatheredTokensAlignOffset] at htokensDvd htokens htokensLt
  obtain ⟨hcountsDvd, hcounts, hcountsLt⟩ :=
    aligned hB (x := N.gatheredTokensAlignOffset B + N.gatheredBufNbytes B) (by omega)
  rw [← gatheredCountIdsAlignOffset] at hcountsDvd hcounts hcountsLt
  rw [N.gatheredBindingSize_eq hB (by omega), N.gatheredCountIdsBindingSize_eq hB (by omega)]
  refine ⟨⟨husedDvd, htokensDvd, hcountsDvd⟩, hused, by omega, by omega, by omega,
    fun e he => ⟨by omega, fun pos hpos => ?_⟩⟩
  have hlast : (e + 1) * N.dst.ne2 ≤ N.src0.ne2 * N.dst.ne2 := Nat.mul_le_mul_right _ he
  rw [Nat.succ_mul] at hlast
  rw [← N.dst_ne2]
  omega

theorem smallBackend_aligns : smallBackend.Aligns where
  roundupPow2 x k _ := by
    have hpos := Nat.two_pow_pos k
    have hle : Kernel.ceilDiv x (2 ^ k) * 2 ^ k ≤ x + 2 ^ k - 1 := Nat.div_mul_le_self ..
    change 2 ^ k ∣ Kernel.ceilDiv x (2 ^ k) * 2 ^ k ∧ x ≤ Kernel.ceilDiv x (2 ^ k) * 2 ^ k ∧
      Kernel.ceilDiv x (2 ^ k) * 2 ^ k < x + 2 ^ k
    exact ⟨Nat.dvd_mul_left .., le_ceilDiv_mul hpos, by omega⟩
  alignment := ⟨8, rfl⟩
  mult := ⟨2, Nat.le_refl 2, rfl⟩
  sizeTBits := Nat.le_refl 32

theorem lists_have_room_small :
    small.gatheredCountIdsAlignOffset smallBackend + small.gatheredCountIdsBindingSize smallBackend ≤
      small.dst.offset + small.getAllocSize smallBackend 16 :=
  (lists_have_room small smallBackend smallBackend_aligns (show small.dst.nbytes ≤ 16 by decide)
    (by decide)).2.2.2.2.1

end Node

end MulMatId

import LlmRuntime.MulMatId.Model
import Mathlib.Data.List.Nodup
import Mathlib.Data.List.Flatten

/-!
# Which tile a workgroup works on

The tiles of all the experts stand in one row, expert by expert, and a workgroup takes the tile at its own
number. The row is no longer than what the dispatch allows for: each expert rounds its pairs up to whole
tiles once.
-/

namespace Kernel

variable {ι : Type*}

/-- `width i` numbered entries for each `i`. -/
def blocks (width : ι → Nat) (is : List ι) : List (ι × Nat) :=
  is.flatMap fun i => (List.range (width i)).map fun b => (i, b)

theorem blocks_cons (width : ι → Nat) (i : ι) (is : List ι) :
    blocks width (i :: is) = (List.range (width i)).map (fun b => (i, b)) ++ blocks width is :=
  List.flatMap_cons

theorem length_blocks (width : ι → Nat) (is : List ι) : (blocks width is).length = (is.map width).sum := by
  rw [blocks, List.length_flatMap]
  simp

theorem mem_blocks {width : ι → Nat} {is : List ι} {i : ι} {b : Nat} :
    (i, b) ∈ blocks width is ↔ i ∈ is ∧ b < width i := by
  simp [blocks]

theorem nodup_blocks {width : ι → Nat} {is : List ι} (h : is.Nodup) : (blocks width is).Nodup := by
  refine List.nodup_flatMap.mpr ⟨fun i _ => List.nodup_range.map fun a b hab => (Prod.ext_iff.mp hab).2, ?_⟩
  refine h.imp fun {i j} hij p hi hj => hij ?_
  obtain ⟨_, _, rfl⟩ := List.mem_map.mp hi
  obtain ⟨_, _, heq⟩ := List.mem_map.mp hj
  exact (Prod.ext_iff.mp heq).1.symm

/-- Rounding the parts up costs at most one tile for each part that is not empty. -/
theorem sum_ceilDiv_le {c : Nat} (hc : 0 < c) (ns : List Nat) :
    (ns.map fun n => ceilDiv n c).sum ≤ ns.sum / c + (ns.filter (0 < ·)).length := by
  induction ns with
  | nil => simp
  | cons n ns ih =>
      have hn := ceilDiv_le (a := n) hc
      have hsplit : n / c + ns.sum / c ≤ (n + ns.sum) / c := Nat.div_add_div_le_add_div
      rw [List.map_cons, List.sum_cons, List.sum_cons, List.filter_cons]
      split at hn
      case isTrue hpos =>
        rw [if_pos (decide_eq_true hpos), List.length_cons]
        omega
      case isFalse hpos =>
        rw [if_neg (by simpa using hpos)]
        omega

theorem length_filter_pos_le_sum (ns : List Nat) : (ns.filter (0 < ·)).length ≤ ns.sum := by
  induction ns with
  | nil => simp
  | cons n ns ih =>
      rw [List.filter_cons, List.sum_cons]
      split
      case isTrue hpos =>
        have hn : 0 < n := of_decide_eq_true hpos
        rw [List.length_cons]
        omega
      case isFalse => omega

end Kernel

namespace MulMatId

open Kernel

namespace Tiling

theorem rows_pos (L : Tiling) : 0 < L.rows := Nat.mul_pos L.workgroupSizeM_pos L.tileM_pos

theorem cols_pos (L : Tiling) : 0 < L.cols := Nat.mul_pos L.workgroupSizeN_pos L.tileN_pos

theorem totalWorkgroupSize_pos (L : Tiling) : 0 < L.totalWorkgroupSize :=
  Nat.mul_pos L.workgroupSizeM_pos L.workgroupSizeN_pos

end Tiling

namespace Product

variable {S H D : Type*} {P : Product S H D} {e b x : Nat}

/-- The workgroups an expert's product takes. -/
def width (P : Product S H D) (e : Nat) : Nat :=
  ceilDiv P.params.m P.tiling.rows * ceilDiv (P.tables.gatheredCountIds e) P.tiling.cols

/-- The sizes for which the shader's 32 bit arithmetic is arithmetic, and the workgroups enough. -/
structure Fits (P : Product S H D) : Prop where
  rows : P.params.m + P.tiling.rows ≤ 2 ^ 32
  cols : P.params.nTokens + P.tiling.cols ≤ 2 ^ 32
  depth : P.params.k + P.tiling.tileK ≤ 2 ^ 32
  table : P.params.nExpert * P.params.nTokens ≤ 2 ^ 32
  dst : P.params.offsetDst + P.params.nTokens * (P.params.m * P.params.nExpertUsed) < 2 ^ 32
  grid : P.numWgX * P.numWgY < 2 ^ 32
  counts : ∀ e < P.params.nExpert, P.tables.gatheredCountIds e ≤ P.params.nTokens
  covers : ((List.range P.params.nExpert).map P.width).sum ≤ P.numWgX * P.numWgY

theorem Fits.wgMCount_eq (hP : P.Fits) : P.wgMCount = ceilDiv P.params.m P.tiling.rows := by
  have hrows := hP.rows
  have hpos := P.tiling.rows_pos
  rw [wgMCount, u32_of_lt (by omega), ceilDiv]

theorem Fits.wgNCount_eq (hP : P.Fits) (he : e < P.params.nExpert) :
    P.wgNCount e = ceilDiv (P.tables.gatheredCountIds e) P.tiling.cols := by
  have hcols := hP.cols
  have hpos := P.tiling.cols_pos
  have hcount := hP.counts e he
  rw [wgNCount, u32_of_lt (by omega), ceilDiv]

/-- The search finds what stands at the number of the workgroup in the row of all tiles. -/
theorem Fits.findExpert_eq (hP : P.Fits) (is : List Nat) (his : ∀ i ∈ is, i < P.params.nExpert) {sum : Nat}
    (hsum : sum + (is.map P.width).sum < 2 ^ 32) (hx : sum ≤ x) (hsmall : x < 2 ^ 32) :
    P.findExpert x sum is = (blocks P.width is)[x - sum]? := by
  induction is generalizing sum with
  | nil => rfl
  | cons i is ih =>
      rw [List.map_cons, List.sum_cons] at hsum
      have hwidth : u32 (P.wgMCount * P.wgNCount i) = P.width i := by
        rw [hP.wgMCount_eq, hP.wgNCount_eq (his i List.mem_cons_self)]
        refine u32_of_lt ?_
        change P.width i < _
        omega
      have hnext : u32 (sum + P.width i) = sum + P.width i := u32_of_lt (by omega)
      have hlength : ((List.range (P.width i)).map fun b => (i, b)).length = P.width i := by simp
      rw [findExpert, hwidth, hnext, blocks_cons]
      by_cases hin : x < sum + P.width i
      · rw [if_pos ⟨hx, hin⟩, List.getElem?_append_left (by omega), sub32_of_le hx hsmall, List.getElem?_map,
          List.getElem?_range (by omega)]
        rfl
      · rw [if_neg (fun h => hin h.2), ih (fun j hj => his j (List.mem_cons_of_mem i hj)) (by omega) (by omega),
          List.getElem?_append_right (by omega), hlength, Nat.sub_sub]

/-- The tiles of all the experts. -/
def tiles (P : Product S H D) : List (Nat × Nat) := blocks P.width (List.range P.params.nExpert)

theorem Fits.wgLinear_eq (hP : P.Fits) {wg : Nat × Nat} (hx : wg.1 < P.numWgX) (hy : wg.2 < P.numWgY) :
    P.wgLinear wg = wg.2 * P.numWgX + wg.1 := by
  have hgrid := hP.grid
  have hlast : (wg.2 + 1) * P.numWgX ≤ P.numWgY * P.numWgX := Nat.mul_le_mul_right _ hy
  rw [Nat.succ_mul, Nat.mul_comm P.numWgY] at hlast
  exact u32_of_lt (by omega)

theorem Fits.task_eq (hP : P.Fits) {wg : Nat × Nat} (hx : wg.1 < P.numWgX) (hy : wg.2 < P.numWgY) :
    P.task wg = (P.tiles[wg.2 * P.numWgX + wg.1]?).map P.taskAt := by
  have hgrid := hP.grid
  have hcovers := hP.covers
  have hlast : (wg.2 + 1) * P.numWgX ≤ P.numWgY * P.numWgX := Nat.mul_le_mul_right _ hy
  rw [Nat.succ_mul, Nat.mul_comm P.numWgY] at hlast
  rw [task, hP.wgLinear_eq hx hy, hP.findExpert_eq _ (fun i hi => List.mem_range.mp hi) (by omega)
    (Nat.zero_le _) (by omega), Nat.sub_zero]
  rfl

/-- A tile of an expert that has one is some workgroup's. -/
theorem Fits.exists_wg (hP : P.Fits) (he : e < P.params.nExpert) (hb : b < P.width e) :
    ∃ wg : Nat × Nat, wg.1 < P.numWgX ∧ wg.2 < P.numWgY ∧ P.task wg = some (P.taskAt (e, b)) := by
  have hmem : (e, b) ∈ P.tiles := mem_blocks.mpr ⟨List.mem_range.mpr he, hb⟩
  obtain ⟨x, hlt, hget⟩ := List.mem_iff_getElem.mp hmem
  have hgrid : x < P.numWgX * P.numWgY := by
    rw [tiles, length_blocks] at hlt
    exact Nat.lt_of_lt_of_le hlt hP.covers
  have hpos : 0 < P.numWgX := by
    rcases Nat.eq_zero_or_pos P.numWgX with hzero | hpos
    · rw [hzero, Nat.zero_mul] at hgrid
      omega
    · exact hpos
  refine ⟨(x % P.numWgX, x / P.numWgX), Nat.mod_lt x hpos, Nat.div_lt_of_lt_mul hgrid, ?_⟩
  rw [hP.task_eq (Nat.mod_lt x hpos) (Nat.div_lt_of_lt_mul hgrid)]
  simp only [Nat.div_add_mod', List.getElem?_eq_getElem hlt, hget, Option.map_some]

/-- A workgroup's task is the tile at its own number. -/
theorem Fits.task_tile (hP : P.Fits) {wg : Nat × Nat} (hx : wg.1 < P.numWgX) (hy : wg.2 < P.numWgY)
    {T : Task} (hT : P.task wg = some T) : ∃ b, P.tiles[wg.2 * P.numWgX + wg.1]? = some (T.expert, b) ∧
      T.expert < P.params.nExpert ∧
      T.offsetWgM = b % ceilDiv P.params.m P.tiling.rows * P.tiling.rows ∧ T.offsetWgM < P.params.m ∧
      T.offsetWgN = b / ceilDiv P.params.m P.tiling.rows * P.tiling.cols ∧
        T.offsetWgN < P.tables.gatheredCountIds T.expert := by
  rw [hP.task_eq hx hy, Option.map_eq_some_iff] at hT
  obtain ⟨⟨e, b⟩, hget, rfl⟩ := hT
  obtain ⟨he, hb⟩ := mem_blocks.mp (List.mem_of_getElem? hget)
  rw [List.mem_range] at he
  have hcount := hP.counts e he
  have hcols := hP.cols
  have hrows := hP.rows
  have hcpos := P.tiling.cols_pos
  have hrpos := P.tiling.rows_pos
  rw [width] at hb
  have hm : 0 < ceilDiv P.params.m P.tiling.rows := Nat.pos_of_mul_pos_right (Nat.zero_lt_of_lt hb)
  have hoffM : b % ceilDiv P.params.m P.tiling.rows * P.tiling.rows < P.params.m :=
    (lt_ceilDiv hrpos).mp (Nat.mod_lt b hm)
  have hoffN : b / ceilDiv P.params.m P.tiling.rows * P.tiling.cols < P.tables.gatheredCountIds e :=
    (lt_ceilDiv hcpos).mp (Nat.div_lt_of_lt_mul hb)
  refine ⟨b, hget, he, ?_⟩
  simp only [taskAt, hP.wgMCount_eq]
  rw [u32_of_lt (by omega), u32_of_lt (by omega)]
  exact ⟨rfl, hoffM, rfl, hoffN⟩

/-- No two workgroups have one tile. -/
theorem Fits.task_injective (hP : P.Fits) {wg wg' : Nat × Nat} (hx : wg.1 < P.numWgX)
    (hy : wg.2 < P.numWgY) (hx' : wg'.1 < P.numWgX) (hy' : wg'.2 < P.numWgY) {T : Task}
    (hT : P.task wg = some T) (hT' : P.task wg' = some T) : wg = wg' := by
  obtain ⟨b, hget, -, hM, -, hN, -⟩ := hP.task_tile hx hy hT
  obtain ⟨b', hget', -, hM', -, hN', -⟩ := hP.task_tile hx' hy' hT'
  have hmod := Nat.eq_of_mul_eq_mul_right P.tiling.rows_pos (hM.symm.trans hM')
  have hdiv := Nat.eq_of_mul_eq_mul_right P.tiling.cols_pos (hN.symm.trans hN')
  have hb : b = b' := by
    rw [← Nat.div_add_mod b (ceilDiv P.params.m P.tiling.rows), hmod, hdiv, Nat.div_add_mod]
  have hnodup : P.tiles.Nodup := nodup_blocks List.nodup_range
  have hlt := (List.getElem?_eq_some_iff.mp hget).1
  have hsum := (List.getElem?_inj hlt hnodup).mp (hget.trans (hb ▸ hget'.symm))
  obtain ⟨hy, hx⟩ := eq_of_mul_add_eq hx hx' hsum
  exact Prod.ext hx hy

/-- The tile that holds a row and a pair of an expert. -/
theorem Fits.exists_task (hP : P.Fits) (he : e < P.params.nExpert) {row p : Nat} (hrow : row < P.params.m)
    (hp : p < P.tables.gatheredCountIds e) :
    ∃ wg : Nat × Nat, wg.1 < P.numWgX ∧ wg.2 < P.numWgY ∧
      P.task wg = some ⟨e, row / P.tiling.rows * P.tiling.rows, p / P.tiling.cols * P.tiling.cols⟩ := by
  have hcount := hP.counts e he
  have hcols := hP.cols
  have hrows := hP.rows
  have hcpos := P.tiling.cols_pos
  have hrpos := P.tiling.rows_pos
  have hm : row / P.tiling.rows < ceilDiv P.params.m P.tiling.rows :=
    (lt_ceilDiv hrpos).mpr (Nat.lt_of_le_of_lt (Nat.div_mul_le_self ..) hrow)
  have hn : p / P.tiling.cols < ceilDiv (P.tables.gatheredCountIds e) P.tiling.cols :=
    (lt_ceilDiv hcpos).mpr (Nat.lt_of_le_of_lt (Nat.div_mul_le_self ..) hp)
  have hb : p / P.tiling.cols * ceilDiv P.params.m P.tiling.rows + row / P.tiling.rows < P.width e := by
    have hlast : (p / P.tiling.cols + 1) * ceilDiv P.params.m P.tiling.rows ≤
        ceilDiv (P.tables.gatheredCountIds e) P.tiling.cols * ceilDiv P.params.m P.tiling.rows :=
      Nat.mul_le_mul_right _ hn
    rw [Nat.succ_mul, Nat.mul_comm (ceilDiv (P.tables.gatheredCountIds e) _)] at hlast
    rw [width]
    omega
  obtain ⟨wg, hx, hy, htask⟩ := hP.exists_wg he hb
  refine ⟨wg, hx, hy, htask.trans ?_⟩
  have hpos : 0 < ceilDiv P.params.m P.tiling.rows := Nat.zero_lt_of_lt hm
  have hmle := Nat.div_mul_le_self row P.tiling.rows
  have hnle := Nat.div_mul_le_self p P.tiling.cols
  rw [taskAt, hP.wgMCount_eq, Nat.mul_comm (p / P.tiling.cols), Nat.mul_add_mod, Nat.mod_eq_of_lt hm,
    Nat.mul_add_div hpos, Nat.div_eq_of_lt hm, Nat.add_zero, u32_of_lt (by omega), u32_of_lt (by omega)]

end Product

end MulMatId

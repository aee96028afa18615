import LlmRuntime.Base.Kernel
import LlmRuntime.Base.Transition

/-!
# The expert product on the GPU

`patches/0004` gives the WebGPU backend the product of each token's row with the matrices of the experts
the token was routed to. One dispatch (`mul_mat_id_gather.wgsl`) lists, for each expert, the pairs of a
token and a slot that name it: a workgroup for each expert, whose invocations stride over all the ids and
take places in the expert's list from one atomic counter. A second one (`mul_mat_id.wgsl`) cuts each list
into tiles, gives each tile of the result to a workgroup, and multiplies. The sizes of both dispatches and
the place of the lists behind the result come from `ggml_webgpu_mul_mat_id`.

The 32 bit arithmetic of the shaders is taken as it is. The product of the shaders is over a format of which
nothing is assumed, so what is proved of a sum is proved of the order in which its terms are added.
-/

namespace MulMatId

open Kernel

/-- `MulMatIdGatherParams`. -/
structure GatherParams where
  offsetIds : Nat
  nExpert : Nat
  nExpertUsed : Nat
  nTokens : Nat
  strideIds1 : Nat
deriving DecidableEq, Repr

/-- A dispatch of the gather shader: its grid, the size of a workgroup and the ids it is bound to. -/
structure Gather where
  params : GatherParams
  wgSize : Nat
  numWgX : Nat
  numWgY : Nat
  ids : Nat → BitVec 32

namespace Gather

/-- `row * stride_ids_1 + col` for the `i`-th pair, read as `u32`. -/
def expert (K : Gather) (i : Nat) : Nat :=
  let row := i / K.params.nExpertUsed
  let col := i % K.params.nExpertUsed
  (K.ids (u32 (K.params.offsetIds + row * K.params.strideIds1 + col))).toNat

/-- The bound of the loop over the ids. -/
def total (K : Gather) : Nat := u32 (K.params.nExpertUsed * K.params.nTokens)

/-- The expert assigned to a workgroup. -/
def ownExpert (K : Gather) (wg : Nat × Nat) : Nat := u32 (wg.2 * K.numWgX + wg.1)

end Gather

/-- The buffers between the two shaders. -/
structure Tables where
  globalGatheredExpertUsed : Nat → Nat
  globalGatheredTokens : Nat → Nat
  gatheredCountIds : Nat → Nat

/-- What an invocation of the gather shader does next: enter, wait at the first barrier, test an id, take a
place for it, write its slot, write its token, wait at the second barrier, write the count, nothing. -/
inductive Invocation
  | enter
  | cleared
  | loop (i : Nat)
  | found (i : Nat)
  | claimed (i pos : Nat)
  | half (i pos : Nat)
  | gathered
  | closing
  | left
deriving DecidableEq, Repr

namespace Invocation

/-- At the second barrier, or past it. -/
def IsPast : Invocation → Bool
  | gathered => true
  | closing => true
  | left => true
  | _ => false

end Invocation

/-- A workgroup: its counter, and where each invocation stands. -/
structure Workgroup where
  count : Nat
  invocation : Nat → Invocation

structure GatherState where
  workgroup : Nat × Nat → Workgroup
  tables : Tables

namespace GatherState

def moveTo (s : GatherState) (wg : Nat × Nat) (t : Nat) (a : Invocation) : GatherState :=
  { s with
    workgroup := Function.update s.workgroup wg
      { s.workgroup wg with invocation := Function.update (s.workgroup wg).invocation t a } }

def setCount (s : GatherState) (wg : Nat × Nat) (n : Nat) : GatherState :=
  { s with workgroup := Function.update s.workgroup wg { s.workgroup wg with count := n } }

def writeExpertUsed (s : GatherState) (i v : Nat) : GatherState :=
  { s with
    tables :=
      { s.tables with globalGatheredExpertUsed := Function.update s.tables.globalGatheredExpertUsed i v } }

def writeToken (s : GatherState) (i v : Nat) : GatherState :=
  { s with
    tables := { s.tables with globalGatheredTokens := Function.update s.tables.globalGatheredTokens i v } }

def writeCountIds (s : GatherState) (i v : Nat) : GatherState :=
  { s with tables := { s.tables with gatheredCountIds := Function.update s.tables.gatheredCountIds i v } }

variable (s : GatherState) (wg : Nat × Nat) (t n i v : Nat) (a : Invocation)

@[simp] theorem workgroup_moveTo : (s.moveTo wg t a).workgroup wg =
    { s.workgroup wg with invocation := Function.update (s.workgroup wg).invocation t a } :=
  Function.update_self ..

@[simp] theorem workgroup_setCount : (s.setCount wg n).workgroup wg = { s.workgroup wg with count := n } :=
  Function.update_self ..

theorem workgroup_moveTo_of_ne {wg' : Nat × Nat} (h : wg' ≠ wg) :
    (s.moveTo wg t a).workgroup wg' = s.workgroup wg' :=
  Function.update_of_ne h ..

theorem workgroup_setCount_of_ne {wg' : Nat × Nat} (h : wg' ≠ wg) :
    (s.setCount wg n).workgroup wg' = s.workgroup wg' :=
  Function.update_of_ne h ..

@[simp] theorem tables_moveTo : (s.moveTo wg t a).tables = s.tables := rfl

@[simp] theorem tables_setCount : (s.setCount wg n).tables = s.tables := rfl

@[simp] theorem workgroup_writeExpertUsed : (s.writeExpertUsed i v).workgroup = s.workgroup := rfl

@[simp] theorem workgroup_writeToken : (s.writeToken i v).workgroup = s.workgroup := rfl

@[simp] theorem workgroup_writeCountIds : (s.writeCountIds i v).workgroup = s.workgroup := rfl

end GatherState

namespace Gather

/-- `gathered_id`. -/
def gatheredId (K : Gather) (wg : Nat × Nat) (pos : Nat) : Nat :=
  u32 (K.ownExpert wg * K.params.nTokens + pos)

/-- One step of the invocation `t` of the workgroup `wg`. At a barrier it waits for the others. -/
def advance (K : Gather) (s : GatherState) (wg : Nat × Nat) (t : Nat) :
    Invocation → Option GatherState
  | .enter =>
      if K.ownExpert wg < K.params.nExpert then
        some ((if t = 0 then s.setCount wg 0 else s).moveTo wg t .cleared)
      else some (s.moveTo wg t .left)
  | .cleared =>
      if ∀ t' < K.wgSize, (s.workgroup wg).invocation t' ≠ .enter then some (s.moveTo wg t (.loop t))
      else none
  | .loop i =>
      if i < K.total then
        if K.ownExpert wg = K.expert i then some (s.moveTo wg t (.found i))
        else some (s.moveTo wg t (.loop (u32 (i + K.wgSize))))
      else some (s.moveTo wg t .gathered)
  | .found i =>
      let pos := (s.workgroup wg).count
      some ((s.setCount wg (u32 (pos + 1))).moveTo wg t (.claimed i pos))
  | .claimed i pos =>
      some ((s.writeExpertUsed (K.gatheredId wg pos) (i % K.params.nExpertUsed)).moveTo wg t (.half i pos))
  | .half i pos =>
      some ((s.writeToken (K.gatheredId wg pos) (i / K.params.nExpertUsed)).moveTo wg t
        (.loop (u32 (i + K.wgSize))))
  | .gathered =>
      if ∀ t' < K.wgSize, ((s.workgroup wg).invocation t').IsPast then
        some (s.moveTo wg t (if t = 0 then .closing else .left))
      else none
  | .closing =>
      some ((s.writeCountIds (K.ownExpert wg) (s.workgroup wg).count).moveTo wg t .left)
  | .left => none

/-- The workgroups and invocations of the dispatch. -/
def InGrid (K : Gather) (wg : Nat × Nat) : Prop := wg.1 < K.numWgX ∧ wg.2 < K.numWgY

instance (K : Gather) (wg : Nat × Nat) : Decidable (K.InGrid wg) := inferInstanceAs (Decidable (_ ∧ _))

/-- One step of the dispatch, by an invocation of it: any of them, whichever stepped before. -/
def step (K : Gather) (s : GatherState) (e : (Nat × Nat) × Nat) : Option GatherState :=
  if K.InGrid e.1 ∧ e.2 < K.wgSize then K.advance s e.1 e.2 ((s.workgroup e.1).invocation e.2) else none

/-- The dispatch over tables and counters that hold anything. -/
def machine (K : Gather) (count : Nat × Nat → Nat) (tables : Tables) :
    Transition GatherState ((Nat × Nat) × Nat) where
  start := { workgroup := fun wg => { count := count wg, invocation := fun _ => .enter }, tables := tables }
  step := K.step

/-- Every invocation of the dispatch has left. -/
def Finished (K : Gather) (s : GatherState) : Prop :=
  ∀ wg, K.InGrid wg → ∀ t < K.wgSize, (s.workgroup wg).invocation t = .left

/-- The pairs of a token and a slot that name the expert `e`, in the order of the ids. -/
def routed (K : Gather) (e : Nat) : List (Nat × Nat) :=
  ((List.range K.total).filter fun i => K.expert i = e).map fun i =>
    (i / K.params.nExpertUsed, i % K.params.nExpertUsed)

/-- The pairs the tables list for the expert `e`. -/
def listed (K : Gather) (T : Tables) (e : Nat) : List (Nat × Nat) :=
  (List.range (T.gatheredCountIds e)).map fun p =>
    (T.globalGatheredTokens (e * K.params.nTokens + p), T.globalGatheredExpertUsed (e * K.params.nTokens + p))

end Gather

/-! ### `mul_mat_id.wgsl` -/

/-- `MulMatIdParams`. -/
structure MulMatIdParams where
  offsetSrc0 : Nat
  offsetSrc1 : Nat
  offsetDst : Nat
  k : Nat
  m : Nat
  nExpert : Nat
  nExpertUsed : Nat
  nTokens : Nat
  bNe1 : Nat
  stride01 : Nat
  stride11 : Nat
  stride02 : Nat
  stride12 : Nat
deriving DecidableEq, Repr

/-- The sizes a variant of the shader is compiled with. -/
structure Tiling where
  tileM : Nat
  tileN : Nat
  tileK : Nat
  workgroupSizeM : Nat
  workgroupSizeN : Nat
  tileM_pos : 0 < tileM
  tileN_pos : 0 < tileN
  tileK_pos : 0 < tileK
  workgroupSizeM_pos : 0 < workgroupSizeM
  workgroupSizeN_pos : 0 < workgroupSizeN
  /-- The memory a workgroup shares is far below what 32 bits count. -/
  small : tileK * (workgroupSizeM * tileM) + tileK * (workgroupSizeN * tileN) +
    workgroupSizeM * workgroupSizeN ≤ 2 ^ 32

namespace Tiling

def totalWorkgroupSize (L : Tiling) : Nat := L.workgroupSizeM * L.workgroupSizeN

/-- The rows of a workgroup's tile. -/
def rows (L : Tiling) : Nat := L.workgroupSizeM * L.tileM

/-- The pairs of a workgroup's tile. -/
def cols (L : Tiling) : Nat := L.workgroupSizeN * L.tileN

def tileSrc0Shmem (L : Tiling) : Nat := L.tileK * L.rows

def tileSrc1Shmem (L : Tiling) : Nat := L.tileK * L.cols

def getLocalN (L : Tiling) (threadId : Nat) : Nat := threadId / L.workgroupSizeM

def getLocalM (L : Tiling) (threadId : Nat) : Nat := threadId % L.workgroupSizeM

end Tiling

/-- The numbers of the shader: those of `src1`, those it multiplies and adds, those of `dst`. -/
structure Format (S H D : Type*) where
  src1Zero : S
  shmemType : S → H
  accZero : H
  add : H → H → H
  mul : H → H → H
  storeVal : H → D

/-- A dispatch of the shader. How `init_shmem_src0` reads a matrix depends on its format, so the writes of
each invocation are a parameter. -/
structure Product (S H D : Type*) where
  params : MulMatIdParams
  tiling : Tiling
  format : Format S H D
  numWgX : Nat
  numWgY : Nat
  src1 : Nat → S
  tables : Tables
  initShmemSrc0 : (threadId batchOffset offsetM kOuter : Nat) → List (Nat × H)

/-- The lists of pairs a workgroup shares. -/
inductive Local
  | gatheredExpertUsed (i : Nat)
  | gatheredTokens (i : Nat)
deriving DecidableEq, Repr

namespace Product

variable {S H D : Type*} (P : Product S H D)

def wgMCount : Nat := u32 (P.params.m + P.tiling.rows - 1) / P.tiling.rows

def wgNCount (i : Nat) : Nat := u32 (P.tables.gatheredCountIds i + P.tiling.cols - 1) / P.tiling.cols

/-- The search for the expert of a workgroup, from `wg_sum` on: the expert and `wg_in_batch`, or none where
`expert_idx` stays `0xFFFFFFFF`. -/
def findExpert (wgLinear : Nat) : (wgSum : Nat) → List Nat → Option (Nat × Nat)
  | _, [] => none
  | wgSum, i :: is =>
      let wgPerMatrix := u32 (P.wgMCount * P.wgNCount i)
      if wgSum ≤ wgLinear ∧ wgLinear < u32 (wgSum + wgPerMatrix) then some (i, sub32 wgLinear wgSum)
      else findExpert wgLinear (u32 (wgSum + wgPerMatrix)) is

def wgLinear (wg : Nat × Nat) : Nat := u32 (wg.2 * P.numWgX + wg.1)

/-- What a workgroup works on. -/
structure Task where
  expert : Nat
  offsetWgM : Nat
  offsetWgN : Nat
deriving DecidableEq, Repr

/-- The tile of an expert's product that stands at `wg_in_batch`. -/
def taskAt (found : Nat × Nat) : Task where
  expert := found.1
  offsetWgM := u32 (found.2 % P.wgMCount * P.tiling.rows)
  offsetWgN := u32 (found.2 / P.wgMCount * P.tiling.cols)

def task (wg : Nat × Nat) : Option Task :=
  (P.findExpert (P.wgLinear wg) 0 (List.range P.params.nExpert)).map P.taskAt

variable (T : Task)

def src0BatchOffset : Nat := u32 (P.params.offsetSrc0 + T.expert * P.params.stride02)

def restTokenN : Nat := sub32 (P.tables.gatheredCountIds T.expert) T.offsetWgN

/-- The copy of the pairs of the tile, as far as there are any. -/
def copies (threadId : Nat) : List (Local × Nat) :=
  let globalGatheredBase := u32 (T.expert * P.params.nTokens + T.offsetWgN)
  (indices P.tiling.totalWorkgroupSize
    (fun i => i < P.tiling.cols && u32 (T.offsetWgN + i) < P.tables.gatheredCountIds T.expert)
    P.tiling.cols threadId).flatMap fun i =>
      [(.gatheredExpertUsed i, P.tables.globalGatheredExpertUsed (u32 (globalGatheredBase + i))),
        (.gatheredTokens i, P.tables.globalGatheredTokens (u32 (globalGatheredBase + i)))]

/-- What `init_shmem_id_src1` stores at `TILE_SRC0_SHMEM + elem_idx`. -/
def idSrc1Val (shared : Local → Nat) (kOuter elemIdx : Nat) : H :=
  let tileN := elemIdx / P.tiling.tileK
  let tileK := elemIdx % P.tiling.tileK
  if tileN < P.restTokenN T then
    let globalSrc10 := u32 (kOuter + tileK)
    let expertUsedIdx := shared (.gatheredExpertUsed tileN) % P.params.bNe1
    let tokenIdx := shared (.gatheredTokens tileN)
    let src1Idx := u32 (P.params.offsetSrc1 + tokenIdx * P.params.stride12 +
      expertUsedIdx * P.params.stride11 + globalSrc10)
    P.format.shmemType (if globalSrc10 < P.params.k then P.src1 src1Idx else P.format.src1Zero)
  else P.format.shmemType P.format.src1Zero

/-- `init_shmem_id_src1`, one element at a time. -/
def initShmemIdSrc1 (shared : Local → Nat) (threadId kOuter : Nat) : List (Nat × H) :=
  (indices P.tiling.totalWorkgroupSize (fun elemIdx => elemIdx < P.tiling.tileSrc1Shmem)
    P.tiling.tileSrc1Shmem threadId).map fun elemIdx =>
      (P.tiling.tileSrc0Shmem + elemIdx, P.idSrc1Val T shared kOuter elemIdx)

/-- What an invocation writes to the shared memory between two barriers. -/
def loads (shared : Local → Nat) (kOuter threadId : Nat) : List (Nat × H) :=
  P.initShmemSrc0 threadId (P.src0BatchOffset T) T.offsetWgM kOuter ++
    P.initShmemIdSrc1 T shared threadId kOuter

/-- One round of the loop over `k_inner`: a product is added to each sum of the invocation. -/
def accumulate (threadId : Nat) (shmem : Nat → H) (acc : Nat → Nat → H) (kInner : Nat) :
    Nat → Nat → H := fun tn tm =>
  if tn < P.tiling.tileN ∧ tm < P.tiling.tileM then
    let src0M := P.tiling.getLocalM threadId * P.tiling.tileM + tm
    let src1N := P.tiling.getLocalN threadId * P.tiling.tileN + tn
    P.format.add (acc tn tm)
      (P.format.mul (shmem (kInner + src0M * P.tiling.tileK))
        (shmem (P.tiling.tileSrc0Shmem + (src1N * P.tiling.tileK + kInner))))
  else acc tn tm

/-- The loop over `k_inner`. -/
def accumulateTile (threadId kOuter : Nat) (shmem : Nat → H) (acc : Nat → Nat → H) : Nat → Nat → H :=
  (List.range (min P.tiling.tileK (sub32 P.params.k kOuter))).foldl (P.accumulate threadId shmem) acc

/-- The loop over `k_outer`: the invocations load, wait for each other, add up, and wait again. -/
inductive Rounds (shared : Local → Nat) :
    List Nat → (Nat → H) → (Nat → Nat → Nat → H) → (Nat → Nat → Nat → H) → Prop
  | nil {shmem : Nat → H} {acc : Nat → Nat → Nat → H} : Rounds shared [] shmem acc acc
  | cons {kOuter : Nat} {kOuters : List Nat} {shmem : Nat → H} {acc acc' : Nat → Nat → Nat → H}
      {l : List (Nat × H)}
      (hloads : Interleaving (fun t : Fin P.tiling.totalWorkgroupSize => P.loads T shared kOuter t) l)
      (hrest : Rounds shared kOuters (store shmem l)
        (fun t => P.accumulateTile t kOuter (store shmem l) (acc t)) acc') :
      Rounds shared (kOuter :: kOuters) shmem acc acc'

/-- The values of `k_outer`. -/
def kOuters : List Nat := indices P.tiling.tileK (fun kOuter => kOuter < P.params.k) P.params.k 0

/-- What an invocation writes to `dst`. -/
def stores (shared : Local → Nat) (threadId : Nat) (acc : Nat → Nat → H) : List (Nat × D) :=
  let outputRowBase := u32 (T.offsetWgM + P.tiling.getLocalM threadId * P.tiling.tileM)
  let outputColBase := u32 (T.offsetWgN + P.tiling.getLocalN threadId * P.tiling.tileN)
  let dst2Stride := u32 (P.params.m * P.params.nExpertUsed)
  let dst1Stride := P.params.m
  (List.range P.tiling.tileN).flatMap fun tn =>
    let nIdx := u32 (outputColBase + tn)
    if nIdx < P.tables.gatheredCountIds T.expert then
      let dst1Idx := shared (.gatheredExpertUsed (sub32 nIdx T.offsetWgN))
      let dst2Idx := shared (.gatheredTokens (sub32 nIdx T.offsetWgN))
      let dst12Offset := u32 (P.params.offsetDst + dst2Idx * dst2Stride + dst1Idx * dst1Stride)
      (List.range P.tiling.tileM).flatMap fun tm =>
        let globalRow := u32 (outputRowBase + tm)
        if globalRow < P.params.m then [(u32 (dst12Offset + globalRow), P.format.storeVal (acc tn tm))]
        else []
    else []

/-- A run of the workgroup `wg`, over a shared memory that holds anything: what each invocation of it
writes to `dst`. -/
inductive WorkgroupRun (wg : Nat × Nat) :
    (Fin P.tiling.totalWorkgroupSize → List (Nat × D)) → Prop
  | idle (htask : P.task wg = none) : WorkgroupRun wg fun _ => []
  | busy {T : Task} (htask : P.task wg = some T) {shared : Local → Nat} {l : List (Local × Nat)}
      (hcopies : Interleaving (fun t : Fin P.tiling.totalWorkgroupSize => P.copies T t) l)
      {shmem : Nat → H} {acc : Nat → Nat → Nat → H}
      (hrounds : P.Rounds T (store shared l) P.kOuters shmem (fun _ _ _ => P.format.accZero) acc) :
      WorkgroupRun wg fun t => P.stores T (store shared l) t (acc t)

/-- An invocation of the dispatch, by its workgroup and its place there. -/
abbrev Thread := (Fin P.numWgX × Fin P.numWgY) × Fin P.tiling.totalWorkgroupSize

/-- A run of the dispatch in which each invocation writes what `writes` says: the workgroups share `dst` only,
and write to it in any order. -/
def Dispatched (writes : P.Thread → List (Nat × D)) (dst dst' : Nat → D) : Prop :=
  (∀ wg, P.WorkgroupRun (wg.1, wg.2) fun t => writes (wg, t)) ∧ ∃ l, Interleaving writes l ∧ dst' = store dst l

end Product

end MulMatId

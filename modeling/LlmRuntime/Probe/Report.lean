import LlmRuntime.Gguf.Alignment
import LlmRuntime.Gguf.Decoding
import LlmRuntime.Base.Checks

/-!
# The report of the header probe

`summarise` and `report` of `scripts/probe-gguf-header.mjs`. The report names the largest tensor without
asking whether there is one. How floating-point numbers are written is a parameter.
-/

namespace LlmRuntime.Probe

open Gguf

/-! ### Values as text -/

/-- What template literals and `mib` make of numbers. `beyond n x` is `Math.max(0, n - x)`. -/
structure Printing (ν : Type) where
  number : ν → String
  float32 : BitVec 32 → String
  float64 : BitVec 64 → String
  mib : ν → String
  wholeMib : Nat → String
  beyond : Nat → ν → ν

variable {ν : Type} (printing : Printing ν)

def showScalar : Scalar → String
  | .number n => toString n
  | .bigint n => toString n
  | .boolean b => toString b
  | .float32 bits => printing.float32 bits
  | .float64 bits => printing.float64 bits

/-- `${value}` of what `metaValue` returns, which is the entry itself for an array. -/
def showValue : Value → String
  | .string s => s
  | .scalar value => showScalar printing value
  | .array _ _ _ => "[object Object]"

/-- Neither a zero nor a NaN. -/
def truthyFloat (magnitude infinity : Nat) : Bool := 0 < magnitude && magnitude ≤ infinity

def truthy : Value → Bool
  | .string s => s ≠ ""
  | .scalar (.number n) => n ≠ 0
  | .scalar (.bigint n) => n ≠ 0
  | .scalar (.boolean b) => b
  | .scalar (.float32 bits) => truthyFloat (bits.toNat % 2 ^ 31) (0xff * 2 ^ 23)
  | .scalar (.float64 bits) => truthyFloat (bits.toNat % 2 ^ 63) (0x7ff * 2 ^ 52)
  | .array _ _ _ => true

def isArray : Value → Bool
  | .array _ _ _ => true
  | .string _ | .scalar _ => false

def metaValue (header : Header ν) (key : String) : Option Value := header.metadata.get key

def utf16Length (s : String) : Nat := (s.toList.map fun c => if c.toNat < 0x10000 then 1 else 2).sum

def padEnd (s : String) (width : Nat) : String := s ++ String.ofList (List.replicate (width - utf16Length s) ' ')

/-! ### summarise -/

def WEBGPU_MUL_MAT_TYPES : List String :=
  ["F32", "F16", "Q4_0", "Q4_1", "Q5_0", "Q5_1", "Q8_0", "Q2_K", "Q3_K", "Q4_K", "Q5_K", "Q6_K",
    "IQ2_XXS", "IQ2_XS", "IQ2_S", "IQ3_XXS", "IQ3_S", "IQ1_S", "IQ1_M", "IQ4_NL", "IQ4_XS"]

def WEBGPU_MUL_MAT_ID_TYPES : List String :=
  ["F32", "F16", "Q4_0", "Q4_1", "Q5_0", "Q5_1", "Q8_0", "Q2_K", "Q3_K", "Q4_K", "Q5_K", "Q6_K"]

/-- `/\.ffn_(gate|up|down|gate_up)_exps(\.|$)/` -/
def isExpert (name : String) : Bool :=
  name.toList.tails.any fun rest =>
    [".ffn_gate_exps", ".ffn_up_exps", ".ffn_down_exps", ".ffn_gate_up_exps"].any fun part =>
      part.toList.isPrefixOf rest && ((rest.drop part.toList.length).head?.getD '.' == '.')

def includes (name part : String) : Bool := name.toList.tails.any fun rest => part.toList.isPrefixOf rest

/-- `new Set(items)`, in the order of insertion. -/
def distinct (items : List String) : List String := items.eraseDups

/-- One round of the loops for the largest tensor. -/
def larger (largest : Option Tensor) (tensor : Tensor) : Option Tensor :=
  match largest with
  | none => some tensor
  | some other => if tensor.bytes > other.bytes then some tensor else some other

structure Summary where
  arch : Option Value
  hparams : List (String × Value)
  byType : JsMap String Nat
  totalBytes : Nat
  largest : Option Tensor
  largestExpert : Option Tensor
  nextn : List Tensor
  experts : List Tensor
  expertTypes : List String
  nonExpertTypes : List String
  fused : Bool
  split : Bool
  expertBias : List Tensor
  unsupportedForMulMatId : List String
  unsupportedForMulMat : List String
  bytesFetched : Nat
  requests : Nat

def hparams (header : Header ν) : List (String × Value) :=
  match metaValue header "general.architecture" with
  | none => []
  | some arch => header.metadata.entries.filter fun entry =>
      truthy arch && (showValue printing arch ++ ".").toList.isPrefixOf entry.1.toList && !isArray entry.2

/-- `bytesFetched` and `requests` are what the source says. -/
def summarise (header : Header ν) (bytesFetched requests : Nat) : Summary :=
  let experts := header.tensors.filter fun t => isExpert t.name
  let expertTypes := distinct (experts.map Tensor.typeName)
  let nonExpertTypes := distinct ((header.tensors.filter fun t => !isExpert t.name).map Tensor.typeName)
  { arch := metaValue header "general.architecture"
    hparams := hparams printing header
    byType := header.tensors.foldl (fun m t => m.set t.typeName ((m.get t.typeName).getD 0 + 1)) .empty
    totalBytes := (header.tensors.map Tensor.bytes).sum
    largest := header.tensors.foldl larger none
    largestExpert := experts.foldl larger none
    nextn := header.tensors.filter fun t => includes t.name "nextn"
    experts
    expertTypes
    nonExpertTypes
    fused := header.tensors.any fun t => includes t.name "ffn_gate_up_exps"
    split := header.tensors.any fun t => includes t.name "ffn_gate_exps"
    expertBias := header.tensors.filter fun t => isExpert t.name && t.name.endsWith ".bias"
    unsupportedForMulMatId := expertTypes.filter fun t => !WEBGPU_MUL_MAT_ID_TYPES.contains t
    unsupportedForMulMat := nonExpertTypes.filter fun t => !WEBGPU_MUL_MAT_TYPES.contains t
    bytesFetched
    requests }

/-! ### report -/

/-- The object whose property is read. -/
def deref (tensor : Option Tensor) (property : String) : Except String Tensor :=
  match tensor with
  | none => .error ("TypeError: Cannot read properties of null (reading '" ++ property ++ "')")
  | some tensor => .ok tensor

def showDims (tensor : Tensor) : String := ", ".intercalate (tensor.dims.map toString)

def listed (types : List String) : String := if types = [] then "none" else ", ".intercalate types

def showMeta (value : Option Value) (absent : String) : String := (value.map (showValue printing)).getD absent

variable (header : Header ν) (s : Summary)

def parseLines : List String :=
  let overshoot := printing.beyond s.bytesFetched header.dataStart
  ["== parse ==",
    s!"  fully parsed      : yes ({header.kvCount} metadata keys, {header.tensorCount} tensor descriptors)",
    s!"  bytes fetched     : {s.bytesFetched} ({printing.wholeMib s.bytesFetched}) in {s.requests} request(s)",
    s!"  descriptors end   : {header.descriptorsEnd}",
    s!"  tensor data starts: {printing.number header.dataStart} (alignment {printing.number header.alignment})",
    s!"  overshoot into data: {printing.number overshoot} ({printing.mib overshoot})" ++
      " - fetched past the header, not parsed"]

def identityLines : List String :=
  ["", "== identity ==",
    "  general.architecture : " ++ showMeta printing s.arch "(absent)",
    s!"  gguf version         : {header.version}",
    "  tokenizer.ggml.model : " ++ showMeta printing (metaValue header "tokenizer.ggml.model") "(absent)",
    "  tokenizer.ggml.pre   : " ++
      showMeta printing (metaValue header "tokenizer.ggml.pre") "(absent -> llama.cpp uses the default pre-type)",
    "  chat template        : " ++
      if header.metadata.has "tokenizer.chat_template" then "present" else "absent"]

def hparamLines : List String :=
  ["", "== hparams =="] ++
    s.hparams.map fun entry => s!"  {padEnd entry.1 44} {showValue printing entry.2}"

def tensorLines : Except String (List String) := do
  let largest ← deref s.largest "name"
  pure ["", "== tensors ==",
    s!"  count            : {header.tensorCount}",
    s!"  tensor bytes     : {s.totalBytes} ({printing.wholeMib s.totalBytes})",
    s!"  largest tensor   : {largest.name} {largest.typeName} [{showDims largest}] = {largest.bytes}" ++
      s!" ({printing.wholeMib largest.bytes})",
    "  types            : " ++ ", ".intercalate (s.byType.entries.map fun entry => s!"{entry.1}x{entry.2}")]

def moeLines : Except String (List String) :=
  if s.experts = [] then pure ["", "== MoE ==", "  expert tensors   : none (dense model)"]
  else do
    let largestExpert ← deref s.largestExpert "name"
    let layout := (if s.fused then "fused ffn_gate_up_exps" else "") ++
      (if s.fused && s.split then " + " else "") ++ if s.split then "split gate/up" else ""
    let bias := if s.expertBias.length > 0 then s!"{s.expertBias.length} tensors -> GGML_OP_ADD_ID needed"
      else "none -> GGML_OP_ADD_ID not needed"
    pure ["", "== MoE ==",
      s!"  expert tensors   : {s.experts.length} ({layout})",
      "  expert types     : " ++ ", ".intercalate s.expertTypes,
      s!"  expert bias      : {bias}",
      s!"  largest expert   : {largestExpert.name} = {largestExpert.bytes}" ++
        s!" ({printing.wholeMib largestExpert.bytes})"]

def nextnLines : List String :=
  let predict := metaValue header (showMeta printing s.arch "undefined" ++ ".nextn_predict_layers")
  ["", "== MTP / NextN ==",
    "  nextn tensors    : " ++ if s.nextn.length = 0 then "none" else s!"{s.nextn.length} present"] ++
  (s.nextn.take 6).map (fun t => s!"      {t.name} {t.typeName} [{showDims t}]") ++
  (if s.nextn.length > 6 then [s!"      ... and {s.nextn.length - 6} more"] else []) ++
  ["  nextn_predict_layers : " ++ showMeta printing predict "(absent)"]

def gateLines : List String :=
  ["", "== WebGPU executability (type gate only) ==",
    s!"  MUL_MAT types unsupported     : {listed s.unsupportedForMulMat}",
    "  MUL_MAT_ID types unsupported  : " ++
      if s.experts.length = 0 then "n/a (no expert tensors)" else listed s.unsupportedForMulMatId,
    "  note: this checks quantisation types only. Tensor size against",
    "        maxStorageBufferBindingSize is a per-device limit - compare the largest",
    "        tensor above with the value measured on the actual peer."]

def report : Except String String := do
  let tensors ← tensorLines printing header s
  let moe ← moeLines printing s
  pure ("\n".intercalate (parseLines printing header s ++ identityLines printing header s ++
    hparamLines printing s ++ tensors ++ moe ++ nextnLines printing header s ++ gateLines s))

/-! ### When it is written -/

theorem foldl_larger_ne_none {tensors : List Tensor} {largest : Option Tensor} (h : tensors ≠ [] ∨ largest ≠ none) :
    tensors.foldl larger largest ≠ none := by
  induction tensors generalizing largest with
  | nil => exact h.resolve_left fun hne => hne rfl
  | cons t rest ih =>
      apply ih
      right
      cases largest with
      | none => exact Option.some_ne_none t
      | some other =>
          rw [larger]
          split
          · exact Option.some_ne_none t
          · exact Option.some_ne_none other

theorem deref_ok {tensor : Option Tensor} (h : tensor ≠ none) (property : String) :
    ∃ t, deref tensor property = .ok t := by
  obtain ⟨t, rfl⟩ := Option.ne_none_iff_exists'.mp h
  exact ⟨t, rfl⟩

/-- Where there are expert tensors there is a largest one. -/
theorem moeLines_ok (bytesFetched requests : Nat) :
    ∃ lines, moeLines printing (summarise printing header bytesFetched requests) = .ok lines := by
  rw [moeLines]
  by_cases hexperts : (summarise printing header bytesFetched requests).experts = []
  · rw [if_pos hexperts]
    exact ⟨_, rfl⟩
  · have hlargest : (summarise printing header bytesFetched requests).largestExpert ≠ none :=
      foldl_larger_ne_none (.inl hexperts)
    obtain ⟨t, ht⟩ := deref_ok hlargest "name"
    rw [if_neg hexperts, ht]
    exact ⟨_, rfl⟩

/-- The report of a header is written if and only if the header has tensors. -/
theorem report_ok_iff (printing : Printing ν) (header : Header ν) (bytesFetched requests : Nat) :
    (∃ text, report printing header (summarise printing header bytesFetched requests) = .ok text) ↔
      header.tensors ≠ [] := by
  obtain ⟨moe, hmoe⟩ := moeLines_ok printing header bytesFetched requests
  constructor
  · rintro ⟨text, htext⟩ hempty
    have hlargest : (summarise printing header bytesFetched requests).largest = none := by
      rw [summarise]
      dsimp only
      rw [hempty]
      rfl
    rw [report, tensorLines, hlargest] at htext
    exact nomatch htext
  · intro htensors
    have hlargest : (summarise printing header bytesFetched requests).largest ≠ none :=
      foldl_larger_ne_none (.inl htensors)
    obtain ⟨t, ht⟩ := deref_ok hlargest "name"
    rw [report, tensorLines, ht, hmoe]
    exact ⟨_, rfl⟩

/-- 24 bytes: no metadata and no tensors. -/
def bareHeader : Format.Header where
  version := 3
  metadata := []
  tensors := []
  version_eq := Format.version_three
  nodup := by decide
  metadata_short := by decide
  tensors_short := Format.short_nil

def bareFile : Uint8Array where
  buffer := bareHeader.encode
  byteOffset := 0
  length := bareHeader.encode.length
  within := Nat.le_of_eq (Nat.zero_add _)
  indexable := by decide +kernel

/-- It is read, and what comes instead of its report is the error of the largest tensor's name. -/
theorem not_report_bareFile : ∃ h s',
    readGgufHeader textDecoder (wholeFile bareFile) binary64Doubles () = .ok h s' ∧
      ∀ (printing : Printing Binary64) (bytesFetched requests : Nat),
        report printing h (summarise printing h bytesFetched requests) =
          .error "TypeError: Cannot read properties of null (reading 'name')" := by
  have hfile : bareHeader.encode <+: bareFile.toList := by
    rw [Uint8Array.toList]
    exact ⟨[], by decide +kernel⟩
  obtain ⟨s', hrun⟩ := wholeFile_reads binary64Doubles bareHeader hfile
  exact ⟨_, s', hrun, fun printing bytesFetched requests => rfl⟩

end LlmRuntime.Probe

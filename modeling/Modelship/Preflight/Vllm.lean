import Mathlib.Data.List.Infix
import Modelship.Foundation.Rounding
import Modelship.Preflight.Base
import Modelship.Utils.ConfigSchema

namespace Modelship.Preflight
open Foundation ConfigSchema

-- The CPU branch of `VllmPreflight`, in exact arithmetic.

def defaultBlockSize : Int := 16
def minMaxNumSeqs : Int := 8
def overheadWeightFraction : Rat := 14 / 100
def cpuRamUtilization : Rat := 8 / 10
def cpuOverheadFixedBytes : Rat := 2 * 1024 ^ 3
def cpuKvSequences : Rat := 4
def unknownContextLengthCap : Nat := 32768
def windowSlackTokens : Int := 16

structure SlidingWindowInfo where
  fullLayers : Int
  slidingLayers : Int
  totalLayers : Int
  window : Int

-- What a text config says of its layers. An entry of `layer_types` that is no string is `none`.
structure TextConfig where
  slidingWindow : Option Int
  useSlidingWindow : Option Bool
  numHiddenLayers : Option Int
  numLayers : Option Int
  layerTypes : List (Option String)
  slidingWindowPattern : Option Int

def slides (layerType : Option String) : Bool := layerType.any fun name => decide ("sliding".toList <:+: name.toList)

-- Counted by their types, else every Nth has full attention, else all slide.
def TextConfig.slidingLayers (text : TextConfig) (total : Int) : Int :=
  if text.layerTypes ≠ [] then text.layerTypes.countP slides else
  match text.slidingWindowPattern with
  | some pattern => if 0 < pattern then total - total / pattern else total
  | none => total

-- A window or a count of zero is read as missing.
def resolveSlidingWindow (text : TextConfig) : Option SlidingWindowInfo :=
  (text.slidingWindow.filter (· ≠ 0)).bind fun window =>
    if text.useSlidingWindow = some false then none else
    ((text.numHiddenLayers.filter (· ≠ 0)).or (text.numLayers.filter (· ≠ 0))).bind fun total =>
      let sliding := text.slidingLayers total
      if sliding ≤ 0 then none else some ⟨total - sliding,sliding,total,window⟩

structure MambaStateInfo where
  perSeqStateBytes : Nat
  fullAttentionLayers : Nat
  totalLayers : Nat
  defaultMaxNumSeqs : Nat

-- What `config.json` and the weight files tell of a model. The KV bytes of a token are a product of
-- counts that are checked to be there.
structure Geometry where
  kvPerToken : Nat
  positive : 0 < kvPerToken
  weightBytes : Nat
  maxPositionEmbeddings : Option Nat
  mamba : Option MambaStateInfo
  sliding : Option SlidingWindowInfo

structure Recommendation where
  gpuMemoryUtilization : Rat
  maxNumSeqs : Option Int
  deriving DecidableEq

def seqKvBytes (kvPerToken : Rat) (sliding : Option SlidingWindowInfo) (length : Int) : Rat :=
  match sliding with
  | none => kvPerToken * length
  | some layers =>
    let perLayer := kvPerToken / layers.totalLayers
    let windowTokens := min (layers.window + windowSlackTokens) length
    perLayer * (layers.fullLayers * length + layers.slidingLayers * windowTokens)

def fitLenWithSliding (budget kvPerToken : Rat) (layers : SlidingWindowInfo) (ctxCap : Int) : Int :=
  let perLayer := kvPerToken / layers.totalLayers
  let fullPerToken := perLayer * layers.fullLayers
  let slidingPerToken := perLayer * layers.slidingLayers
  let windowTokens : Rat := layers.window + windowSlackTokens
  if budget < (fullPerToken + slidingPerToken) * windowTokens then min ⌊budget / (fullPerToken + slidingPerToken)⌋ ctxCap
  else if fullPerToken ≤ 0 then ctxCap
  else min ⌊(budget - slidingPerToken * windowTokens) / fullPerToken⌋ ctxCap

def correctKvForHybrid (kvPerToken : Rat) (mamba : MambaStateInfo) : Rat :=
  if mamba.totalLayers = 0 then kvPerToken else kvPerToken * mamba.fullAttentionLayers / mamba.totalLayers

-- Tokens in whole blocks, and no more than the target where there is one.
def alignedTokens (tokens : Int) : Int := tokens / defaultBlockSize * defaultBlockSize

def fitLen (budget kvPerToken : Rat) (targetLen : Nat) : Int :=
  let tokens := if kvPerToken > 0 then ⌊budget / kvPerToken⌋ else 0
  if targetLen ≠ 0 then min (alignedTokens tokens) targetLen else alignedTokens tokens

-- Whether the full context fits, and the context at the floor of sequence slots.
def keepsTarget (budgetAtFloor kvPerToken : Rat) (targetLen : Nat) : Prop :=
  targetLen ≠ 0 ∧ budgetAtFloor ≥ targetLen * kvPerToken

instance (budgetAtFloor kvPerToken : Rat) (targetLen : Nat) : Decidable (keepsTarget budgetAtFloor kvPerToken targetLen) :=
  inferInstanceAs (Decidable (_ ∧ _))

def floorLen (budgetAtFloor kvPerToken : Rat) (targetLen : Nat) : Int :=
  if keepsTarget budgetAtFloor kvPerToken targetLen then targetLen else fitLen budgetAtFloor kvPerToken targetLen

-- The context length and the sequence slots of a hybrid model, where a pool of memory has room for one.
def applyHybridFit (kvPool : Rat) (perSeqState : Nat) (kvPerToken : Rat) (targetLen : Nat) (userMaxNumSeqs : Option Int)
    (defaultMaxNumSeqs : Nat) : Option (Int × Option Int) :=
  match userMaxNumSeqs with
  | some pinned =>
    let budget := kvPool - perSeqState * pinned
    let suggested := if budget > 0 then fitLen budget kvPerToken targetLen else 0
    if suggested < defaultBlockSize then none else some (suggested,none)
  | none =>
    let budgetAtFloor := kvPool - perSeqState * minMaxNumSeqs
    if budgetAtFloor ≤ 0 then none else
    let chosenLen := floorLen budgetAtFloor kvPerToken targetLen
    if ¬keepsTarget budgetAtFloor kvPerToken targetLen ∧ chosenLen < defaultBlockSize then none else
    let leftover := budgetAtFloor - chosenLen * kvPerToken
    let extra := if perSeqState > 0 then ⌊leftover / perSeqState⌋ else 0
    some (chosenLen,some (min defaultMaxNumSeqs (minMaxNumSeqs + max extra 0)))

def cpuGmu (reservation : Rat) (denomRam : Int) : Rat := min (max (roundThousandths (reservation / denomRam)) (1 / 100)) (9 / 10)

-- The weights with their overhead, and the fixed one.
def Geometry.overheads (geometry : Geometry) : Rat :=
  geometry.weightBytes + overheadWeightFraction * geometry.weightBytes + cpuOverheadFixedBytes

def kvBudget (hw : HardwareProfile) (geometry : Geometry) : Rat :=
  hw.sizingRamBytes * cpuRamUtilization - geometry.weightBytes - overheadWeightFraction * geometry.weightBytes -
    cpuOverheadFixedBytes

section
variable {Rest : Type}

-- `max_num_seqs` pinned to zero is read as not pinned once the fit is done.
def chosenSeqs (config : ModelshipModelConfig Rest) (fitted : Option Int) : Int :=
  match fitted with
  | some seqs => seqs
  | none =>
    match config.vllmEngineKwargs.maxNumSeqs with
    | none => minMaxNumSeqs
    | some pinned => if pinned = 0 then minMaxNumSeqs else pinned

def recommendCpuAutoGmuHybrid (config : ModelshipModelConfig Rest) (hw : HardwareProfile) (geometry : Geometry) (ctxCap : Nat)
    (mamba : MambaStateInfo) : Option Recommendation :=
  let budget := kvBudget hw geometry
  let kvPerToken := correctKvForHybrid geometry.kvPerToken mamba
  let targetLen := ((config.vllmEngineKwargs.maxModelLen).filter (· ≠ 0)).getD ctxCap
  (applyHybridFit budget mamba.perSeqStateBytes kvPerToken targetLen config.vllmEngineKwargs.maxNumSeqs
    mamba.defaultMaxNumSeqs).map fun (chosenLen,fitted) =>
      let stateBytes : Rat := mamba.perSeqStateBytes * chosenSeqs config fitted
      let attnKv := min (budget - stateBytes) (cpuKvSequences * kvPerToken * chosenLen)
      ⟨cpuGmu (geometry.overheads + stateBytes + max attnKv 0) hw.ramBytes,fitted⟩

def recommendCpuAutoGmu (config : ModelshipModelConfig Rest) (hw : HardwareProfile) (geometry : Geometry) (ctxCap : Nat) :
    Option Recommendation :=
  let budget := kvBudget hw geometry
  if budget ≤ 0 then none else
  match geometry.mamba with
  | some mamba => recommendCpuAutoGmuHybrid config hw geometry ctxCap mamba
  | none =>
    let maxTokens := match geometry.sliding with
      | some layers => fitLenWithSliding budget geometry.kvPerToken layers ctxCap
      | none => ⌊budget / geometry.kvPerToken⌋
    let suggested := min (alignedTokens maxTokens) ctxCap
    if suggested < defaultBlockSize then none else
    let clampedKvBytes := min budget (cpuKvSequences * seqKvBytes geometry.kvPerToken geometry.sliding suggested)
    some ⟨cpuGmu (geometry.overheads + clampedKvBytes) hw.ramBytes,none⟩

-- No geometry: the model path or its `config.json` is missing, or lacks the layers and heads.
def recommendCpu (config : ModelshipModelConfig Rest) (hw : HardwareProfile) (geometry : Option Geometry) : Option Recommendation :=
  geometry.bind fun geometry =>
    if hw.ramBytes ≤ 0 then none
    else recommendCpuAutoGmu config hw geometry
      ((geometry.maxPositionEmbeddings.filter (· ≠ 0)).getD unknownContextLengthCap)

end

end Modelship.Preflight

import Mathlib.Data.Rat.Floor

namespace Modelship.ConfigSchema

-- A model config of `models.yaml`, and what its GPU count and parallel sizes come to.

inductive ModelLoader where
  | vllm
  | diffusers
  | llamaServer
  | stableDiffusionCpp
  | whispercpp
  | sherpaOnnx
  deriving DecidableEq

def ModelLoader.value : ModelLoader → String
  | .vllm => "vllm"
  | .diffusers => "diffusers"
  | .llamaServer => "llama_server"
  | .stableDiffusionCpp => "stable_diffusion_cpp"
  | .whispercpp => "whispercpp"
  | .sherpaOnnx => "sherpa_onnx"

-- The engine settings that placement and preflight read; no validator bounds the sizes.
structure VllmEngineConfig where
  tensorParallelSize : Int
  pipelineParallelSize : Int
  maxModelLen : Option Nat
  maxNumSeqs : Option Int
  deriving DecidableEq

-- `Rest` stands for the fields that only the fingerprint reads.
structure ModelshipModelConfig (Rest : Type) where
  name : String
  loader : ModelLoader
  numGpus : Rat
  numCpus : Rat
  maxOngoingRequests : Option Nat
  vllmEngineKwargs : VllmEngineConfig
  llamaParallel : Option Nat
  rest : Rest

inductive GpuError where
  | fractional (numGpus : Rat) (tp pp : Int)
  | notWhole (numGpus : Rat)
  | mismatch (numGpus tp pp : Int)
  deriving DecidableEq

-- `repr` writes a float as Python does.
def GpuError.message (repr : Rat → String) : GpuError → String
  | .fractional numGpus tp pp =>
    "num_gpus=" ++ repr numGpus ++ " (fractional) is not compatible with tensor_parallel_size x pipeline_parallel_size > 1 " ++
      "(got " ++ toString tp ++ " x " ++ toString pp ++ "). Ray packs fractional placement-group bundles onto the same " ++
      "physical GPU, which breaks tensor parallelism. Use whole GPUs for multi-slot deploys (e.g. num_gpus=" ++
      toString (tp * pp) ++ ") or drop the parallelism settings to share a single GPU."
  | .notWhole numGpus =>
    "num_gpus=" ++ repr numGpus ++ " is not allowed: values >= 1 must be integers. Use a fractional value < 1 to share a " ++
      "single GPU, or an integer to request that many whole GPUs."
  | .mismatch numGpus tp pp =>
    "num_gpus=" ++ toString numGpus ++ " does not match tensor_parallel_size x pipeline_parallel_size=" ++ toString tp ++
      " x " ++ toString pp ++ "=" ++ toString (tp * pp) ++ ". Either drop num_gpus (it's derived from tp x pp) or set num_gpus=" ++
      toString (tp * pp) ++ "."

section
variable {Rest : Type}

def ModelshipModelConfig.slots (config : ModelshipModelConfig Rest) : Int :=
  config.vllmEngineKwargs.tensorParallelSize * config.vllmEngineKwargs.pipelineParallelSize

def normalizeNumGpusAndTp (config : ModelshipModelConfig Rest) : Except GpuError (ModelshipModelConfig Rest) :=
  let ng := config.numGpus
  let tp := config.vllmEngineKwargs.tensorParallelSize
  let pp := config.vllmEngineKwargs.pipelineParallelSize
  let worldSize := tp * pp
  if config.loader ≠ .vllm then .ok config
  else if ng ≤ 0 then .ok config
  else if ng < 1 then
    if worldSize > 1 then .error (.fractional ng tp pp) else .ok config
  else if ng ≠ ⌊ng⌋ then .error (.notWhole ng)
  else if worldSize > 1 then
    if ⌊ng⌋ ≠ worldSize then .error (.mismatch ⌊ng⌋ tp pp) else .ok {config with numGpus := 1}
  else .ok {config with numGpus := 1, vllmEngineKwargs := {config.vllmEngineKwargs with tensorParallelSize := ⌊ng⌋}}

-- What the fingerprint is taken of: every field but the name and the replica counts.
def ModelshipModelConfig.payload (config : ModelshipModelConfig Rest) :
    ModelLoader × Rat × Rat × Option Nat × VllmEngineConfig × Option Nat × Rest :=
  (config.loader,config.numGpus,config.numCpus,config.maxOngoingRequests,config.vllmEngineKwargs,config.llamaParallel,config.rest)

-- `digest` stands for the leading hex digits of the dump's hash.
def ModelshipModelConfig.fingerprint (digest : ModelLoader × Rat × Rat × Option Nat × VllmEngineConfig × Option Nat × Rest → String)
    (config : ModelshipModelConfig Rest) : String := digest config.payload

def defaultGpuMemoryUtilization (config : ModelshipModelConfig Rest) : Rat := if config.numGpus = 0 then 2 / 5 else 9 / 10

-- A config without GPUs passes as it is, whatever its parallel sizes.
theorem normalize_without {config : ModelshipModelConfig Rest} (none_ : config.numGpus ≤ 0) :
    normalizeNumGpusAndTp config = .ok config := by
  unfold normalizeNumGpusAndTp
  dsimp only
  rw [if_pos none_,ite_self]

-- A GPU count that the parallel sizes come to is one whole GPU for each slot.
theorem normalize_matching {config : ModelshipModelConfig Rest} (vllm : config.loader = .vllm) (many : 1 < config.slots)
    (matching : config.numGpus = config.slots) : normalizeNumGpusAndTp config = .ok {config with numGpus := 1} := by
  have slots : (1 : Rat) < config.slots := by exact_mod_cast many
  have more : 1 < config.numGpus := matching ▸ slots
  have whole : ⌊config.numGpus⌋ = config.slots := by rw [matching,Int.floor_intCast]
  unfold normalizeNumGpusAndTp
  dsimp only
  change 1 < config.vllmEngineKwargs.tensorParallelSize * config.vllmEngineKwargs.pipelineParallelSize at many
  rw [if_neg (not_not.mpr vllm),if_neg (by linarith),if_neg (by linarith),if_neg,if_pos many,if_neg]
  · exact not_not.mpr whole
  · rw [whole]
    exact not_not.mpr matching

end

end Modelship.ConfigSchema

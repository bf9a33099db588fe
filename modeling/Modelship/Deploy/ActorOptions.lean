import Modelship.Utils.ConfigSchema

namespace Modelship.ConfigSchema

-- The actor and placement options of a model deployment.

-- `Env` stands for the runtime environment, which no part of a config changes.
structure ActorOptions (Env : Type) where
  numGpus : Rat
  numCpus : Rat
  runtimeEnv : Env
  resources : Option (List (String × Rat))

structure GpuBundle where
  gpu : Rat
  cpu : Rat
  capability : List (String × Rat)
  deriving DecidableEq

structure DeploymentOptions (Env : Type) where
  actor : ActorOptions Env
  bundles : Option (List GpuBundle)
  strategy : Option String
  maxOngoingRequests : Option Nat

-- Where a model's memory is sized: `VllmPreflight.recommend` reads the reservation alone.
inductive PreflightBranch where
  | cpu
  | gpu
  deriving DecidableEq

section
variable {Rest Env : Type}

def capabilityResources (config : ModelshipModelConfig Rest) : List (String × Rat) := [("mship_" ++ config.loader.value,1 / 1000)]

def worldSize (config : ModelshipModelConfig Rest) : Int := if config.loader ≠ .vllm then 1 else config.slots

def forcesZeroGpu (darwin : Bool) (config : ModelshipModelConfig Rest) : Bool :=
  config.loader = .sherpaOnnx || (config.loader = .stableDiffusionCpp || config.loader = .whispercpp) && !darwin

def buildDeploymentOptions (darwin : Bool) (env : Env) (config : ModelshipModelConfig Rest) : DeploymentOptions Env :=
  let resources := capabilityResources config
  let maxOngoing := match config.maxOngoingRequests with
    | some limit => some limit
    | none => if config.loader = .llamaServer then some (config.llamaParallel.getD 1) else none
  if forcesZeroGpu darwin config then ⟨⟨0,config.numCpus,env,some resources⟩,none,none,maxOngoing⟩
  else if worldSize config = 1 then ⟨⟨config.numGpus,config.numCpus,env,some resources⟩,none,none,maxOngoing⟩
  else
    -- `range` of a negative world size is empty, as its natural number is
    let bundles := List.replicate (worldSize config).toNat ⟨1,config.numCpus,resources⟩
    ⟨⟨0,config.numCpus,env,none⟩,some bundles,some "STRICT_PACK",maxOngoing⟩

def totalGpuReservation (options : DeploymentOptions Env) : Rat :=
  match options.bundles with
  | some bundles => (bundles.map GpuBundle.gpu).sum
  | none => options.actor.numGpus

def preflightBranch (config : ModelshipModelConfig Rest) : PreflightBranch := if config.numGpus = 0 then .cpu else .gpu

-- The two spellings of a config whose parallel sizes tell its GPUs.
def withoutNumGpus (config : ModelshipModelConfig Rest) : ModelshipModelConfig Rest := {config with numGpus := 0}
def withSlotGpus (config : ModelshipModelConfig Rest) : ModelshipModelConfig Rest := {config with numGpus := config.slots}

structure Alike (digest : ModelLoader × Rat × Rat × Option Nat × VllmEngineConfig × Option Nat × Rest → String) (darwin : Bool)
    (env : Env) (one two : ModelshipModelConfig Rest) : Prop where
  numGpus : one.numGpus = two.numGpus
  sizes : one.vllmEngineKwargs = two.vllmEngineKwargs
  fingerprint : one.fingerprint digest = two.fingerprint digest
  bundles : (buildDeploymentOptions darwin env one).bundles = (buildDeploymentOptions darwin env two).bundles
  branch : preflightBranch one = preflightBranch two
  utilization : defaultGpuMemoryUtilization one = defaultGpuMemoryUtilization two

-- Several slots are placed by their number, not by the GPU count.
theorem placed_by_slots (darwin : Bool) (env : Env) {config : ModelshipModelConfig Rest} (vllm : config.loader = .vllm)
    (many : 1 < config.slots) : buildDeploymentOptions darwin env config =
      ⟨⟨0,config.numCpus,env,none⟩,some (List.replicate config.slots.toNat ⟨1,config.numCpus,capabilityResources config⟩),
        some "STRICT_PACK",config.maxOngoingRequests⟩ := by
  have slots : worldSize config = config.slots := by
    unfold worldSize
    rw [if_neg (not_not.mpr vllm)]
  have unforced : forcesZeroGpu darwin config = false := by
    unfold forcesZeroGpu
    rw [vllm]
    rfl
  unfold buildDeploymentOptions
  dsimp only
  rw [slots,unforced,if_neg Bool.false_ne_true,if_neg (by omega),vllm]
  cases config.maxOngoingRequests with
  | none => rfl
  | some limit => rfl

theorem slots_reserved (darwin : Bool) (env : Env) {config : ModelshipModelConfig Rest} (vllm : config.loader = .vllm)
    (many : 1 < config.slots) : totalGpuReservation (buildDeploymentOptions darwin env config) = config.slots := by
  have natural : ((config.slots.toNat : Int) : Rat) = config.slots := by rw [Int.toNat_of_nonneg (by omega)]
  rw [placed_by_slots darwin env vllm many]
  unfold totalGpuReservation
  dsimp only
  rw [List.map_replicate,List.sum_replicate,nsmul_one,← natural]
  rfl

-- Left out, the GPU count of several slots stays zero. Their GPUs are reserved all the same, while the
-- model is sized and run as one that has none.
theorem num_gpus_not_droppable (digest : ModelLoader × Rat × Rat × Option Nat × VllmEngineConfig × Option Nat × Rest → String)
    (darwin : Bool) (env : Env) (config : ModelshipModelConfig Rest) (vllm : config.loader = .vllm) (many : 1 < config.slots) :
    ∃ dropped stated, normalizeNumGpusAndTp (withoutNumGpus config) = .ok dropped ∧
      normalizeNumGpusAndTp (withSlotGpus config) = .ok stated ∧
      (dropped.vllmEngineKwargs = stated.vllmEngineKwargs ∧
        buildDeploymentOptions darwin env dropped = buildDeploymentOptions darwin env stated ∧
        totalGpuReservation (buildDeploymentOptions darwin env dropped) = config.slots) ∧
      (dropped.numGpus = 0 ∧ stated.numGpus = 1) ∧ (preflightBranch dropped = .cpu ∧ preflightBranch stated = .gpu) ∧
      (defaultGpuMemoryUtilization dropped = 2 / 5 ∧ defaultGpuMemoryUtilization stated = 9 / 10) ∧
      ¬Alike digest darwin env dropped stated := by
  have without : normalizeNumGpusAndTp (withoutNumGpus config) = .ok (withoutNumGpus config) := normalize_without (le_refl 0)
  have given : normalizeNumGpusAndTp (withSlotGpus config) = .ok {config with numGpus := 1} :=
    normalize_matching vllm many rfl
  refine ⟨withoutNumGpus config,{config with numGpus := 1},without,given,⟨rfl,?_,?_⟩,⟨rfl,rfl⟩,⟨rfl,rfl⟩,⟨rfl,rfl⟩,?_⟩
  · have bare : (withoutNumGpus config).loader = .vllm := vllm
    have whole : ModelshipModelConfig.loader {config with numGpus := 1} = .vllm := vllm
    exact (placed_by_slots darwin env bare many).trans (placed_by_slots darwin env whole many).symm
  · have bare : (withoutNumGpus config).loader = .vllm := vllm
    exact slots_reserved darwin env bare many
  · intro alike
    have apart : (0 : Rat) = 1 := alike.numGpus
    exact zero_ne_one apart

end

-- Two tensor-parallel slots, in the only fields that matter here.
def twoSlots : ModelshipModelConfig Unit := ⟨"chat",.vllm,0,1 / 10,none,⟨2,1,none,none⟩,none,()⟩

theorem num_gpus_not_droppable_two : twoSlots.loader = .vllm ∧ 1 < twoSlots.slots ∧
    ∃ dropped stated, normalizeNumGpusAndTp (withoutNumGpus twoSlots) = .ok dropped ∧
      normalizeNumGpusAndTp (withSlotGpus twoSlots) = .ok stated ∧ preflightBranch dropped ≠ preflightBranch stated := by
  have vllm : twoSlots.loader = .vllm := rfl
  have many : 1 < twoSlots.slots := by decide
  obtain ⟨dropped,stated,first,second,_,_,⟨cpu,gpu⟩,_⟩ := num_gpus_not_droppable (fun _ => "") false () twoSlots vllm many
  refine ⟨vllm,many,dropped,stated,first,second,?_⟩
  rw [cpu,gpu]
  decide

theorem dropped_num_gpus_differ : ¬∀ (config : ModelshipModelConfig Unit), config.loader = .vllm → 1 < config.slots →
    ∃ dropped stated, normalizeNumGpusAndTp (withoutNumGpus config) = .ok dropped ∧
      normalizeNumGpusAndTp (withSlotGpus config) = .ok stated ∧ Alike (fun _ => "") false () dropped stated := by
  intro every
  obtain ⟨dropped,stated,first,second,alike⟩ := every twoSlots rfl (by decide)
  have without : normalizeNumGpusAndTp (withoutNumGpus twoSlots) = .ok (withoutNumGpus twoSlots) := normalize_without (le_refl 0)
  have given : normalizeNumGpusAndTp (withSlotGpus twoSlots) = .ok {twoSlots with numGpus := 1} :=
    normalize_matching rfl (by decide) rfl
  rw [without] at first
  rw [given] at second
  cases first
  cases second
  have apart : (0 : Rat) = 1 := alike.numGpus
  exact zero_ne_one apart

end Modelship.ConfigSchema

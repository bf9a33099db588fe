import Modelship.Preflight.Fitting

namespace Modelship.Preflight
open Foundation ConfigSchema

-- What a CPU deploy claims of its node's RAM, against what is free of it.

def ramReserveFraction : Rat := 5 / 100
def fitMarginMib : Rat := 1024

-- The RAM that the llama-server preflight fits a CPU deploy into.
def cpuRamBudgetMib (hw : HardwareProfile) : Option Int :=
  let freeBytes := hw.sizingRamBytes
  if freeBytes = 0 then none
  else
    let reserveBytes := hw.ramBytes * ramReserveFraction + fitMarginMib * 1024 ^ 2
    some (max 0 (truncate ((freeBytes - reserveBytes) / 1024 ^ 2)))

theorem cpuGmu_floor (reservation : Rat) (denomRam : Int) : 1 / 100 ≤ cpuGmu reservation denomRam :=
  le_min (le_max_right _ _) (by norm_num)

-- A reservation of the share to use, of free RAM that is a hundredth of the total at least.
theorem cpuGmu_within {reservation : Rat} {total available : Int} (some_ : 0 < total) (least : total ≤ 100 * available)
    (share : reservation ≤ available * cpuRamUtilization) : cpuGmu reservation total * total ≤ available := by
  have positive : (0 : Rat) < total := by exact_mod_cast some_
  have hundredth : (total : Rat) ≤ 100 * available := by exact_mod_cast least
  have small : 1 / 100 ≤ (available : Rat) / total := by
    rw [le_div_iff₀ positive]
    linarith
  have near : roundThousandths (reservation / total) ≤ (available : Rat) / total := by
    have rounded := roundThousandths_le (reservation / total)
    have quotient : reservation / total ≤ 8 / 10 * ((available : Rat) / total) := by
      rw [← mul_div_assoc]
      unfold cpuRamUtilization at share
      exact div_le_div_of_nonneg_right (by linarith) positive.le
    linarith
  exact (le_div_iff₀ positive).mp (clamp_le small near)

theorem cpuGmu_needs {reservation : Rat} {total available : Int} (some_ : 0 < total)
    (within : cpuGmu reservation total * total ≤ available) : total ≤ 100 * available := by
  have positive : (0 : Rat) < total := by exact_mod_cast some_
  have floor := mul_le_mul_of_nonneg_right (cpuGmu_floor reservation total) positive.le
  have hundredth : (total : Rat) ≤ 100 * available := by linarith
  exact_mod_cast hundredth

theorem overheads_budget (hw : HardwareProfile) (geometry : Geometry) :
    geometry.overheads + kvBudget hw geometry = hw.sizingRamBytes * cpuRamUtilization := by
  unfold Geometry.overheads kvBudget
  ring

section
variable {Rest : Type}

-- The state of the slots that a pin of zero is read as, with the weights and overheads.
def pinnedToNone (geometry : Geometry) (mamba : MambaStateInfo) : Rat :=
  geometry.overheads + mamba.perSeqStateBytes * (minMaxNumSeqs : Int)

-- The whole thousandths of the total RAM that are free.
def freeThousandths (hw : HardwareProfile) : Int := ⌊1000 * ((hw.availableRamBytes : Rat) / hw.ramBytes)⌋

-- So many bytes are at most half a thousandth of the total more than these, and less than
-- that where their number is odd.
def Spared (hw : HardwareProfile) (bytes : Rat) : Prop :=
  2000 * bytes < (2 * freeThousandths hw + 1) * hw.ramBytes ∨
  2000 * bytes = (2 * freeThousandths hw + 1) * hw.ramBytes ∧ freeThousandths hw % 2 = 0

-- When the fraction of a CPU deploy stays in free RAM.
structure FitsFreeRam (config : ModelshipModelConfig Rest) (hw : HardwareProfile) (geometry : Geometry) : Prop where
  hundredth : hw.ramBytes ≤ 100 * hw.availableRamBytes
  slotless : ∀ mamba, geometry.mamba = some mamba → config.vllmEngineKwargs.maxNumSeqs = some 0 →
    9 * hw.ramBytes ≤ 10 * hw.availableRamBytes ∨ Spared hw (pinnedToNone geometry mamba)

-- The fraction of a reservation stays in free RAM where it is spared, and always in nine tenths.
theorem cpuGmu_spared {hw : HardwareProfile} (some_ : 0 < hw.ramBytes) (least : hw.ramBytes ≤ 100 * hw.availableRamBytes)
    (reservation : Rat) : cpuGmu reservation hw.ramBytes * hw.ramBytes ≤ hw.availableRamBytes ↔
      9 * hw.ramBytes ≤ 10 * hw.availableRamBytes ∨ Spared hw reservation := by
  have positive : (0 : Rat) < hw.ramBytes := by exact_mod_cast some_
  have hundredth : (hw.ramBytes : Rat) ≤ 100 * hw.availableRamBytes := by exact_mod_cast least
  have small : 1 / 100 ≤ (hw.availableRamBytes : Rat) / hw.ramBytes := by
    rw [le_div_iff₀ positive]
    linarith
  have most : (9 / 10 : Rat) ≤ (hw.availableRamBytes : Rat) / hw.ramBytes ↔ 9 * hw.ramBytes ≤ 10 * hw.availableRamBytes := by
    rw [le_div_iff₀ positive]
    constructor
    · intro share
      have tenths : (9 * hw.ramBytes : Rat) ≤ 10 * hw.availableRamBytes := by linarith
      exact_mod_cast tenths
    · intro share
      have tenths : (9 * hw.ramBytes : Rat) ≤ 10 * hw.availableRamBytes := by exact_mod_cast share
      linarith
  have scaled : 2000 * (reservation / hw.ramBytes) = 2000 * reservation / hw.ramBytes := by ring
  rw [← le_div_iff₀ positive]
  unfold cpuGmu
  rw [min_le_iff,max_le_iff,and_iff_left small,or_comm,most,roundThousandths_le_iff,scaled,div_lt_iff₀ positive,
    div_eq_iff positive.ne']
  rfl

-- The attention part takes what the state leaves of the budget, or nothing.
theorem hybrid_share {hw : HardwareProfile} {geometry : Geometry} {state : Rat} (attention : Rat)
    (small : state ≤ kvBudget hw geometry) :
    geometry.overheads + state + max (min (kvBudget hw geometry - state) attention) 0 ≤
      hw.sizingRamBytes * cpuRamUtilization := by
  have budget := overheads_budget hw geometry
  have rest : max (min (kvBudget hw geometry - state) attention) 0 ≤ kvBudget hw geometry - state :=
    max_le (min_le_left _ _) (by linarith)
  linarith

theorem chosenSeqs_pinned {config : ModelshipModelConfig Rest} {seqs : Int}
    (pinned : config.vllmEngineKwargs.maxNumSeqs = some seqs) :
    chosenSeqs config none = if seqs = 0 then minMaxNumSeqs else seqs := by
  unfold chosenSeqs
  rw [pinned]

-- A pin of zero reserves the state of eight slots, more than was fitted.
theorem slotless_reservation {hw : HardwareProfile} {geometry : Geometry} {mamba : MambaStateInfo} {attention reservation : Rat}
    (reserves : reservation = geometry.overheads + mamba.perSeqStateBytes * (minMaxNumSeqs : Int) +
      max (min (kvBudget hw geometry - mamba.perSeqStateBytes * (minMaxNumSeqs : Int)) attention) 0) :
    pinnedToNone geometry mamba ≤ reservation ∧
      (reservation ≤ hw.sizingRamBytes * cpuRamUtilization ∨ reservation = pinnedToNone geometry mamba) := by
  subst reserves
  refine ⟨le_add_of_nonneg_right (le_max_right _ _),?_⟩
  by_cases fits : (mamba.perSeqStateBytes : Rat) * (minMaxNumSeqs : Int) ≤ kvBudget hw geometry
  · exact .inl (hybrid_share _ fits)
  · have spent : kvBudget hw geometry - mamba.perSeqStateBytes * (minMaxNumSeqs : Int) ≤ 0 := by linarith
    refine .inr ?_
    unfold pinnedToNone
    rw [max_eq_right ((min_le_left _ _).trans spent),add_zero]

theorem hybrid_reservation {config : ModelshipModelConfig Rest} {hw : HardwareProfile} {geometry : Geometry} {ctxCap : Nat}
    {mamba : MambaStateInfo} {advice : Recommendation}
    (advised : recommendCpuAutoGmuHybrid config hw geometry ctxCap mamba = some advice) :
    ∃ reservation, advice.gpuMemoryUtilization = cpuGmu reservation hw.ramBytes ∧
      (config.vllmEngineKwargs.maxNumSeqs = some 0 → pinnedToNone geometry mamba ≤ reservation) ∧
      (reservation ≤ hw.sizingRamBytes * cpuRamUtilization ∨
        config.vllmEngineKwargs.maxNumSeqs = some 0 ∧ reservation = pinnedToNone geometry mamba) := by
  unfold recommendCpuAutoGmuHybrid at advised
  obtain ⟨⟨chosenLen,fitted⟩,fit,same⟩ := Option.map_eq_some_iff.mp advised
  cases same
  have nonneg : 0 ≤ correctKvForHybrid geometry.kvPerToken mamba := by
    unfold correctKvForHybrid
    split <;> positivity
  dsimp only
  cases slots : config.vllmEngineKwargs.maxNumSeqs with
  | none =>
      rw [slots] at fit
      obtain ⟨seqs,here,_,_,_,some_,stands⟩ := floor_stands nonneg fit
      subst here
      have small : (mamba.perSeqStateBytes : Rat) * seqs ≤ kvBudget hw geometry := by linarith
      exact ⟨_,rfl,nofun,.inl (hybrid_share _ small)⟩
  | some seqs =>
      rw [slots] at fit
      obtain ⟨here,least,_,stands⟩ := pinned_stands nonneg fit
      subst here
      rw [chosenSeqs_pinned slots]
      by_cases none_ : seqs = 0
      · rw [if_pos none_]
        obtain ⟨above,share⟩ := slotless_reservation rfl
        exact ⟨_,rfl,fun _ => above,share.imp id fun all => ⟨by rw [none_],all⟩⟩
      · have some_ : (0 : Rat) ≤ chosenLen := by exact_mod_cast (show 0 ≤ defaultBlockSize by decide).trans least
        have context := mul_nonneg nonneg some_
        have small : (mamba.perSeqStateBytes : Rat) * seqs ≤ kvBudget hw geometry := by linarith
        rw [if_neg none_]
        exact ⟨_,rfl,fun zero => absurd (Option.some.inj zero) none_,.inl (hybrid_share _ small)⟩

-- What an advised fraction reserves: a share of the RAM it was sized by, or the pinned slots' state where
-- that is more than the budget.
theorem advised_reservation {config : ModelshipModelConfig Rest} {hw : HardwareProfile} {geometry : Geometry} {ctxCap : Nat}
    {advice : Recommendation} (advised : recommendCpuAutoGmu config hw geometry ctxCap = some advice) :
    ∃ reservation, advice.gpuMemoryUtilization = cpuGmu reservation hw.ramBytes ∧
      (∀ mamba, geometry.mamba = some mamba → config.vllmEngineKwargs.maxNumSeqs = some 0 →
        pinnedToNone geometry mamba ≤ reservation) ∧
      (reservation ≤ hw.sizingRamBytes * cpuRamUtilization ∨ ∃ mamba, geometry.mamba = some mamba ∧
        config.vllmEngineKwargs.maxNumSeqs = some 0 ∧ reservation = pinnedToNone geometry mamba) := by
  unfold recommendCpuAutoGmu at advised
  obtain ⟨_,chosen⟩ := Option.ite_none_left_eq_some.mp advised
  cases hybrid : geometry.mamba with
  | none =>
      rw [hybrid] at chosen
      obtain ⟨_,same⟩ := Option.ite_none_left_eq_some.mp chosen
      cases same
      refine ⟨_,rfl,nofun,.inl ?_⟩
      rw [← overheads_budget hw geometry]
      exact add_le_add_right (min_le_left _ _) _
  | some mamba =>
      rw [hybrid] at chosen
      obtain ⟨reservation,advises,least,reserved⟩ := hybrid_reservation chosen
      refine ⟨reservation,advises,?_,reserved.imp id fun slotless => ⟨mamba,rfl,slotless⟩⟩
      intro other same
      cases same
      exact least

theorem advised_within {config : ModelshipModelConfig Rest} {memory : Memory} {geometry : Geometry} {advice : Recommendation}
    (advised : recommendCpu config (discoverHardware memory) (some geometry) = some advice) :
    advice.gpuMemoryUtilization * (discoverHardware memory).ramBytes ≤ (discoverHardware memory).availableRamBytes ↔
      FitsFreeRam config (discoverHardware memory) geometry := by
  generalize discoverHardware memory = hw at advised ⊢
  unfold recommendCpu at advised
  rw [Option.bind_some] at advised
  obtain ⟨known,chosen⟩ := Option.ite_none_left_eq_some.mp advised
  have total : 0 < hw.ramBytes := not_le.mp known
  obtain ⟨reservation,advises,least,reserved⟩ := advised_reservation chosen
  have shared : reservation ≤ hw.sizingRamBytes * cpuRamUtilization → hw.ramBytes ≤ 100 * hw.availableRamBytes →
      reservation ≤ hw.availableRamBytes * cpuRamUtilization := by
    intro share hundredth
    have free : hw.sizingRamBytes = hw.availableRamBytes := if_neg (by omega)
    rwa [free] at share
  rw [advises]
  constructor
  · intro within
    have hundredth := cpuGmu_needs total within
    refine ⟨hundredth,?_⟩
    intro mamba hybrid slotless
    rcases reserved with share | ⟨other,also,_,same⟩
    · exact (cpuGmu_spared total hundredth _).mp
        (cpuGmu_within total hundredth ((least mamba hybrid slotless).trans (shared share hundredth)))
    · rw [hybrid] at also
      cases also
      rw [← same]
      exact (cpuGmu_spared total hundredth _).mp within
  · intro ⟨hundredth,slotless⟩
    rcases reserved with share | ⟨mamba,hybrid,pinned,same⟩
    · exact cpuGmu_within total hundredth (shared share hundredth)
    · rw [same]
      exact (cpuGmu_spared total hundredth _).mpr (slotless mamba hybrid pinned)

-- A budget is more than what is free only where nothing is: then it is a share of the total.
theorem budget_within {memory : Memory} {mib : Int} (read : cpuRamBudgetMib (discoverHardware memory) = some mib) :
    (mib : Rat) * 1024 ^ 2 ≤ (discoverHardware memory).availableRamBytes ↔
      (discoverHardware memory).availableRamBytes ≠ 0 ∨
        (discoverHardware memory).ramBytes * (1 - ramReserveFraction) < (fitMarginMib + 1) * 1024 ^ 2 := by
  have total := ram_nonneg memory
  have free := available_nonneg memory
  generalize discoverHardware memory = hw at read total free ⊢
  unfold cpuRamBudgetMib at read
  obtain ⟨_,same⟩ := Option.ite_none_left_eq_some.mp read
  cases same
  have most : (0 : Rat) ≤ hw.ramBytes := by exact_mod_cast total
  have least : (0 : Rat) ≤ hw.availableRamBytes := by exact_mod_cast free
  by_cases full : hw.availableRamBytes = 0
  · have sized : hw.sizingRamBytes = hw.ramBytes := if_pos full
    rw [sized,full]
    have empty : ∀ count : Int, ((max 0 count : Int) : Rat) * 1024 ^ 2 ≤ ((0 : Int) : Rat) ↔ count ≤ 0 := by
      intro count
      constructor
      · intro small
        have counted : ((max 0 count : Int) : Rat) ≤ 0 := by
          rw [Int.cast_zero] at small
          linarith
        have bound : max 0 count ≤ 0 := by exact_mod_cast counted
        exact (le_max_right _ _).trans bound
      · intro none_
        rw [max_eq_left none_]
        simp
    rw [empty,truncate_small,div_lt_one (by norm_num)]
    unfold ramReserveFraction fitMarginMib
    constructor
    · intro small
      exact .inr (by linarith)
    · intro small
      rcases small with some_ | small
      · exact absurd rfl some_
      · linarith
  · have sized : hw.sizingRamBytes = hw.availableRamBytes := if_neg full
    rw [sized]
    refine ⟨fun _ => .inl full,fun _ => ?_⟩
    have bounded := truncate_le ((hw.availableRamBytes - (hw.ramBytes * ramReserveFraction + fitMarginMib * 1024 ^ 2)) / 1024 ^ 2)
    have share : (hw.availableRamBytes - (hw.ramBytes * ramReserveFraction + fitMarginMib * 1024 ^ 2)) / 1024 ^ 2 ≤
        (hw.availableRamBytes : Rat) / 1024 ^ 2 := by
      apply div_le_div_of_nonneg_right _ (by norm_num)
      unfold ramReserveFraction fitMarginMib
      linarith
    have whole : max 0 ((hw.availableRamBytes - (hw.ramBytes * ramReserveFraction + fitMarginMib * 1024 ^ 2)) / 1024 ^ 2) ≤
        (hw.availableRamBytes : Rat) / 1024 ^ 2 := max_le (div_nonneg least (by norm_num)) share
    exact (le_div_iff₀ (by norm_num)).mp (bounded.trans whole)

-- What a CPU deploy claims is free where at least a hundredth of the total is, a pin of no slots apart.
theorem cpu_sizing_within_free (memory : Memory) (config : ModelshipModelConfig Rest) (geometry : Geometry) :
    (∀ advice, recommendCpu config (discoverHardware memory) (some geometry) = some advice →
      (advice.gpuMemoryUtilization * detectRamBytes memory ≤ detectAvailableRamBytes memory ↔
        FitsFreeRam config (discoverHardware memory) geometry)) ∧
    (∀ mib, cpuRamBudgetMib (discoverHardware memory) = some mib →
      ((mib : Rat) * 1024 ^ 2 ≤ detectAvailableRamBytes memory ↔
        detectAvailableRamBytes memory ≠ 0 ∨
          detectRamBytes memory * (1 - ramReserveFraction) < (fitMarginMib + 1) * 1024 ^ 2)) := by
  constructor
  · intro advice advised
    exact advised_within advised
  · intro mib read
    exact budget_within read

end

-- A small model on a node that has the given RAM free of 64 GiB, in a container of 32.
def containerOf (used : Int) : Memory :=
  ⟨some (64 * 1024 ^ 3),some (60 * 1024 ^ 3),[.number (32 * 1024 ^ 3)],[.number used],[none]⟩

def smallGeometry : Geometry := ⟨131072,by decide,1024 ^ 3,none,none,none⟩

def cpuConfig : ModelshipModelConfig Unit := ⟨"chat",.vllm,0,1,none,⟨1,1,none,none⟩,none,()⟩

theorem cpu_sizing_within_free_half : ∃ advice,
    recommendCpu cpuConfig (discoverHardware (containerOf (16 * 1024 ^ 3))) (some smallGeometry) = some advice ∧
      advice.gpuMemoryUtilization * detectRamBytes (containerOf (16 * 1024 ^ 3)) ≤
        detectAvailableRamBytes (containerOf (16 * 1024 ^ 3)) := by
  have run : (recommendCpu cpuConfig (discoverHardware (containerOf (16 * 1024 ^ 3))) (some smallGeometry)).isSome := by
    decide +kernel
  obtain ⟨advice,advised⟩ := Option.isSome_iff_exists.mp run
  refine ⟨advice,advised,?_⟩
  apply ((cpu_sizing_within_free _ cpuConfig smallGeometry).1 advice advised).mpr
  exact ⟨by decide +kernel,nofun⟩

-- In a full container the free RAM is read as zero, and the total is claimed in its place.
theorem full_container_overclaims : ¬∀ (memory : Memory) (config : ModelshipModelConfig Unit) (geometry : Geometry),
    ∀ advice, recommendCpu config (discoverHardware memory) (some geometry) = some advice →
      advice.gpuMemoryUtilization * detectRamBytes memory ≤ detectAvailableRamBytes memory := by
  intro every
  have run : (recommendCpu cpuConfig (discoverHardware (containerOf (32 * 1024 ^ 3))) (some smallGeometry)).isSome := by
    decide +kernel
  obtain ⟨advice,advised⟩ := Option.isSome_iff_exists.mp run
  have fits := (advised_within advised).mp (every _ _ _ advice advised)
  have apart : ¬(discoverHardware (containerOf (32 * 1024 ^ 3))).ramBytes ≤
      100 * (discoverHardware (containerOf (32 * 1024 ^ 3))).availableRamBytes := by decide +kernel
  exact apart fits.hundredth

end Modelship.Preflight

import Mathlib.Tactic.Positivity
import Modelship.Foundation.Saturation
import Modelship.Preflight.Vllm

namespace Modelship.Preflight
open Foundation

-- Context lengths and sequence slots against the memory they are fitted to.

theorem alignedTokens_le (tokens : Int) : alignedTokens tokens ≤ tokens := by
  unfold alignedTokens defaultBlockSize
  omega

-- Layers that have full attention or slide, one or the other.
structure SlidingWindowInfo.Splits (layers : SlidingWindowInfo) : Prop where
  full : 0 ≤ layers.fullLayers
  sliding : 0 ≤ layers.slidingLayers
  whole : layers.fullLayers + layers.slidingLayers = layers.totalLayers
  layered : 0 < layers.totalLayers

theorem resolved_parts {text : TextConfig} {layers : SlidingWindowInfo} (resolved : resolveSlidingWindow text = some layers) :
    ∃ total window, 0 < text.slidingLayers total ∧
      layers = ⟨total - text.slidingLayers total,text.slidingLayers total,total,window⟩ := by
  obtain ⟨window,_,later⟩ := Option.bind_eq_some_iff.mp resolved
  obtain ⟨_,counted⟩ := Option.ite_none_left_eq_some.mp later
  obtain ⟨total,_,parted⟩ := Option.bind_eq_some_iff.mp counted
  obtain ⟨some_,same⟩ := Option.ite_none_left_eq_some.mp parted
  cases same
  exact ⟨total,window,not_le.mp some_,rfl⟩

-- Only a list of layer types can name more sliding layers than there are.
theorem resolved_splits {text : TextConfig} {layers : SlidingWindowInfo} (resolved : resolveSlidingWindow text = some layers)
    (counted : text.layerTypes ≠ [] → layers.slidingLayers ≤ layers.totalLayers) : layers.Splits := by
  obtain ⟨total,window,some_,rfl⟩ := resolved_parts resolved
  dsimp only at counted
  have fewer : text.slidingLayers total ≤ total := by
    by_cases typed : text.layerTypes = []
    · unfold TextConfig.slidingLayers at some_ ⊢
      rw [if_neg (not_not.mpr typed)] at some_ ⊢
      split
      · rename_i pattern every
        rw [every] at some_
        dsimp only at some_
        split
        · rename_i positive
          rw [if_pos positive] at some_
          have layered : 0 < total := by
            by_contra none_
            have whole : total * pattern ≤ total * 1 := mul_le_mul_of_nonpos_left positive (not_lt.mp none_)
            have most : total ≤ total / pattern := (Int.le_ediv_iff_mul_le positive).mpr (by linarith)
            omega
          have full : 0 ≤ total / pattern := Int.ediv_nonneg layered.le positive.le
          omega
        · exact le_rfl
      · exact le_rfl
    · exact counted typed
  exact ⟨sub_nonneg.mpr fewer,some_.le,sub_add_cancel _ _,some_.trans_le fewer⟩

section
variable {budget kvPerToken : Rat} {layers : SlidingWindowInfo} {ctxCap length : Int}

-- A sequence's KV saturates in the sliding layers.
theorem seqKvBytes_saturating : seqKvBytes kvPerToken (some layers) length =
    saturating (kvPerToken / layers.totalLayers * layers.fullLayers) (kvPerToken / layers.totalLayers * layers.slidingLayers)
      (layers.window + windowSlackTokens : Rat) length := by
  unfold seqKvBytes saturating
  push_cast
  ring

theorem SlidingWindowInfo.Splits.rate (splits : layers.Splits) (kvPerToken : Rat) :
    kvPerToken / layers.totalLayers * layers.fullLayers + kvPerToken / layers.totalLayers * layers.slidingLayers = kvPerToken := by
  have layered : (layers.totalLayers : Rat) ≠ 0 := by exact_mod_cast splits.layered.ne'
  rw [← mul_add,← Int.cast_add,splits.whole,div_mul_cancel₀ _ layered]

-- What fits is what is no longer than the fit.
theorem le_fitLenWithSliding (positive : 0 < kvPerToken) (splits : layers.Splits) :
    length ≤ fitLenWithSliding budget kvPerToken layers ctxCap ↔
      length ≤ ctxCap ∧ seqKvBytes kvPerToken (some layers) length ≤ budget := by
  have rate := splits.rate kvPerToken
  have perLayer : 0 < kvPerToken / layers.totalLayers := div_pos positive (by exact_mod_cast splits.layered)
  have full : 0 ≤ kvPerToken / layers.totalLayers * layers.fullLayers :=
    mul_nonneg perLayer.le (by exact_mod_cast splits.full)
  rw [seqKvBytes_saturating]
  unfold fitLenWithSliding
  dsimp only
  generalize kvPerToken / layers.totalLayers * layers.fullLayers = fullPerToken at rate full ⊢
  generalize kvPerToken / layers.totalLayers * layers.slidingLayers = slidingPerToken at rate ⊢
  have grows : 0 < fullPerToken + slidingPerToken := rate ▸ positive
  split
  case isTrue spent => rw [le_min_iff,le_floor_div grows,saturating_spent full grows.le spent,and_comm]
  case isFalse enough =>
    rw [saturating_left full grows.le (not_lt.mp enough)]
    split
    case isTrue none_ =>
      -- without full attention any length fits
      have still : fullPerToken = 0 := le_antisymm none_ full
      have room : fullPerToken * length ≤ budget - slidingPerToken * (layers.window + windowSlackTokens) := by
        rw [still,zero_mul,sub_nonneg]
        rw [still,zero_add] at enough
        exact not_lt.mp enough
      exact (and_iff_left room).symm
    case isFalse some_ => rw [le_min_iff,le_floor_div (not_le.mp some_),and_comm]

-- The length that a CPU deploy is sized for, in whole blocks, stands in the budget.
theorem suggested_fits {text : TextConfig} (resolved : resolveSlidingWindow text = some layers)
    (counted : text.layerTypes ≠ [] → layers.slidingLayers ≤ layers.totalLayers) (positive : 0 < kvPerToken) :
    seqKvBytes kvPerToken (some layers) (min (alignedTokens (fitLenWithSliding budget kvPerToken layers ctxCap)) ctxCap) ≤
      budget := by
  have shorter := (min_le_left _ ctxCap).trans (alignedTokens_le (fitLenWithSliding budget kvPerToken layers ctxCap))
  exact ((le_fitLenWithSliding positive (resolved_splits resolved counted)).mp shorter).2

-- No tokens take nothing.
theorem seqKvBytes_zero (positive : 0 < kvPerToken) (splits : layers.Splits) : seqKvBytes kvPerToken (some layers) 0 ≤ 0 := by
  have perLayer : 0 < kvPerToken / layers.totalLayers := div_pos positive (by exact_mod_cast splits.layered)
  have kept : ((layers.slidingLayers * min (layers.window + windowSlackTokens) 0 : Int) : Rat) ≤ 0 := by
    exact_mod_cast mul_nonpos_of_nonneg_of_nonpos splits.sliding (min_le_right _ _)
  unfold seqKvBytes
  dsimp only
  rw [Int.cast_zero,mul_zero,zero_add,← Int.cast_mul]
  exact mul_nonpos_of_nonneg_of_nonpos perLayer.le kept

-- The fit is the longest sequence under the cap whose KV the budget holds.
theorem sliding_fit_greatest (room : 0 ≤ budget) (positive : 0 < kvPerToken) (cap : 0 ≤ ctxCap) (splits : layers.Splits) :
    IsGreatest {length : Int | 0 ≤ length ∧ length ≤ ctxCap ∧ seqKvBytes kvPerToken (some layers) length ≤ budget}
      (fitLenWithSliding budget kvPerToken layers ctxCap) := by
  constructor
  · have empty : 0 ≤ fitLenWithSliding budget kvPerToken layers ctxCap :=
      (le_fitLenWithSliding positive splits).mpr ⟨cap,(seqKvBytes_zero positive splits).trans room⟩
    exact ⟨empty,(le_fitLenWithSliding positive splits).mp le_rfl⟩
  · intro length held
    exact (le_fitLenWithSliding positive splits).mpr held.2

end

-- Past a window of sixteen tokens one of two layers goes on growing.
theorem sliding_fit_greatest_half : fitLenWithSliding 56 2 ⟨1,1,2,0⟩ 1000 = 40 ∧
    IsGreatest {length : Int | 0 ≤ length ∧ length ≤ 1000 ∧ seqKvBytes 2 (some ⟨1,1,2,0⟩) length ≤ 56}
      (fitLenWithSliding 56 2 ⟨1,1,2,0⟩ 1000) :=
  ⟨by decide +kernel,sliding_fit_greatest (by decide) (by decide) (by decide) ⟨by decide,by decide,by decide,by decide⟩⟩

section
variable {kvPool kvPerToken : Rat} {perSeqState targetLen defaultMaxNumSeqs : Nat} {length : Int} {fitted : Option Int}

-- Tokens in whole blocks take no more than the tokens, whatever the target.
theorem aligned_fits {tokens : Int} {targetLen : Nat} {kvPerToken budget : Rat} (nonneg : 0 ≤ kvPerToken)
    (fits : tokens * kvPerToken ≤ budget) :
    ((if targetLen ≠ 0 then min (alignedTokens tokens) targetLen else alignedTokens tokens : Int) : Rat) * kvPerToken ≤ budget := by
  have fewer : (if targetLen ≠ 0 then min (alignedTokens tokens) targetLen else alignedTokens tokens : Int) ≤ tokens := by
    split
    · exact (min_le_left _ _).trans (alignedTokens_le tokens)
    · exact alignedTokens_le tokens
  exact (mul_le_mul_of_nonneg_right (by exact_mod_cast fewer) nonneg).trans fits

theorem fitLen_fits {budget kvPerToken : Rat} (targetLen : Nat) (room : 0 ≤ budget) (nonneg : 0 ≤ kvPerToken) :
    fitLen budget kvPerToken targetLen * kvPerToken ≤ budget := by
  apply aligned_fits nonneg
  by_cases positive : kvPerToken > 0
  · rw [if_pos positive,mul_comm]
    exact (le_floor_div positive).mp le_rfl
  · rw [if_neg positive,Int.cast_zero,zero_mul]
    exact room

theorem fitLen_nonneg {budget kvPerToken : Rat} {targetLen : Nat} (room : 0 ≤ budget) (nonneg : 0 ≤ kvPerToken) :
    0 ≤ fitLen budget kvPerToken targetLen := by
  have tokens : 0 ≤ (if kvPerToken > 0 then ⌊budget / kvPerToken⌋ else 0) := by
    split
    · exact Int.floor_nonneg.mpr (div_nonneg room nonneg)
    · exact le_rfl
  unfold fitLen
  dsimp only
  generalize (if kvPerToken > 0 then ⌊budget / kvPerToken⌋ else 0) = count at tokens
  have blocks : 0 ≤ alignedTokens count := by
    unfold alignedTokens defaultBlockSize
    omega
  split
  · exact le_min blocks (Int.natCast_nonneg _)
  · exact blocks

theorem floorLen_fits {budget kvPerToken : Rat} (targetLen : Nat) (room : 0 ≤ budget) (nonneg : 0 ≤ kvPerToken) :
    0 ≤ floorLen budget kvPerToken targetLen * kvPerToken ∧ floorLen budget kvPerToken targetLen * kvPerToken ≤ budget := by
  unfold floorLen
  split
  case isTrue kept => exact ⟨mul_nonneg (by exact_mod_cast Nat.cast_nonneg _) nonneg,by exact_mod_cast kept.2⟩
  case isFalse => exact ⟨mul_nonneg (by exact_mod_cast fitLen_nonneg room nonneg) nonneg,fitLen_fits targetLen room nonneg⟩

-- The slots above the floor are paid for by what the context leaves.
theorem spare_slots {leftover kvPool : Rat} {perSeqState : Nat} (slots : Nat) (room : 0 ≤ leftover)
    (pool : leftover + perSeqState * minMaxNumSeqs ≤ kvPool) :
    (perSeqState : Rat) * (min (slots : Int) (minMaxNumSeqs + max (if perSeqState > 0 then ⌊leftover / perSeqState⌋ else 0) 0) : Int) ≤
      kvPool := by
  have nonneg : (0 : Rat) ≤ perSeqState := Nat.cast_nonneg _
  by_cases stateless : perSeqState > 0
  · rw [if_pos stateless]
    have positive : (0 : Rat) < perSeqState := by exact_mod_cast stateless
    have quotient : 0 ≤ ⌊leftover / perSeqState⌋ := Int.floor_nonneg.mpr (div_nonneg room nonneg)
    have spent : (perSeqState : Rat) * ⌊leftover / perSeqState⌋ ≤ leftover := (le_floor_div positive).mp le_rfl
    have fewer : min (slots : Int) (minMaxNumSeqs + max ⌊leftover / perSeqState⌋ 0) ≤ minMaxNumSeqs + ⌊leftover / perSeqState⌋ := by
      rw [max_eq_left quotient]
      exact min_le_right _ _
    have most := mul_le_mul_of_nonneg_left (Int.cast_le (R := Rat).mpr fewer) nonneg
    push_cast at most ⊢
    linarith
  · have none_ : perSeqState = 0 := by omega
    rw [none_,Nat.cast_zero,zero_mul]
    rw [none_,Nat.cast_zero,zero_mul] at pool
    linarith

theorem fitLen_target {budget : Rat} (known : targetLen ≠ 0) : fitLen budget kvPerToken targetLen ≤ targetLen := by
  unfold fitLen
  dsimp only
  rw [if_pos known]
  exact min_le_right _ _

theorem floorLen_target {budget : Rat} (known : targetLen ≠ 0) : floorLen budget kvPerToken targetLen ≤ targetLen := by
  unfold floorLen
  split
  · exact le_rfl
  · exact fitLen_target known

-- A pin is honored: the context is sized around the state of its slots.
theorem pinned_stands {pinned : Int} (nonneg : 0 ≤ kvPerToken)
    (fit : applyHybridFit kvPool perSeqState kvPerToken targetLen (some pinned) defaultMaxNumSeqs = some (length,fitted)) :
    fitted = none ∧ defaultBlockSize ≤ length ∧ (targetLen ≠ 0 → length ≤ targetLen) ∧
      perSeqState * pinned + kvPerToken * length ≤ kvPool := by
  unfold applyHybridFit at fit
  dsimp only at fit
  by_cases room : kvPool - perSeqState * pinned > 0
  · rw [if_pos room] at fit
    obtain ⟨least,same⟩ := Option.ite_none_left_eq_some.mp fit
    cases same
    have fits := fitLen_fits targetLen room.le nonneg
    exact ⟨rfl,not_lt.mp least,fitLen_target,by linarith⟩
  · rw [if_neg room] at fit
    cases fit

-- Without a pin the context is protected at the floor of slots, and what it leaves goes into more of them.
theorem floor_stands (nonneg : 0 ≤ kvPerToken)
    (fit : applyHybridFit kvPool perSeqState kvPerToken targetLen none defaultMaxNumSeqs = some (length,fitted)) :
    ∃ seqs, fitted = some seqs ∧ seqs ≤ defaultMaxNumSeqs ∧
      length = floorLen (kvPool - perSeqState * minMaxNumSeqs) kvPerToken targetLen ∧
      (keepsTarget (kvPool - perSeqState * minMaxNumSeqs) kvPerToken targetLen ∨ defaultBlockSize ≤ length) ∧
      0 ≤ kvPerToken * length ∧ perSeqState * seqs + kvPerToken * length ≤ kvPool := by
  unfold applyHybridFit at fit
  dsimp only at fit
  obtain ⟨room,later⟩ := Option.ite_none_left_eq_some.mp fit
  obtain ⟨least,same⟩ := Option.ite_none_left_eq_some.mp later
  cases same
  obtain ⟨spared,taken⟩ := floorLen_fits targetLen (not_le.mp room).le nonneg
  rw [not_and_or,not_not,not_lt] at least
  refine ⟨_,rfl,min_le_left _ _,rfl,least,by linarith,?_⟩
  exact le_sub_iff_add_le.mp (spare_slots defaultMaxNumSeqs (sub_nonneg.mpr taken) (by linarith))

-- A fit stands in its pool, and keeps the target where that stands beside the floor of slots.
theorem hybrid_fit_stands {userMaxNumSeqs : Option Int} (nonneg : 0 ≤ kvPerToken) (target : 1 ≤ targetLen)
    (fit : applyHybridFit kvPool perSeqState kvPerToken targetLen userMaxNumSeqs defaultMaxNumSeqs = some (length,fitted)) :
    ∃ seqs, fitted.or userMaxNumSeqs = some seqs ∧ perSeqState * seqs + kvPerToken * length ≤ kvPool ∧
      1 ≤ length ∧ length ≤ targetLen ∧
      (userMaxNumSeqs = none → seqs ≤ defaultMaxNumSeqs ∧
        (perSeqState * minMaxNumSeqs + kvPerToken * targetLen ≤ kvPool → length = targetLen)) := by
  have known : targetLen ≠ 0 := by omega
  cases userMaxNumSeqs with
  | some pinned =>
      obtain ⟨none_,least,most,stands⟩ := pinned_stands nonneg fit
      subst none_
      have block : 1 ≤ defaultBlockSize := by decide
      exact ⟨pinned,rfl,stands,block.trans least,most known,fun unpinned => absurd unpinned (Option.some_ne_none _)⟩
  | none =>
      obtain ⟨seqs,some_,capped,chosen,least,_,stands⟩ := floor_stands nonneg fit
      subst some_
      have most : length ≤ targetLen := chosen ▸ floorLen_target known
      refine ⟨seqs,rfl,stands,?_,most,fun _ => ⟨capped,?_⟩⟩
      · rcases least with kept | block
        · rw [chosen,floorLen,if_pos kept]
          exact_mod_cast target
        · unfold defaultBlockSize at block
          omega
      · intro fits
        have kept : keepsTarget (kvPool - perSeqState * minMaxNumSeqs) kvPerToken targetLen := ⟨known,by linarith⟩
        rw [chosen,floorLen,if_pos kept]

end

-- The target leaves room for forty-two slots above the floor.
theorem hybrid_fit_stands_spare : applyHybridFit 1000 10 5 100 none 128 = some (100,some 50) ∧
    ∃ seqs : Int, seqs ≤ 128 ∧ (10 : Rat) * seqs + 5 * 100 ≤ 1000 := by
  have fit : applyHybridFit 1000 10 5 100 none 128 = some (100,some 50) := by decide +kernel
  obtain ⟨seqs,_,stands,_,_,unpinned⟩ := hybrid_fit_stands (by decide) (by decide) fit
  exact ⟨fit,seqs,(unpinned rfl).1,by exact_mod_cast stands⟩

end Modelship.Preflight

import Mathlib.Data.Rat.Floor
import Modelship.Foundation.Dict

namespace Modelship.Preflight
open Foundation

-- The memory a process finds: the host's figures against those of its control group.

-- What reading a one-number file of the kernel gives.
inductive Reading where
  | unreadable
  | garbled
  | max
  | number (value : Int)
  deriving DecidableEq

-- The figures are read once; a probe that fails gives none.
structure Memory where
  hostTotal : Option Nat
  hostAvailable : Option Nat
  limits : List Reading
  usages : List Reading
  stats : List (Option (Dict String Int))

def cgroupV1Unlimited : Int := 0x7FFFFFFFFFFFF000

def cgroupMemoryLimitBytes : List Reading → Option Int
  | [] => none
  | .unreadable :: rest => cgroupMemoryLimitBytes rest
  | .garbled :: rest => cgroupMemoryLimitBytes rest
  | .max :: _ => none
  | .number value :: _ => if value ≤ 0 ∨ value ≥ cgroupV1Unlimited then none else some value

def readFirstInt : List Reading → Option Int
  | [] => none
  | .number value :: _ => some value
  | _ :: rest => readFirstInt rest

def cgroupReclaimableCacheBytes : List (Option (Dict String Int)) → Option Int
  | [] => none
  | none :: rest => cgroupReclaimableCacheBytes rest
  | some values :: _ =>
    if (values.get? "total_inactive_file").isSome then
      some ((values.get? "total_inactive_file").getD 0 + (values.get? "total_active_file").getD 0)
    else some ((values.get? "inactive_file").getD 0 + (values.get? "active_file").getD 0)

def cgroupMemoryAvailableBytes (memory : Memory) : Option Int :=
  (cgroupMemoryLimitBytes memory.limits).bind fun limit =>
    (readFirstInt memory.usages).map fun current =>
      max 0 (limit - current + (cgroupReclaimableCacheBytes memory.stats).getD 0)

def tighterRam (hostBytes : Int) (cgroupBytes : Option Int) : Int :=
  match cgroupBytes with
  | none => hostBytes
  | some bytes => if hostBytes ≤ 0 then bytes else min hostBytes bytes

def detectRamBytes (memory : Memory) : Int := tighterRam (memory.hostTotal.getD 0) (cgroupMemoryLimitBytes memory.limits)

def detectAvailableRamBytes (memory : Memory) : Int :=
  tighterRam (memory.hostAvailable.getD 0) (cgroupMemoryAvailableBytes memory)

structure HardwareProfile where
  ramBytes : Int
  availableRamBytes : Int

-- Free RAM where it is read as anything but zero, else total.
def HardwareProfile.sizingRamBytes (hw : HardwareProfile) : Int :=
  if hw.availableRamBytes = 0 then hw.ramBytes else hw.availableRamBytes

def discoverHardware (memory : Memory) : HardwareProfile := ⟨detectRamBytes memory,detectAvailableRamBytes memory⟩

theorem tighterRam_nonneg {host : Int} {cgroup : Option Int} (first : 0 ≤ host) (second : ∀ bytes, cgroup = some bytes → 0 ≤ bytes) :
    0 ≤ tighterRam host cgroup := by
  unfold tighterRam
  split
  · exact first
  · have bytes := second _ rfl
    split
    · exact bytes
    · exact le_min first bytes

theorem limit_positive {limits : List Reading} {limit : Int} (found : cgroupMemoryLimitBytes limits = some limit) : 0 < limit := by
  induction limits with
  | nil => cases found
  | cons reading rest ih =>
      cases reading with
      | unreadable => exact ih found
      | garbled => exact ih found
      | max => cases found
      | number value =>
          obtain ⟨sane,same⟩ := Option.ite_none_left_eq_some.mp found
          cases same
          omega

theorem ram_nonneg (memory : Memory) : 0 ≤ (discoverHardware memory).ramBytes := by
  apply tighterRam_nonneg (Int.natCast_nonneg _)
  intro bytes found
  exact (limit_positive found).le

theorem available_nonneg (memory : Memory) : 0 ≤ (discoverHardware memory).availableRamBytes := by
  apply tighterRam_nonneg (Int.natCast_nonneg _)
  intro bytes found
  unfold cgroupMemoryAvailableBytes at found
  obtain ⟨limit,_,rest⟩ := Option.bind_eq_some_iff.mp found
  obtain ⟨current,_,rfl⟩ := Option.map_eq_some_iff.mp rest
  exact le_max_left _ _

end Modelship.Preflight

import Modelship.Deploy.Requests
import Modelship.Gateway.Coordinator

namespace Modelship.Gateway
open Foundation Function

-- The deploy coordinator's own model, for one gateway, against the deploy side of a
-- cluster: what it does to the gateway's routing, the cluster can do.

def versionOf (routing : Modelship.Deploy.Routing) : Version :=
  ⟨routing.seq,routing.apps.foldl (fun targets entry => targets.set entry.1 entry.2) Dict.empty⟩

def Mirrors (gateway : String) (s : Modelship.Deploy.Coordinator) (c : Cluster) : Prop :=
  c.deploy.seq = s.seq ∧ c.deploy.routing gateway = s.routing.map versionOf

section
variable {home : String → String} {apps : List Json → List (String × String)} {gateway : String}
variable {s t : Modelship.Deploy.Coordinator} {c : Cluster}

def Follows (home : String → String) (gateway : String) (c : Cluster) (t : Modelship.Deploy.Coordinator) : Prop :=
  ∃ actions after, execute (next home) c actions = some after ∧ Mirrors gateway t after

theorem Mirrors.frame (mirrors : Mirrors gateway s c) (seq : t.seq = s.seq) (routing : t.routing = s.routing) :
    Mirrors gateway t c := by
  unfold Mirrors
  rw [seq,routing]
  exact mirrors

theorem Mirrors.stays (mirrors : Mirrors gateway s c) : Follows home gateway c s := ⟨[],c,rfl,mirrors⟩

theorem Mirrors.routes (mirrors : Mirrors gateway s c) (models : Option (List Json)) :
    Follows home gateway c (s.route apps models) := by
  refine ⟨[.route gateway (versionOf (Modelship.Deploy.routingOf apps (s.seq + 1) models)).apps],_,rfl,?_,?_⟩
  · exact congrArg (· + 1) mirrors.1
  · dsimp only [Deploy.route]
    rw [update_self,mirrors.1]
    rfl

-- A lookup that comes too late uses up a seq.
theorem Mirrors.loads (mirrors : Mirrors gateway s c) (routed : s.routing ≠ none) (seq : t.seq = s.seq + 1)
    (routing : t.routing = s.routing) : Follows home gateway c t := by
  have known : (c.deploy.routing gateway).isNone = false := by
    rw [mirrors.2]
    cases held : s.routing with
    | none => exact absurd held routed
    | some routing => rfl
  refine ⟨[.load gateway Dict.empty],_,rfl,?_,?_⟩
  · rw [known,seq,← mirrors.1]
    rfl
  · rw [known,routing]
    exact mirrors.2

theorem moves_followed (home : String → String) {action : Modelship.Deploy.Action} (mirrors : Mirrors gateway s c)
    (moves : Modelship.Deploy.Moves apps s action t) : Follows home gateway c t := by
  cases moves with
  | switches entry stage diff restored models => exact mirrors.routes (some models)
  | reroutes owner rest recovery =>
      exact Mirrors.routes (s := {s with lock := rest,recovery,running := _}) (mirrors.frame rfl rfl) _
  | overtaken index routed => exact mirrors.loads routed rfl rfl
  | looked index models => exact Mirrors.routes (s := {s with lookups := _}) (mirrors.frame rfl rfl) models
  | _ => exact (mirrors.frame rfl rfl).stays

-- Every run of the deploy coordinator is followed by one of the cluster.
theorem deploy_runs_followed {actions : List Modelship.Deploy.Action} (mirrors : Mirrors gateway s c)
    (ran : execute (Modelship.Deploy.next apps) s actions = some t) : Follows home gateway c t := by
  induction actions generalizing s c with
  | nil =>
      cases ran
      exact mirrors.stays
  | cons action rest ih =>
      obtain ⟨middle,taken,others⟩ := execute_cons.mp ran
      obtain ⟨earlier,between,first,still⟩ := moves_followed home mirrors (Modelship.Deploy.next_moves taken)
      obtain ⟨later,after,second,last⟩ := ih still others
      exact ⟨earlier ++ later,after,execute_append.mpr ⟨between,first,second⟩,last⟩

end

end Modelship.Gateway

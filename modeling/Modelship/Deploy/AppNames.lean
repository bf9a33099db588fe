import Modelship.Deploy.Decisions

namespace Modelship.Deploy.Rollback
open Foundation Modelship.Gateway

-- What the name of an app tells of the gateway and the model config it was made for.

def checkNameHasNoHash (name : String) : Except String Unit :=
  if '#' ∈ name.toList then .error ("name " ++ quoted name ++ " must not contain '#'") else .ok ()

-- The gateways a coordinator has: named, without the separator of an app name.
structure GatewayName (gateway : String) : Prop where
  named : gateway ≠ ""
  undotted : '.' ∉ gateway.toList

-- An app name is read back as its gateway and model, no other config and gateway have it,
-- and the gateway finds it among whatever apps Serve holds.
structure Identifies (gateway : String) (config : Config) : Prop where
  parsed : parseDeploymentName (config.app gateway) = some (gateway,config.name)
  owned : ∀ elsewhere other, GatewayName elsewhere → Config.app other elsewhere = config.app gateway →
    elsewhere = gateway ∧ other.name = config.name
  found : ∀ names, config.app gateway ∈ names → (config.app gateway,config.name) ∈ gatewayApps names gateway

-- The pattern of an app name matches at least one character of a model name, and no newline.
def Legible (name : String) : Prop := name ≠ "" ∧ '\n' ∉ name.toList

instance (name : String) : Decidable (Legible name) := inferInstanceAs (Decidable (_ ∧ _))

theorem parse_app {gateway : String} (valid : GatewayName gateway) (config : Config) :
    parseDeploymentName (config.app gateway) = if Legible config.name then some (gateway,config.name) else none :=
  parse_deployment valid.named valid.undotted config.printed

-- The first dot of an app name ends its gateway.
theorem app_gateway {gateway elsewhere : String} {config other : Config} (valid : GatewayName gateway)
    (also : GatewayName elsewhere) (same : other.app elsewhere = config.app gateway) : elsewhere = gateway := by
  have chars := congrArg String.toList same
  unfold Config.app at chars
  rw [deploymentName_toList,deploymentName_toList] at chars
  exact String.toList_inj.mp (separated also.undotted valid.undotted chars)

theorem app_owner {gateway elsewhere : String} {config other : Config} (valid : GatewayName gateway)
    (also : GatewayName elsewhere) (same : other.app elsewhere = config.app gateway) :
    elsewhere = gateway ∧ other.name = config.name := by
  have home := app_gateway valid also same
  subst home
  exact ⟨rfl,app_name same⟩

theorem gatewayApps_parsed {names : List String} {app gateway model : String} :
    (app,model) ∈ gatewayApps names gateway ↔ app ∈ names ∧ parseDeploymentName app = some (gateway,model) := by
  unfold gatewayApps
  rw [List.mem_filterMap]
  constructor
  · intro ⟨name,listed,kept⟩
    obtain ⟨⟨owner,read⟩,parsed,ours⟩ := Option.bind_eq_some_iff.mp kept
    split at ours
    case isTrue home =>
      cases ours
      subst home
      exact ⟨listed,parsed⟩
    case isFalse => cases ours
  · intro ⟨listed,parsed⟩
    refine ⟨app,listed,?_⟩
    rw [parsed,Option.bind_some,if_pos rfl]

-- An app of a name the pattern does not match is no app of any gateway.
theorem illegible_lost {gateway : String} {config : Config} (valid : GatewayName gateway) (lost : ¬Legible config.name)
    (names : List String) (elsewhere model : String) : (config.app gateway,model) ∉ gatewayApps names elsewhere := by
  intro found
  have parsed := (gatewayApps_parsed.mp found).2
  rw [parse_app valid,if_neg lost] at parsed
  cases parsed

theorem app_identifies {gateway : String} (valid : GatewayName gateway) (config : Config) :
    Identifies gateway config ↔ Legible config.name := by
  constructor
  · intro identifies
    by_contra lost
    exact illegible_lost valid lost [config.app gateway] gateway config.name (identifies.found _ List.mem_cons_self)
  · intro legible
    have parsed : parseDeploymentName (config.app gateway) = some (gateway,config.name) := by
      rw [parse_app valid,if_pos legible]
    constructor
    · exact parsed
    · intro elsewhere other also same
      exact app_owner valid also same
    · intro names listed
      exact gatewayApps_parsed.mpr ⟨listed,parsed⟩

def plainConfig (name : String) : Config := ⟨name,"0123456789",⟨1,none⟩,⟨by decide,by decide⟩⟩

theorem app_identifies_chat : GatewayName "edge" ∧ Identifies "edge" (plainConfig "llama-3.1") :=
  have valid : GatewayName "edge" := ⟨by decide,by decide⟩
  ⟨valid,(app_identifies valid (plainConfig "llama-3.1")).mpr (by decide)⟩

-- No validator rejects a name without characters.
theorem blank_unidentified : ¬∀ (gateway : String) (config : Config), GatewayName gateway →
    checkNameHasNoHash config.name = .ok () → Identifies gateway config := by
  intro every
  have valid : GatewayName "edge" := ⟨by decide,by decide⟩
  have identified := every "edge" (plainConfig "") valid (by decide)
  have unread : parseDeploymentName ((plainConfig "").app "edge") = none := by decide
  rw [identified.parsed] at unread
  cases unread

end Modelship.Deploy.Rollback

import Mathlib.Data.List.Sort
import Modelship.Foundation.Dict
import Modelship.Deploy.Names
import Modelship.Gateway.Table

namespace Modelship.Deploy.Rollback
open Foundation Modelship.Gateway

-- What a deploy request changes on its gateway: `build_diff` and what it reads.

inductive Mode where
  | additive
  | reconcile
  | bare
  deriving DecidableEq

structure Autoscaling where
  minReplicas : Nat
  maxReplicas : Nat
  initialReplicas : Option Nat
  targetOngoingRequests : Option Rat
  upscaleDelay : Option Rat
  downscaleDelay : Option Rat
  deriving DecidableEq

-- The replica-count fields of a model config.
structure Scaling where
  numReplicas : Nat
  autoscaling : Option Autoscaling
  deriving DecidableEq

-- A validated model config. Its other fields show in the fingerprint alone.
structure Config where
  name : String
  fingerprint : String
  scaling : Scaling
  printed : IsFingerprint fingerprint.toList

def Config.app (config : Config) (gateway : String) : String := deploymentName gateway config.name config.fingerprint

-- The replica-count fields as Serve holds them.
inductive Held where
  | fixed (numReplicas : Nat)
  | auto (autoscaling : Autoscaling)
  deriving DecidableEq

structure HeldApp where
  status : ApplicationStatus
  scaling : Option Held

structure Rescale where
  model : String
  app : String
  scaling : Scaling

inductive Decision where
  | add
  | replace
  | rescale
  | redeploy
  | remove
  | keep
  deriving DecidableEq

-- `Raw` stands for a model dict as sent.
structure Diff (Raw : Type) where
  actions : Dict String Decision
  leftovers : List String
  scaleDowns : List Rescale
  deploys : List Config
  scaleUps : List Rescale
  retired : List String
  models : Option (List Raw)
  commits : Bool

structure Request (Raw : Type) where
  mode : Mode
  models : Option (List Raw)

def limits : Held → Nat × Nat
  | .fixed numReplicas => (numReplicas,numReplicas)
  | .auto autoscaling => (autoscaling.minReplicas,autoscaling.maxReplicas)

def rises (have_ want : Held) : Bool :=
  decide ((limits want).1 > (limits have_).1) || decide ((limits want).2 > (limits have_).2)

def notLive (status : ApplicationStatus) : Bool := status = .deployFailed || status = .deleting

def shrinks (old : HeldApp) (want : Held) : Bool :=
  match old.scaling with
  | none => false
  | some scaling => !notLive old.status && decide (limits want ≠ limits scaling) && !rises scaling want

-- The gateway's model apps among the names, each with its model.
def gatewayApps (names : List String) (gateway : String) : List (String × String) :=
  names.filterMap fun name =>
    (parseDeploymentName name).bind fun parsed => if parsed.1 = gateway then some (name,parsed.2) else none

section
variable {Raw : Type} (validate : Raw → Option Config) (gateway : String)

-- `to_config`: every model valid, and no name twice.
def toConfig (raws : List Raw) : Option (List Config) :=
  (raws.mapM validate).bind fun configs => if (configs.map Config.name).Nodup then some configs else none

-- What `merge` keeps: the raw model of each app, and the app of each model name.
structure Merged (Raw : Type) where
  apps : Dict String Raw
  byName : Dict String String

def mergeCommitted (merged : Merged Raw) (raw : Raw) (config : Config) : Merged Raw :=
  ⟨merged.apps.set (config.app gateway) raw,merged.byName.set config.name (config.app gateway)⟩

def mergeInput (merged : Merged Raw) (raw : Raw) (config : Config) : Merged Raw :=
  let app := config.app gateway
  if (merged.apps.get? app).isSome then {merged with apps := merged.apps.set app raw} else
  let kept := match merged.byName.get? config.name with
    | none => merged.apps
    | some prior => merged.apps.erase prior
  ⟨kept.set app raw,merged.byName.set config.name app⟩

def mergeAll (step : Merged Raw → Raw → Config → Merged Raw) (merged : Merged Raw) (raws : List Raw) : Option (Merged Raw) :=
  raws.foldlM (fun merged raw => (validate raw).map (step merged raw)) merged

def merge (effective input : List Raw) (mode : Mode) : Option (List Raw) :=
  (toConfig validate input).bind fun _ =>
    if mode = .reconcile then some input else
    ((mergeAll validate (mergeCommitted gateway) ⟨Dict.empty,Dict.empty⟩ effective).bind
      (mergeAll validate (mergeInput gateway) · input)).map fun merged => merged.apps.entries.map Prod.snd

-- Model name -> its app and replica-count fields.
def deployed (models : List Raw) : Option (Dict String (String × Scaling)) :=
  (models.mapM validate).map fun configs =>
    Dict.fill Config.name (fun config => (config.app gateway,config.scaling)) configs Dict.empty

-- Serve fills an autoscaling config's unset fields with its own defaults.
variable (fill : Autoscaling → Autoscaling)

def serveScaling (scaling : Scaling) : Held :=
  match scaling.autoscaling with
  | none => .fixed scaling.numReplicas
  | some autoscaling => .auto (fill autoscaling)

-- Adds the config's action to the diff; `before` is the committed model of its name. The
-- request replaces apps blue-green.
def decide_ (apps : Dict String HeldApp) (diff : Diff Raw) (config : Config) : Option Config → Diff Raw
  | none => {diff with actions := diff.actions.set config.name .add,deploys := diff.deploys ++ [config]}
  | some before =>
    let app := config.app gateway
    let want := serveScaling fill config.scaling
    let old := before.app gateway
    if old ≠ app then
      let diff := {diff with
        actions := diff.actions.set config.name .replace
        deploys := diff.deploys ++ [config]
        retired := diff.retired ++ [old]}
      if ((apps.get? old).map (shrinks · want)).getD false then
        {diff with scaleDowns := diff.scaleDowns ++ [⟨config.name,old,config.scaling⟩]}
      else diff
    else match apps.get? app with
      | none => {diff with actions := diff.actions.set config.name .redeploy,deploys := diff.deploys ++ [config]}
      | some held =>
        if notLive held.status then
          {diff with actions := diff.actions.set config.name .redeploy,deploys := diff.deploys ++ [config]}
        else if held.scaling ≠ some want then
          let diff := {diff with actions := diff.actions.set config.name .rescale}
          if (held.scaling.map (rises · want)).getD true then
            {diff with scaleUps := diff.scaleUps ++ [⟨config.name,app,config.scaling⟩]}
          else {diff with scaleDowns := diff.scaleDowns ++ [⟨config.name,app,config.scaling⟩]}
        else {diff with actions := diff.actions.set config.name .keep}

def decideAll (apps : Dict String HeldApp) (current : List Config) (diff : Diff Raw) (wanted : List Config) : Diff Raw :=
  wanted.foldl (fun diff config => decide_ gateway fill apps diff config (current.find? (·.name = config.name))) diff

-- The request's models and whether they are a new version; none where a config is invalid.
def proposes (request : Request Raw) (committed : Option (List Raw)) (current : List Config) :
    Option (List Config × Option (List Raw) × Bool) :=
  match request.mode,request.models with
  | .bare,_ | _,none => some (current,committed,false)
  | mode,some models =>
    (toConfig validate models).bind fun wanted =>
      (merge validate gateway (committed.getD []) models mode).bind fun proposed =>
        (deployed validate gateway proposed).bind fun after =>
          match committed with
          | none => some (wanted,some proposed,true)
          | some before =>
            (deployed validate gateway before).map fun before =>
              if after.entries.Perm before.entries then (wanted,committed,false) else (wanted,some proposed,true)

def removes (mode : Mode) (current wanted : List Config) : List Config :=
  if mode = .reconcile then current.filter (·.name ∉ wanted.map Config.name) else []

def currentConfigs (committed : Option (List Raw)) : Option (List Config) :=
  match committed with
  | none | some [] => some []
  | some models => toConfig validate models

def buildDiff (request : Request Raw) (committed : Option (List Raw)) (apps : Dict String HeldApp) : Option (Diff Raw) :=
  (currentConfigs validate committed).bind fun current =>
    (proposes validate gateway request committed current).map fun (wanted,models,commits) =>
      let named := current.map (·.app gateway)
      let found := (gatewayApps (apps.entries.map Prod.fst) gateway).map Prod.fst
      let leftovers := (found.filter (· ∉ named)).insertionSort (· ≤ ·)
      let diff := decideAll gateway fill apps current ⟨Dict.empty,leftovers,[],[],[],[],models,commits⟩ wanted
      let removed := removes request.mode current wanted
      {diff with
        actions := removed.foldl (fun actions config => actions.set config.name .remove) diff.actions
        retired := (diff.retired ++ removed.map (·.app gateway)).insertionSort (· ≤ ·)}

-- The diff of a bare blue-green request: `rollback_diff`.
def rollbackDiff (committed : Option (List Raw)) (apps : Dict String HeldApp) : Option (Diff Raw) :=
  buildDiff validate gateway fill ⟨.bare,none⟩ committed apps

end

end Modelship.Deploy.Rollback

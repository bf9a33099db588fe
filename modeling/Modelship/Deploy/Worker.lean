import Modelship.Foundation.Runs
import Modelship.Deploy.Diff

namespace Modelship.Deploy.Rollback
open Foundation Modelship.Gateway

-- One blue-green request's work on Serve and the gateway's routing, up to the write of
-- its commit, and the rollback that may follow it.

-- An app in Serve; `built` once Serve has its deployment.
structure App where
  status : ApplicationStatus
  config : Config
  built : Bool

structure Routing (Raw : Type) where
  seq : Int
  models : Option (List Raw)
  apps : Dict String String

-- Where the worker is; from `resetting` on it is the rollback. `clearing`, `retiring` and
-- `deleting` are rounds of `delete_apps`, `settling` and `rising` polls for RUNNING apps.
inductive Point (Raw : Type) where
  | diffing
  | clearing (diff : Diff Raw) (left : List String)
  | rescaling (diff : Diff Raw) (up : Bool) (left : List Rescale)
  | settling (diff : Diff Raw) (up : Bool) (pending : List String)
  | deploying (diff : Diff Raw) (left : List Config)
  | rising (diff : Diff Raw) (pending : List Config)
  | switching (models : List Raw)
  | confirming (models : List Raw)
  | committing (models : List Raw)
  | retiring (left : List String)
  | resetting
  | reading
  | deleting (diff : Diff Raw) (left : List String)
  | restoring (left : List Rescale)
  | over

-- `skipped` are the committed apps the rollback finds not live, `gaveUp` those it could
-- not rescale in time.
structure World (Raw : Type) where
  serve : Dict String App
  committed : Option (List Raw)
  routing : Option (Routing Raw)
  seq : Int
  point : Point Raw
  skipped : List String
  gaveUp : List String

-- The first five are Serve's own and other gateways'; `refused` are the calls Serve
-- raises on. `stops` is a failure, a cancel or the loss of the worker.
inductive Action where
  | drifts (name : String) (status : ApplicationStatus)
  | builds (name : String)
  | gone (name : String)
  | appears (name : String) (app : App)
  | vanishes (name : String)
  | diffs
  | clears (refused : List String)
  | rescales (refused : Bool)
  | submits (refused : Bool)
  | resubmits (index : Nat) (refused : Bool)
  | polls
  | proceeds
  | switches
  | confirms
  | stops
  | resets
  | reads
  | deletes (refused : List String)
  | restores (refused tired : List String)

def liveApp (serve : Dict String App) (name : String) : Option App := (serve.get? name).filter (·.built)

-- Re-submits the live app with other replica-count fields.
def rescaleApp (serve : Dict String App) (name : String) (scaling : Scaling) (live : App) : Dict String App :=
  serve.set name {live with status := .deploying,config := {live.config with scaling}}

def stillThere (serve : Dict String App) (left : List String) : List String :=
  left.filter fun name => (serve.get? name).isSome

def deleteOne (refused : List String) (serve : Dict String App) (name : String) : Dict String App :=
  match serve.get? name with
  | none => serve
  | some app => if name ∈ refused then serve else serve.set name {app with status := .deleting}

-- What is pending after a poll.
def notRunning (serve : Dict String App) (name : String) : Bool := (serve.get? name).map (·.status) ≠ some .running

-- One round of `restore_scaling` over an app: the world, and whether it is tried again.
def restoreOne (refused tired : List String) (serve : Dict String App) (gaveUp : List String) (rescale : Rescale) :
    Dict String App × List String × Bool :=
  match liveApp serve rescale.app with
  | none => (serve,gaveUp,false)
  | some live =>
    if rescale.app ∉ refused then (rescaleApp serve rescale.app rescale.scaling live,gaveUp,false) else
    if rescale.app ∈ tired then (serve,gaveUp ++ [rescale.app],false) else (serve,gaveUp,true)

def restoreAll (refused tired : List String) (serve : Dict String App) (gaveUp : List String) :
    List Rescale → Dict String App × List String × List Rescale
  | [] => (serve,gaveUp,[])
  | rescale :: rest =>
    let (serve,gaveUp,again) := restoreOne refused tired serve gaveUp rescale
    let (serve,gaveUp,left) := restoreAll refused tired serve gaveUp rest
    (serve,gaveUp,if again then rescale :: left else left)

def Point.rollsBack {Raw : Type} : Point Raw → Bool
  | .resetting | .reading | .deleting _ _ | .restoring _ | .over => true
  | _ => false

section
variable {Raw : Type} (validate : Raw → Option Config) (gateway : String) (fill : Autoscaling → Autoscaling)

def serveApps (serve : Dict String App) : Dict String HeldApp :=
  serve.mapValues fun app => ⟨app.status,if app.built then some (serveScaling fill app.config.scaling) else none⟩

def submitApp (serve : Dict String App) (config : Config) : Dict String App :=
  let app := config.app gateway
  serve.set app ⟨.deploying,config,((serve.get? app).map (·.built)).getD false⟩

def versionApps (models : Option (List Raw)) : Option (Dict String String) :=
  match models with
  | none => some Dict.empty
  | some models => (models.mapM validate).map fun configs => Dict.fill Config.name (·.app gateway) configs Dict.empty

def World.route (s : World Raw) (models : Option (List Raw)) : Option (World Raw) :=
  (versionApps validate gateway models).map fun apps =>
    {s with seq := s.seq + 1,routing := some ⟨s.seq + 1,models,apps⟩}

-- What comes after a part of `_apply` is done.
def proceed : Point Raw → Option (Point Raw)
  | .rescaling diff up [] => some (.settling diff up ((if up then diff.scaleUps else diff.scaleDowns).map Rescale.app))
  | .settling diff false [] => some (.deploying diff diff.deploys)
  | .deploying diff [] => some (.rising diff diff.deploys)
  | .rising diff [] => some (.rescaling diff true diff.scaleUps)
  | .settling diff true [] =>
    if diff.commits then diff.models.map .switching else some (.retiring diff.retired)
  | _ => none

def poll (serve : Dict String App) : Point Raw → Option (Point Raw)
  | .settling diff up pending => some (.settling diff up (pending.filter (notRunning serve)))
  | .rising diff pending => some (.rising diff (pending.filter fun config => notRunning serve (config.app gateway)))
  | _ => none

variable [DecidableEq Raw] (request : Request Raw)

def next (s : World Raw) : Action → Option (World Raw)
  | .drifts name status =>
    match s.serve.get? name with
    | some app =>
      if app.status = .deleting ∨ status = .deleting then none else
      some {s with serve := s.serve.set name {app with status}}
    | none => none
  | .builds name => (s.serve.get? name).map fun app => {s with serve := s.serve.set name {app with built := true}}
  | .gone name =>
    if (s.serve.get? name).map (·.status) = some .deleting then some {s with serve := s.serve.erase name} else none
  | .appears name app => if isModelApp gateway name then none else some {s with serve := s.serve.set name app}
  | .vanishes name => if isModelApp gateway name then none else some {s with serve := s.serve.erase name}
  | .diffs =>
    match s.point with
    | .diffing =>
      (buildDiff validate gateway fill request s.committed (serveApps fill s.serve)).map fun diff =>
        {s with point := .clearing diff diff.leftovers}
    | _ => none
  | .clears refused =>
    match s.point with
    | .clearing diff left =>
      let left := stillThere s.serve left
      if left = [] then some {s with point := .rescaling diff false diff.scaleDowns} else
      some {s with serve := left.foldl (deleteOne refused) s.serve,point := .clearing diff left}
    | .retiring left =>
      let left := stillThere s.serve left
      some {s with serve := left.foldl (deleteOne refused) s.serve,point := .retiring left}
    | _ => none
  | .rescales refused =>
    match s.point with
    | .rescaling diff up (rescale :: rest) =>
      match liveApp s.serve rescale.app with
      | some live =>
        if refused then some {s with point := .resetting} else
        some {s with serve := rescaleApp s.serve rescale.app rescale.scaling live,point := .rescaling diff up rest}
      | none => some {s with point := .resetting}
    | _ => none
  | .submits refused =>
    match s.point with
    | .deploying diff (config :: rest) =>
      some {s with
        serve := if refused then s.serve else submitApp gateway s.serve config
        point := .deploying diff rest}
    | _ => none
  | .resubmits index refused =>
    match s.point with
    | .rising _ pending =>
      pending[index]?.map fun config => {s with serve := if refused then s.serve else submitApp gateway s.serve config}
    | _ => none
  | .polls => (poll gateway s.serve s.point).map fun point => {s with point}
  | .proceeds => (proceed s.point).map fun point => {s with point}
  | .switches =>
    match s.point with
    | .switching models => (s.route validate gateway (some models)).map fun s => {s with point := .confirming models}
    | _ => none
  | .confirms =>
    match s.point with
    | .confirming models => some {s with point := .committing models}
    | _ => none
  | .stops => if s.point.rollsBack then none else some {s with point := .resetting}
  | .resets =>
    match s.point with
    | .resetting =>
      if s.routing.map Routing.models = some s.committed then some {s with point := .reading} else
      (s.route validate gateway s.committed).map fun s => {s with point := .reading}
    | _ => none
  | .reads =>
    match s.point with
    | .reading =>
      (rollbackDiff validate gateway fill s.committed (serveApps fill s.serve)).map fun diff =>
        {s with point := .deleting diff diff.leftovers,skipped := diff.deploys.map (·.app gateway)}
    | _ => none
  | .deletes refused =>
    match s.point with
    | .deleting diff left =>
      let left := stillThere s.serve left
      if left = [] then some {s with point := .restoring (diff.scaleDowns ++ diff.scaleUps)} else
      some {s with serve := left.foldl (deleteOne refused) s.serve,point := .deleting diff left}
    | _ => none
  | .restores refused tired =>
    match s.point with
    | .restoring left =>
      let (serve,gaveUp,left) := restoreAll refused tired s.serve s.gaveUp left
      some {s with serve,gaveUp,point := if left = [] then .over else .restoring left}
    | _ => none

-- Everything that a step can do.
inductive Goes (s : World Raw) : Action → World Raw → Prop where
  | drifts (name status app) (held : s.serve.get? name = some app) (live : ¬(app.status = .deleting ∨ status = .deleting)) :
      Goes s (.drifts name status) {s with serve := s.serve.set name {app with status}}
  | builds (name app) (held : s.serve.get? name = some app) :
      Goes s (.builds name) {s with serve := s.serve.set name {app with built := true}}
  | gone (name) (deleting : (s.serve.get? name).map (·.status) = some .deleting) :
      Goes s (.gone name) {s with serve := s.serve.erase name}
  | appears (name app) (foreign : isModelApp gateway name = false) :
      Goes s (.appears name app) {s with serve := s.serve.set name app}
  | vanishes (name) (foreign : isModelApp gateway name = false) : Goes s (.vanishes name) {s with serve := s.serve.erase name}
  | diffs (diff) (diffing : s.point = .diffing)
      (built : buildDiff validate gateway fill request s.committed (serveApps fill s.serve) = some diff) :
      Goes s .diffs {s with point := .clearing diff diff.leftovers}
  | cleared (refused diff left) (clearing : s.point = .clearing diff left) (gone : stillThere s.serve left = []) :
      Goes s (.clears refused) {s with point := .rescaling diff false diff.scaleDowns}
  | clears (refused diff left) (clearing : s.point = .clearing diff left) : Goes s (.clears refused) {s with
      serve := (stillThere s.serve left).foldl (deleteOne refused) s.serve
      point := .clearing diff (stillThere s.serve left)}
  | retires (refused left) (retiring : s.point = .retiring left) : Goes s (.clears refused) {s with
      serve := (stillThere s.serve left).foldl (deleteOne refused) s.serve
      point := .retiring (stillThere s.serve left)}
  | stumbles (refused diff up rescale rest) (rescaling : s.point = .rescaling diff up (rescale :: rest)) :
      Goes s (.rescales refused) {s with point := .resetting}
  | rescales (diff up rescale rest live) (rescaling : s.point = .rescaling diff up (rescale :: rest))
      (found : liveApp s.serve rescale.app = some live) : Goes s (.rescales false) {s with
        serve := rescaleApp s.serve rescale.app rescale.scaling live
        point := .rescaling diff up rest}
  | submits (refused diff config rest) (deploying : s.point = .deploying diff (config :: rest)) : Goes s (.submits refused) {s with
      serve := if refused then s.serve else submitApp gateway s.serve config
      point := .deploying diff rest}
  | resubmits (index refused diff pending config) (rising : s.point = .rising diff pending) (found : pending[index]? = some config) :
      Goes s (.resubmits index refused) {s with serve := if refused then s.serve else submitApp gateway s.serve config}
  | polls (point) (polled : poll gateway s.serve s.point = some point) : Goes s .polls {s with point}
  | proceeds (point) (done : proceed s.point = some point) : Goes s .proceeds {s with point}
  | switches (models after) (switching : s.point = .switching models)
      (routed : s.route validate gateway (some models) = some after) : Goes s .switches {after with point := .confirming models}
  | confirms (models) (confirming : s.point = .confirming models) : Goes s .confirms {s with point := .committing models}
  | stops (working : ¬s.point.rollsBack = true) : Goes s .stops {s with point := .resetting}
  | stands (resetting : s.point = .resetting) (same : s.routing.map Routing.models = some s.committed) :
      Goes s .resets {s with point := .reading}
  | resets (after) (resetting : s.point = .resetting) (routed : s.route validate gateway s.committed = some after) :
      Goes s .resets {after with point := .reading}
  | reads (diff) (reading : s.point = .reading)
      (built : rollbackDiff validate gateway fill s.committed (serveApps fill s.serve) = some diff) :
      Goes s .reads {s with point := .deleting diff diff.leftovers,skipped := diff.deploys.map (·.app gateway)}
  | deleted (refused diff left) (deleting : s.point = .deleting diff left) (gone : stillThere s.serve left = []) :
      Goes s (.deletes refused) {s with point := .restoring (diff.scaleDowns ++ diff.scaleUps)}
  | deletes (refused diff left) (deleting : s.point = .deleting diff left) : Goes s (.deletes refused) {s with
      serve := (stillThere s.serve left).foldl (deleteOne refused) s.serve
      point := .deleting diff (stillThere s.serve left)}
  | restores (refused tired left) (restoring : s.point = .restoring left) : Goes s (.restores refused tired) {s with
      serve := (restoreAll refused tired s.serve s.gaveUp left).1
      gaveUp := (restoreAll refused tired s.serve s.gaveUp left).2.1
      point := if (restoreAll refused tired s.serve s.gaveUp left).2.2 = [] then .over
        else .restoring (restoreAll refused tired s.serve s.gaveUp left).2.2}

end

section
variable {Raw : Type} {validate : Raw → Option Config} {gateway : String} {fill : Autoscaling → Autoscaling}
variable [DecidableEq Raw] {request : Request Raw} {s t : World Raw}

theorem next_goes {action : Action} (taken : next validate gateway fill request s action = some t) :
    Goes validate gateway fill request s action t := by
  cases action with
  | drifts name status =>
      simp only [next] at taken
      split at taken
      case h_1 app held =>
        split at taken
        case isTrue => cases taken
        case isFalse live =>
          cases taken
          exact .drifts name status app held live
      case h_2 => cases taken
  | builds name =>
      obtain ⟨app,held,rfl⟩ := Option.map_eq_some_iff.mp taken
      exact .builds name app held
  | gone name =>
      simp only [next] at taken
      split at taken
      case isTrue deleting =>
        cases taken
        exact .gone name deleting
      case isFalse => cases taken
  | appears name app =>
      simp only [next] at taken
      split at taken
      case isTrue => cases taken
      case isFalse foreign =>
        cases taken
        exact .appears name app (Bool.eq_false_iff.mpr foreign)
  | vanishes name =>
      simp only [next] at taken
      split at taken
      case isTrue => cases taken
      case isFalse foreign =>
        cases taken
        exact .vanishes name (Bool.eq_false_iff.mpr foreign)
  | diffs =>
      simp only [next] at taken
      split at taken
      case h_1 diffing =>
        obtain ⟨diff,built,rfl⟩ := Option.map_eq_some_iff.mp taken
        exact .diffs diff diffing built
      case h_2 => cases taken
  | clears refused =>
      simp only [next] at taken
      split at taken
      case h_1 diff left clearing =>
        split at taken
        case isTrue gone =>
          cases taken
          exact .cleared refused diff left clearing gone
        case isFalse =>
          cases taken
          exact .clears refused diff left clearing
      case h_2 left retiring =>
        cases taken
        exact .retires refused left retiring
      case h_3 => cases taken
  | rescales refused =>
      simp only [next] at taken
      split at taken
      case h_1 diff up rescale rest rescaling =>
        split at taken
        case h_1 live found =>
          cases refused with
          | true =>
              cases taken
              exact .stumbles true diff up rescale rest rescaling
          | false =>
              cases taken
              exact .rescales diff up rescale rest live rescaling found
        case h_2 =>
          cases taken
          exact .stumbles refused diff up rescale rest rescaling
      case h_2 => cases taken
  | submits refused =>
      simp only [next] at taken
      split at taken
      case h_1 diff config rest deploying =>
        cases taken
        exact .submits refused diff config rest deploying
      case h_2 => cases taken
  | resubmits index refused =>
      simp only [next] at taken
      split at taken
      case h_1 diff pending rising =>
        obtain ⟨config,found,rfl⟩ := Option.map_eq_some_iff.mp taken
        exact .resubmits index refused diff pending config rising found
      case h_2 => cases taken
  | polls =>
      obtain ⟨point,polled,rfl⟩ := Option.map_eq_some_iff.mp taken
      exact .polls point polled
  | proceeds =>
      obtain ⟨point,done,rfl⟩ := Option.map_eq_some_iff.mp taken
      exact .proceeds point done
  | switches =>
      simp only [next] at taken
      split at taken
      case h_1 models switching =>
        obtain ⟨after,routed,rfl⟩ := Option.map_eq_some_iff.mp taken
        exact .switches models after switching routed
      case h_2 => cases taken
  | confirms =>
      simp only [next] at taken
      split at taken
      case h_1 models confirming =>
        cases taken
        exact .confirms models confirming
      case h_2 => cases taken
  | stops =>
      simp only [next] at taken
      split at taken
      case isTrue => cases taken
      case isFalse working =>
        cases taken
        exact .stops working
  | resets =>
      simp only [next] at taken
      split at taken
      case h_1 resetting =>
        split at taken
        case isTrue same =>
          cases taken
          exact .stands resetting same
        case isFalse =>
          obtain ⟨after,routed,rfl⟩ := Option.map_eq_some_iff.mp taken
          exact .resets after resetting routed
      case h_2 => cases taken
  | reads =>
      simp only [next] at taken
      split at taken
      case h_1 reading =>
        obtain ⟨diff,built,rfl⟩ := Option.map_eq_some_iff.mp taken
        exact .reads diff reading built
      case h_2 => cases taken
  | deletes refused =>
      simp only [next] at taken
      split at taken
      case h_1 diff left deleting =>
        split at taken
        case isTrue gone =>
          cases taken
          exact .deleted refused diff left deleting gone
        case isFalse =>
          cases taken
          exact .deletes refused diff left deleting
      case h_2 => cases taken
  | restores refused tired =>
      simp only [next] at taken
      split at taken
      case h_1 left restoring =>
        cases taken
        exact .restores refused tired left restoring
      case h_2 => cases taken

end

end Modelship.Deploy.Rollback

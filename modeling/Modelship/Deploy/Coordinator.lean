import Modelship.Foundation.Runs
import Modelship.Deploy.Ledger

namespace Modelship.Deploy
open Foundation

-- One gateway of the deploy coordinator: its queue, its routing, its version in the
-- store and the workers that act on them. Gateways share none of these.

inductive Strategy where
  | blueGreen
  | stopStart
  deriving DecidableEq

-- What a worker reads of a request's diff.
structure Diff where
  leftovers : List String
  scaleDowns : List String
  deploys : List String
  scaleUps : List String
  retired : List String
  models : Option (List Json)
  commits : Bool

inductive EntryState where
  | queued
  | applying
  | switching
  | committing
  | retiring
  | rollingBack
  deriving DecidableEq

structure Entry where
  id : String
  strategy : Strategy
  state : EntryState
  cancelled : Bool
  switched : Bool
  deriving DecidableEq

inductive Outcome where
  | succeeded
  | failed
  | cancelled
  deriving DecidableEq

-- The steps of `Run._apply` that poll for a cancel, each at least once.
inductive Phase where
  | leftovers
  | scaleDowns
  | stop
  | deploys
  | scaleUps
  deriving DecidableEq

def phases (strategy : Strategy) (diff : Diff) : List Phase :=
  [.leftovers] ++ (if diff.scaleDowns = [] then [] else [.scaleDowns]) ++
  (if strategy = .stopStart then [.stop] else []) ++
  (if diff.deploys = [] then [] else [.deploys]) ++
  (if diff.scaleUps = [] then [] else [.scaleUps])

-- Where a worker's `Run.execute` is. At `switching`, `committing`, `unwinding` and
-- `resetting` its call to the coordinator is on the way; at `landing` and `awaiting`
-- the coordinator is working on it.
inductive WorkerPoint where
  | diffing
  | applying (diff : Diff) (left : List Phase)
  | switching (models : List Json)
  | confirming (models : List Json)
  | committing (models : List Json)
  | landing (models : List Json)
  | retiring
  | unwinding (outcome : Outcome)
  | resetting (outcome : Outcome)
  | awaiting (outcome : Outcome)
  | restoring (outcome : Outcome)
  | returned (outcome : Outcome)

inductive Transit where
  | switch (models : List Json)
  | commit (models : List Json)
  | rollingBack
  | reset

def WorkerPoint.transit : WorkerPoint → Option Transit
  | .switching models => some (.switch models)
  | .committing models => some (.commit models)
  | .unwinding _ => some .rollingBack
  | .resetting _ => some .reset
  | _ => none

-- How far the `reset_routing` call of a rollback worker is.
inductive Progress where
  | sent
  | queued
  | answered
  deriving DecidableEq

-- Who carries a running request: its worker; nobody, with the call the lost worker
-- had on the way; or the rollback that follows its loss, `late` while a
-- `rolling_back` of the lost worker may still arrive.
inductive Stage where
  | working (point : WorkerPoint)
  | lost (transit : Option Transit)
  | rolling (reset : Progress) (late : Bool)

def Stage.transit : Stage → Option Transit
  | .working point => point.transit
  | .lost transit => transit
  | .rolling _ _ => none

-- `diff` is what the coordinator last gave the worker; `restored` whether a
-- `reset_routing` has completed since the request switched.
structure Running where
  entry : Entry
  stage : Stage
  diff : Option Diff
  restored : Bool

inductive Owner where
  | worker (request : String)
  | rollback (request : String)
  | recovery
  | stray
  deriving DecidableEq

-- A call that waits for the gateway's version lock, or holds it.
inductive Task where
  | commit (request : String) (models : List Json)
  | reset (owner : Owner)
  deriving DecidableEq

inductive Recovery where
  | waiting
  | rolling (reset : Progress)
  | over
  deriving DecidableEq

structure Routing where
  seq : Int
  models : Option (List Json)
  apps : List (String × String)
  deriving DecidableEq

structure Done where
  entry : Entry
  diff : Option Diff
  outcome : Outcome

-- A version written to the store, with the request that asked for it and the dict it
-- was written over.
structure Write where
  request : String
  models : List Json
  before : Json
  after : Json

-- `lock` lists the calls on the version lock, its holder first; `strays` counts the
-- `reset_routing` calls of lost workers still on the way. `lookups` are the
-- `routing_versions` calls that have read the store. `writes` and `granted` only
-- record what has happened.
structure Coordinator where
  cell : Json
  routing : Option Routing
  seq : Int
  recovery : Recovery
  queue : List Entry
  running : Option Running
  lock : List Task
  strays : Nat
  lookups : List (Option (List Json))
  outcomes : List Done
  writes : List Write
  granted : List String

section
-- A version's model -> app table.
variable (apps : List Json → List (String × String))

def routingOf (seq : Int) (models : Option (List Json)) : Routing :=
  ⟨seq,models,(models.map apps).getD []⟩

def Coordinator.route (s : Coordinator) (models : Option (List Json)) : Coordinator :=
  {s with seq := s.seq + 1,routing := some (routingOf apps (s.seq + 1) models)}

def Coordinator.begun (s : Coordinator) : List String :=
  s.running.toList.map (·.entry.id) ++ s.outcomes.map (·.entry.id)

def Coordinator.ids (s : Coordinator) : List String := s.queue.map (·.id) ++ s.begun

def cancel (s : Coordinator) (id : String) : Coordinator :=
  match s.queue.find? (·.id == id) with
  | some entry =>
    {s with
      queue := s.queue.filter (·.id != id)
      outcomes := s.outcomes ++ [⟨entry,none,.cancelled⟩]
      granted := s.granted ++ [id]}
  | none =>
    match s.running with
    | none => s
    | some running =>
      if running.entry.id != id then s else
      if running.entry.state = .committing ∨ running.entry.state = .retiring then s else
      if running.entry.state = .rollingBack ∧ running.entry.cancelled = false then s else
      {s with
        running := some {running with entry := {running.entry with cancelled := true}}
        granted := s.granted ++ [id]}

-- A worker's call reaches the coordinator; `false` where it is refused. A cancelled
-- commit is answered with none, any other refusal raises.
def receive (s : Coordinator) (running : Running) : Transit → Coordinator × Running × Bool
  | .switch models =>
    if running.entry.state = .rollingBack then (s,running,false) else
    (s.route apps (some models),
      {running with entry := {running.entry with state := .switching,switched := true},restored := false},true)
  | .commit models =>
    if running.entry.state = .rollingBack ∨ running.entry.cancelled then (s,running,false) else
    ({s with lock := s.lock ++ [.commit running.entry.id models]},
      {running with entry := {running.entry with state := .committing}},true)
  | .rollingBack => (s,{running with entry := {running.entry with state := .rollingBack}},true)
  | .reset => ({s with lock := s.lock ++ [.reset (.worker running.entry.id)]},running,true)

def answer (running : Running) (accepted : Bool) : Stage → Stage
  | .working (.switching models) => .working (if accepted then .confirming models else .unwinding .failed)
  | .working (.committing models) =>
    .working (if accepted then .landing models else
      if running.entry.state = .rollingBack then .unwinding .failed else .unwinding .cancelled)
  | .working (.unwinding outcome) => .working (.resetting outcome)
  | .working (.resetting outcome) => .working (.awaiting outcome)
  | .lost _ => .lost none
  | stage => stage

def arrive (s : Coordinator) (running : Running) : Option Coordinator :=
  running.stage.transit.map fun call =>
    let (s,after,accepted) := receive apps s running call
    {s with running := some {after with stage := answer running accepted running.stage}}

-- An exception of the worker's own. Inside `_apply` it is caught and rolled back,
-- behind it it ends the run.
def raises : WorkerPoint → Option WorkerPoint
  | .diffing | .applying _ _ | .switching _ | .confirming _ | .committing _ | .landing _ =>
    some (.unwinding .failed)
  | .retiring | .unwinding _ | .resetting _ | .awaiting _ | .restoring _ => some (.returned .failed)
  | .returned _ => none

-- The `reset_routing` call of a worker or rollback that is gone may still arrive.
def WorkerPoint.leftBehind : WorkerPoint → Nat
  | .resetting _ => 1
  | _ => 0

def Progress.leftBehind : Progress → Nat
  | .sent => 1
  | _ => 0

def finish (s : Coordinator) (running : Running) (outcome : Outcome) : Coordinator :=
  {s with running := none,outcomes := s.outcomes ++ [⟨running.entry,running.diff,outcome⟩]}

-- `_apply` notices that the worker is gone. A switch or commit it had on the way is
-- refused from here on.
def notice (s : Coordinator) (running : Running) (transit : Option Transit) : Coordinator :=
  let state := if running.entry.state = .committing ∨ running.entry.state = .retiring then running.entry.state
    else .rollingBack
  let (strays,late) := match transit with
    | some .reset => (s.strays + 1,false)
    | some .rollingBack => (s.strays,true)
    | _ => (s.strays,false)
  {s with strays,running := some {running with entry := {running.entry with state},stage := .rolling .sent late}}

def lostOutcome (entry : Entry) : Outcome :=
  if entry.state = .retiring then .succeeded else if entry.cancelled then .cancelled else .failed

-- A worker that waits for its `commit` goes on.
def Stage.told (after : WorkerPoint) : Stage → Stage
  | .working (.landing _) => .working after
  | stage => stage

-- The answer to a `commit` reaches its request, where that is still running.
def landed (ok : Bool) (id : String) (running : Running) : Running :=
  if running.entry.id != id then running else
  {running with
    entry := if ok then {running.entry with state := .retiring} else running.entry
    stage := running.stage.told (if ok then .retiring else .unwinding .failed)}

-- The answer to a `reset_routing`.
def restored (ok : Bool) (owner : Owner) (running : Running) : Running :=
  {running with
    restored := running.restored || ok
    stage := match running.stage with
      | .working (.awaiting outcome) =>
        if owner = .worker running.entry.id then .working (if ok then .restoring outcome else .returned .failed)
        else running.stage
      | .rolling .queued late => if owner = .rollback running.entry.id then .rolling .answered late else running.stage
      | stage => stage}

-- The holder of the version lock gets its answer from the store, or the store raises.
def serve (ok : Bool) (s : Coordinator) : Option Coordinator :=
  match s.lock with
  | [] => none
  | .commit id models :: rest =>
    let after := (commitVersion s.cell models).1
    let s := {s with lock := rest,running := s.running.map (landed ok id)}
    some (if ok then {s with cell := after,writes := s.writes ++ [⟨id,models,s.cell,after⟩]} else s)
  | .reset owner :: rest =>
    let recovery := if owner = .recovery ∧ s.recovery = .rolling .queued then .rolling .answered else s.recovery
    let s := {s with lock := rest,recovery,running := s.running.map (restored ok owner)}
    let committed := committedModels s.cell
    some (if ok ∧ s.routing.map Routing.models ≠ some committed then s.route apps committed else s)

-- `diffed`, `poll`, `proceed`, `confirm`, `retire` and `rolled` are the worker's own
-- steps; `raises` and `dies` may come at any of them.
inductive Action where
  | submit (id : String) (strategy : Strategy)
  | cancel (id : String)
  | recover
  | recoveryArrives
  | recovered
  | start
  | diffed (diff : Option Diff)
  | poll (ended : Bool)
  | proceed
  | confirm (switched : Bool)
  | retire
  | rolled
  | raises
  | dies
  | arrive
  | notice
  | rollbackArrives
  | lateArrives
  | rollbackOver
  | collect
  | strayArrives
  | serve (ok : Bool)
  | look
  | looked (index : Nat)

def stepWorker (running : Running) (point : WorkerPoint) : Action → Option Running
  | .diffed diff =>
    match point with
    | .diffing =>
      if running.entry.cancelled then some {running with stage := .working (.unwinding .cancelled)} else
      match diff with
      | none => some running
      | some diff =>
        some {running with stage := .working (.applying diff (phases running.entry.strategy diff)),diff := some diff}
    | _ => none
  | .poll ended =>
    match point with
    | .applying diff (phase :: rest) =>
      if running.entry.cancelled then some {running with stage := .working (.unwinding .cancelled)} else
      some {running with stage := .working (.applying diff (if ended then rest else phase :: rest))}
    | _ => none
  | .proceed =>
    match point with
    | .applying diff [] =>
      if diff.commits then
        match diff.models with
        | some models => some {running with stage := .working (.switching models)}
        | none => some {running with stage := .working (.unwinding .failed)}
      else some {running with stage := .working .retiring}
    | _ => none
  | .confirm switched =>
    match point with
    | .confirming models =>
      some {running with stage := .working (if switched then .committing models else .unwinding .failed)}
    | _ => none
  | .retire =>
    match point with
    | .retiring => some {running with stage := .working (.returned .succeeded)}
    | _ => none
  | .rolled =>
    match point with
    | .restoring outcome => some {running with stage := .working (.returned outcome)}
    | _ => none
  | .dies =>
    match point with
    | .returned _ => none
    | point => some {running with stage := .lost point.transit}
  | _ => none

def next (s : Coordinator) (action : Action) : Option Coordinator :=
  match action,s.running with
  | .submit id strategy,_ =>
    if id ∈ s.ids then none else some {s with queue := s.queue ++ [⟨id,strategy,.queued,false,false⟩]}
  | .cancel id,_ => some (cancel s id)
  | .recover,_ => if s.recovery = .waiting then some {s with recovery := .rolling .sent} else none
  | .recoveryArrives,_ =>
    if s.recovery = .rolling .sent then
      some {s with recovery := .rolling .queued,lock := s.lock ++ [.reset .recovery]}
    else none
  | .recovered,_ =>
    match s.recovery with
    | .waiting => some {s with recovery := .over}
    | .rolling reset => some {s with recovery := .over,strays := s.strays + reset.leftBehind}
    | .over => none
  | .start,none =>
    match s.recovery,s.queue with
    | .over,entry :: rest =>
      some {s with queue := rest,running := some ⟨{entry with state := .applying},.working .diffing,none,false⟩}
    | _,_ => none
  | .arrive,some running => arrive apps s running
  | .notice,some ⟨entry,.lost transit,diff,restored⟩ =>
    some (notice s ⟨entry,.lost transit,diff,restored⟩ transit)
  | .rollbackArrives,some ⟨entry,.rolling .sent late,diff,restored⟩ =>
    some {s with
      lock := s.lock ++ [.reset (.rollback entry.id)]
      running := some ⟨entry,.rolling .queued late,diff,restored⟩}
  | .lateArrives,some ⟨entry,.rolling reset true,diff,restored⟩ =>
    some {s with running := some ⟨{entry with state := .rollingBack},.rolling reset false,diff,restored⟩}
  | .rollbackOver,some ⟨entry,.rolling reset late,diff,restored⟩ =>
    some (finish {s with strays := s.strays + reset.leftBehind} ⟨entry,.rolling reset late,diff,restored⟩
      (lostOutcome entry))
  | .raises,some ⟨entry,.working point,diff,restored⟩ =>
    (raises point).map fun after =>
      {s with strays := s.strays + point.leftBehind,running := some ⟨entry,.working after,diff,restored⟩}
  | .collect,some ⟨entry,.working (.returned outcome),diff,restored⟩ =>
    some (finish s ⟨entry,.working (.returned outcome),diff,restored⟩ outcome)
  | .strayArrives,_ =>
    if s.strays = 0 then none else some {s with strays := s.strays - 1,lock := s.lock ++ [.reset .stray]}
  | .serve ok,_ => serve apps ok s
  | .look,_ => if s.routing.isSome then none else some {s with lookups := s.lookups ++ [committedModels s.cell]}
  | .looked index,_ =>
    match s.lookups[index]? with
    | none => none
    | some models =>
      let s := {s with lookups := s.lookups.eraseIdx index}
      some (if s.routing.isSome then {s with seq := s.seq + 1} else s.route apps models)
  | action,some ⟨entry,.working point,diff,restored⟩ =>
    (stepWorker ⟨entry,.working point,diff,restored⟩ point action).map fun running =>
      {s with running := some running}
  | _,_ => none

def start (cell : Json) (seq : Int) : Coordinator := ⟨cell,none,seq,.waiting,[],none,[],0,[],[],[],[]⟩

end

end Modelship.Deploy

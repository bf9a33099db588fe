import Mathlib.Logic.Function.Basic
import Modelship.Deploy.Coordinator

namespace Modelship.Deploy.Queue
open Foundation Function

-- Every gateway's queue, with the drain tasks that empty them. A request is the entry at
-- its place in the order of submission, whatever id it drew.

-- What `wait` answers of a request. A worker counts what it did, never zero of it.
structure Report where
  id : String
  state : Outcome
  reason : String
  actions : List (String × Nat)
  counted : ∀ action ∈ actions, action.2 ≠ 0

def outcome (id : String) (state : Outcome) (reason : String) : Report := ⟨id,state,reason,[],by simp⟩

-- `done` is the future's result, once it is set.
structure Entry where
  id : String
  gateway : String
  state : EntryState
  cancelled : Bool
  done : Option Report

-- Where a drain task is: not yet run; waiting for the recovery; at the head of its loop;
-- waiting for a request's worker; or for the rollback that follows the worker's loss.
inductive Point where
  | created
  | recovering
  | turning
  | applying (entry : Nat)
  | unwinding (entry : Nat)

def Point.entry : Point → Option Nat
  | .applying entry | .unwinding entry => some entry
  | _ => none

structure Drainer where
  gateway : String
  point : Point

inductive RecoveryTask where
  | absent
  | running
  | over
  deriving DecidableEq

-- `tasks` are the drain tasks that exist, by number, and `drainers` the coordinator's own
-- table of them. `commits` are the `commit` calls that wait for the store, `waits` the
-- `wait` calls. The last four only record what has happened: the requests each gateway
-- started, those cancelled while queued, every `set_result`, and the exceptions that no
-- handler expects.
structure Board where
  entries : List Entry
  requests : String → Option Nat
  queues : String → List Nat
  running : String → Option Nat
  drainers : String → Option Nat
  tasks : Nat → Option Drainer
  spawned : Nat
  recovery : RecoveryTask
  commits : List Nat
  waits : List (String × Nat)
  started : String → List Nat
  dropped : List Nat
  settled : List Nat
  faults : Nat

def Board.idOf (s : Board) (entry : Nat) : String := (s.entries[entry]?.map Entry.id).getD ""

def Board.edit (s : Board) (entry : Nat) (change : Entry → Entry) : Board :=
  {s with entries := s.entries.modify entry change}

def Board.fault (s : Board) : Board := {s with faults := s.faults + 1}

-- `set_result` raises on a finished future.
def Board.setResult (s : Board) (entry : Nat) (report : Report) : Option Board :=
  match s.entries[entry]? with
  | none => none
  | some held =>
    if held.done.isSome then none else
    some {s.edit entry (fun held => {held with done := some report}) with settled := s.settled ++ [entry]}

def Board.move (s : Board) (task : Nat) (gateway : String) (point : Point) : Board :=
  {s with tasks := update s.tasks task (some ⟨gateway,point⟩)}

-- The outer `finally` of `_drain`.
def Board.leave (s : Board) (task : Nat) (gateway : String) : Board :=
  {s with drainers := update s.drainers gateway none,tasks := update s.tasks task none}

def Board.spawn (s : Board) (gateway : String) : Board :=
  {s with
    drainers := update s.drainers gateway (some s.spawned)
    tasks := update s.tasks s.spawned (some ⟨gateway,.created⟩)
    spawned := s.spawned + 1}

structure Submitted where
  id : String
  behind : Option String

def submit (s : Board) (id gateway : String) : Board × Submitted :=
  let entry := s.entries.length
  let behind := match (s.queues gateway).getLast? with
    | some last => some (s.idOf last)
    | none => (s.running gateway).map s.idOf
  let t := {s with
    entries := s.entries ++ [⟨id,gateway,.queued,false,none⟩]
    requests := update s.requests id (some entry)
    queues := update s.queues gateway (s.queues gateway ++ [entry])}
  (if (s.drainers gateway).isSome then t else t.spawn gateway,⟨id,behind⟩)

structure Reply where
  cancelled : Bool
  message : String

def Board.lookup (s : Board) (id : String) : Option (Nat × Entry) :=
  (s.requests id).bind fun entry => s.entries[entry]?.map (entry,·)

-- `none` where the call raises.
def cancel (s : Board) (id : String) : Board × Option Reply :=
  match s.lookup id with
  | none => (s,some ⟨false,"no queued or running deploy " ++ id⟩)
  | some (entry,held) =>
    if held.done.isSome then (s,some ⟨false,"no queued or running deploy " ++ id⟩) else
    if held.state = .queued then
      if entry ∉ s.queues held.gateway then (s.fault,none) else
      let s := {s with
        queues := update s.queues held.gateway ((s.queues held.gateway).erase entry)
        dropped := s.dropped ++ [entry]}
      match s.setResult entry (outcome held.id .cancelled "cancelled before it started") with
      | none => (s.fault,none)
      | some s => (s,some ⟨true,"deploy " ++ id ++ " cancelled"⟩)
    else if held.state = .committing ∨ held.state = .retiring then
      (s,some ⟨false,"deploy " ++ id ++ " is already committed and can't be cancelled"⟩)
    else if held.state = .rollingBack ∧ held.cancelled = false then
      (s,some ⟨false,"deploy " ++ id ++ " failed and is already being rolled back"⟩)
    else
      (s.edit entry (fun held => {held with cancelled := true}),
        some ⟨true,"deploy " ++ id ++ " is being cancelled and rolled back"⟩)

-- The running entry of a gateway, where it has the id.
def Board.runs (s : Board) (id gateway : String) : Option (Nat × Entry) :=
  (s.running gateway).bind fun entry => s.entries[entry]?.bind fun held =>
    if held.id = id then some (entry,held) else none

def Board.mark (s : Board) (entry : Nat) (state : EntryState) : Board :=
  s.edit entry (fun held => {held with state})

def rollingBack (s : Board) (id gateway : String) : Board :=
  match s.runs id gateway with
  | none => s
  | some (entry,_) => s.mark entry .rollingBack

def switch (s : Board) (id gateway : String) : Board :=
  match s.runs id gateway with
  | none => s
  | some (entry,held) => if held.state = .rollingBack then s else s.mark entry .switching

-- Up to its wait for the store.
def commit (s : Board) (id gateway : String) : Board :=
  match s.runs id gateway with
  | none => s
  | some (entry,held) =>
    if held.state = .rollingBack ∨ held.cancelled then s else
    {s.mark entry .committing with commits := s.commits ++ [entry]}

-- The store answers a `commit` call, or raises. Its request may be over by then.
def committed (s : Board) (index : Nat) (ok : Bool) : Option Board :=
  s.commits[index]?.map fun entry =>
    let s := {s with commits := s.commits.eraseIdx index}
    if ok then s.mark entry .retiring else s

def wait (s : Board) (id : String) : Board :=
  match s.requests id with
  | none => s
  | some entry => {s with waits := s.waits ++ [(id,entry)]}

-- A `wait` call ends, answered or not: its `finally` forgets the request.
def waited (s : Board) (index : Nat) : Option Board :=
  s.waits[index]?.map fun (id,_) => {s with requests := update s.requests id none,waits := s.waits.eraseIdx index}

-- From `del self._running` to `set_result`. What raises here leaves the loop.
def finish (s : Board) (task : Nat) (gateway : String) (entry : Nat) (report : Report) : Board :=
  match s.running gateway with
  | none => (s.leave task gateway).fault
  | some _ =>
    let s := {s with running := update s.running gateway none}
    -- Ray's counters refuse to count by zero.
    if report.actions.any (·.2 = 0) then (s.leave task gateway).fault else
    match s.setResult entry report with
    | none => (s.leave task gateway).fault
    | some s => s.move task gateway .turning

-- The report of a request whose worker is lost, after the rollback.
def lostReport (held : Entry) (error : String) : Report :=
  if held.state = .retiring then outcome held.id .succeeded ""
  else if held.cancelled then outcome held.id .cancelled "cancelled"
  else outcome held.id .failed ("the deploy worker died: " ++ error)

-- What a drain task wakes up to: `raised` is any exception but the worker's loss, the
-- worker's own or one of creating it.
inductive Event where
  | begins
  | recovered
  | turns
  | returned (report : Report)
  | raised (error : String)
  | lost
  | unwound (error : String)

-- The loop has no await between two requests: to stop at its head as well only adds orders.
def drain (s : Board) (task : Nat) (event : Event) : Option Board :=
  match s.tasks task with
  | none => none
  | some ⟨gateway,point⟩ =>
    match point,event with
    | .created,.begins =>
      let s := {s with recovery := if s.recovery = RecoveryTask.absent then .running else s.recovery}
      some (s.move task gateway .recovering)
    | .recovering,.recovered => if s.recovery = .over then some (s.move task gateway .turning) else none
    | .turning,.turns =>
      match s.queues gateway with
      | [] => some (s.leave task gateway)
      | entry :: rest =>
        let s := {s.mark entry .applying with
          queues := update s.queues gateway rest
          running := update s.running gateway (some entry)
          started := update s.started gateway (s.started gateway ++ [entry])}
        some (s.move task gateway (.applying entry))
    | .applying entry,.returned report => some (finish s task gateway entry report)
    | .applying entry,.raised error => some (finish s task gateway entry (outcome (s.idOf entry) .failed error))
    | .applying entry,.lost =>
      let s := s.edit entry fun held =>
        if held.state = .committing ∨ held.state = .retiring then held else {held with state := .rollingBack}
      some (s.move task gateway (.unwinding entry))
    | .unwinding entry,.unwound error =>
      s.entries[entry]?.map fun held => finish s task gateway entry (lostReport held error)
    | .unwinding entry,.raised error => some (finish s task gateway entry (outcome (s.idOf entry) .failed error))
    | _,_ => none

inductive Action where
  | submit (id gateway : String)
  | cancel (id : String)
  | rollingBack (id gateway : String)
  | switch (id gateway : String)
  | commit (id gateway : String)
  | committed (index : Nat) (ok : Bool)
  | wait (id : String)
  | waited (index : Nat)
  | recoveryOver
  | drain (task : Nat) (event : Event)

def next (s : Board) : Action → Option Board
  | .submit id gateway => some (submit s id gateway).1
  | .cancel id => some (cancel s id).1
  | .rollingBack id gateway => some (rollingBack s id gateway)
  | .switch id gateway => some (switch s id gateway)
  | .commit id gateway => some (commit s id gateway)
  | .committed index ok => committed s index ok
  | .wait id => some (wait s id)
  | .waited index => waited s index
  | .recoveryOver => if s.recovery = .running then some {s with recovery := .over} else none
  | .drain task event => drain s task event

def start : Board :=
  ⟨[],fun _ => none,fun _ => [],fun _ => none,fun _ => none,fun _ => none,0,.absent,[],[],fun _ => [],[],[],0⟩

end Modelship.Deploy.Queue

import Modelship.OpenAI.BackgroundRecord

namespace Modelship.BackgroundRun
open Foundation State ResponsesState ConversationLog BackgroundRecord

def terminalEventTypes : List String := ["response.completed","response.incomplete"]
def terminalEventOrFailed : List String := terminalEventTypes ++ ["response.failed"]

def ofType (types : List String) (event : Json) : Bool :=
  match event.get "type" with
  | .str name => types.contains name
  | _ => false

-- Sequence numbers count from 0.
def sequenceNumber (event : Json) : Option Nat :=
  match event.get "sequence_number" with
  | .num (.ofNat number) => some number
  | _ => none

def appendStreamEvent (ttl : Option Int) (identity responseId : String) (event : Json) (now : Int) (s : Store) : Store :=
  match sequenceNumber event with
  | some number => (s.append (streamKey identity responseId) (number + 1) (.event event) ttl now).1
  | none => s

def asEvent : Value → Option Json
  | .event event => some event
  | _ => none

def readStreamEventsAfter (identity responseId : String) (after now : Int) (s : Store) : Store × List Json :=
  let (s,values) := s.readRange (streamKey identity responseId) (after + 2) none now
  (s,values.filterMap asEvent)

def discardStreamBuffer (identity responseId : String) (s : Store) : Store := s.delete (streamKey identity responseId)

def markFailed (response : Json) (message code : String) : Json :=
  (response.set "status" (.str "failed")).set "error" (.obj [("code",.str code),("message",.str message)])

-- The terminal event a reader missed, from the response's own final state.
-- There is none for `cancelled`.
def terminalEventFromResponse (response : Json) (after : Int) : Option Json :=
  let event (name : String) : Json :=
    .obj [("type",.str name),("sequence_number",.num (after + 1)),("response",response)]
  match response.get "status" with
  | .str "completed" => some (event "response.completed")
  | .str "incomplete" => some (event "response.incomplete")
  | .str "failed" => some (event "response.failed")
  | _ => none

-- The opening event a reader that has seen nothing missed.
def createdEvent (response : Json) : Json :=
  let opening := ((response.set "status" (.str "in_progress")).set "output" (.arr [])).set "usage" .null
  let opening := ((opening.set "incomplete_details" .null).set "error" .null).set "completed_at" .null
  .obj [("type",.str "response.created"),("sequence_number",.num 0),("response",opening)]

-- The `response.failed` event that replaces a terminal one whose response was not stored.
def storeFailureEvent (event : Json) (message : String) : Json :=
  .obj [("type",.str "response.failed"),
    ("sequence_number",(event.find? "sequence_number").getD (.num 0)),
    ("response",markFailed (event.get "response") message "server_error")]

-- What a drained stream leaves to be written: the error it stopped with, or the
-- response of its `response.failed` event.
inductive Failure where
  | error (message : String) (httpStatus : Nat)
  | response (response : Json)

-- Where `run_background` is. A `call` is a terminal write it waits for.
inductive RunPoint where
  | draining
  | persisting (event : Json) (call : Nat)
  | flushing (event : Json)
  | drained
  | failing (message : String) (httpStatus : Nat)
  | writing (call : Nat)
  | closing
  | finished

-- `pending` are the scheduled appends to the replay buffer, oldest first; `passed`
-- are all events that have reached it. `returned` is set where `persist_response`
-- has returned early and asks its generator for nothing more.
structure Run where
  requestId : String
  point : RunPoint
  started : Bool
  returned : Bool
  sawOkTerminal : Bool
  failed : Option Failure
  pending : List Json
  passed : List Json

inductive Call where
  | cancel (completedAt : Int)
  | reconcile

inductive CallPoint where
  | reading
  | writing (call : Nat)
  | discarding
  | finished

-- Where `tail_background_events` is. The three points after `reading` are those
-- of `reconcile_staleness` on the response it has read.
inductive ReaderPoint where
  | polling
  | yielding (events : List Json)
  | reading
  | writing (response : Json) (call : Nat)
  | discarding (response : Json)
  | rereading (response : Json)
  | announcing (response : Json)
  | finished

-- `cursor` is what the reader was started with, `after` what it has seen since.
structure Reader where
  cursor : Int
  after : Int
  point : ReaderPoint
  yielded : List Json

structure Streaming where
  base : Background
  run : Run
  signalled : Bool
  calls : List (Call × CallPoint)
  readers : List Reader

abbrev Streaming.store (s : Streaming) : Store := s.base.store

def withStore (s : Background) (store : Store) : Background := {s with others := {s.others with store}}

-- A new `write_terminal_if_not_terminal` call, and the index it gets.
def beginCall (s : Background) (response : Json) : Background := {s with writers := s.writers ++ [(response,.read)]}
def newCall (s : Background) : Nat := s.writers.length

def done (s : Background) (call : Nat) : Bool :=
  match s.writers[call]? with
  | some (_,.finished) => true
  | _ => false

-- `buffer_stream_events` on its way to `_drain_background_stream`.
def pass (event : Json) (run : Run) : Run :=
  {run with
    started := true
    pending := run.pending ++ [event]
    passed := run.passed ++ [event]
    point := if ofType terminalEventOrFailed event then .flushing event else .draining}

def note (event : Json) (run : Run) : Run :=
  if ofType terminalEventTypes event then {run with sawOkTerminal := true,point := .draining} else
  {run with
    failed := if event.get "response" = .null then none else some (.response (event.get "response"))
    point := .draining}

-- `persist_response`: a terminal event is stored first where it has a response id.
def takeItem (event : Json) (s : Streaming) : Streaming :=
  if ofType terminalEventTypes event && ((event.get "response").get "id").truthy then
    {s with base := beginCall s.base (event.get "response"),run := {s.run with point := .persisting event (newCall s.base)}}
  else {s with run := pass event s.run}

def serverError (requestId : String) : Failure :=
  .error ("The server had an error processing your request (request id: " ++ requestId ++ ").") 500

def writeFailed (response : Json) (message : String) (httpStatus : Nat) : Json :=
  markFailed response message (if httpStatus < 500 then "invalid_prompt" else "server_error")

-- One step of the run after its generator; `none` where it has to wait.
def advanceRun (identity target : String) (now : Int) (s : Streaming) : Option Streaming :=
  match s.run.point with
  | .draining | .finished => none
  | .persisting event call => if done s.base call then some {s with run := pass event s.run} else none
  | .flushing event =>
    if s.run.pending = [] then
      some {s with
        base := withStore s.base (discardStreamBuffer identity target s.store)
        run := note event s.run}
    else none
  | .drained =>
    match s.run.failed.orElse (fun _ => if s.run.sawOkTerminal then none else some (serverError s.run.requestId)) with
    | some (.error message httpStatus) => some {s with run := {s.run with point := .failing message httpStatus}}
    | some (.response response) =>
      some {s with base := beginCall s.base response,run := {s.run with point := .writing (newCall s.base)}}
    | none => some {s with run := {s.run with point := .closing}}
  | .failing message httpStatus =>
    match readAsync s.store identity target true now with
    | (store,none) => some {s with base := withStore s.base store,run := {s.run with point := .closing}}
    | (store,some record) =>
      some {s with
        base := beginCall (withStore s.base store) (writeFailed record.response message httpStatus)
        run := {s.run with point := .writing (newCall s.base)}}
  | .writing call => if done s.base call then some {s with run := {s.run with point := .closing}} else none
  | .closing =>
    if s.run.pending = [] then
      some {s with
        base := withStore s.base (discardStreamBuffer identity target s.store)
        run := {s.run with point := .finished}}
    else none

-- The drain task is cancelled. While it waits for its appends they go with it,
-- but for the store call already made.
def abandon (run : Run) : Option Run :=
  match run.point with
  | .draining | .persisting _ _ => some {run with point := .closing}
  | .flushing _ => some {run with point := .finished,pending := run.pending.take 1}
  | _ => none

def inProgress (response : Json) : Bool :=
  response.get "status" == .str "queued" || response.get "status" == .str "in_progress"

def orphaned (response : Json) : Json :=
  markFailed response "Background response orphaned: its worker stopped reporting progress." "server_error"

-- `cancel_background`, or the `reconcile_staleness` of a GET. Their last read of the
-- record only answers the caller.
def advanceCall (identity target : String) (stale : Bool) (now : Int) (s : Streaming) (call : Call) :
    CallPoint → Option (Streaming × CallPoint)
  | .reading =>
    match readAsync s.store identity target true now with
    | (store,none) => some ({s with base := withStore s.base store},.finished)
    | (store,some record) =>
      let response := record.response
      match call with
      | .cancel completedAt =>
        if !(response.get "background").truthy || isTerminal response then
          some ({s with base := withStore s.base store},.finished)
        else
          let cancelled := (response.set "status" (.str "cancelled")).set "completed_at" (.num completedAt)
          some ({s with base := beginCall (withStore s.base store) cancelled,signalled := true},.writing (newCall s.base))
      | .reconcile =>
        if inProgress response && stale then
          some ({s with base := beginCall (withStore s.base store) (orphaned response)},.writing (newCall s.base))
        else some ({s with base := withStore s.base store},.finished)
  | .writing write => if done s.base write then some (s,.discarding) else none
  | .discarding => some ({s with base := withStore s.base (discardStreamBuffer identity target s.store)},.finished)
  | .finished => none

def settle (reader : Reader) (response : Json) : Reader :=
  {reader with point := if isTerminal response then .announcing response else .polling}

-- One step of a reader: a store call, or one event given to its consumer.
def advanceReader (identity target : String) (stale : Bool) (now : Int) (s : Background) (reader : Reader) :
    Option (Background × Reader) :=
  match reader.point with
  | .polling =>
    match readStreamEventsAfter identity target reader.after now s.store with
    | (store,[]) => some (withStore s store,{reader with point := .reading})
    | (store,events) => some (withStore s store,{reader with point := .yielding events})
  | .yielding [] => some (s,{reader with point := .polling})
  | .yielding (event :: rest) =>
    let after : Int := match sequenceNumber event with
      | some number => number
      | none => reader.after
    let point : ReaderPoint :=
      if rest = [] then (if ofType terminalEventOrFailed event then .finished else .polling) else .yielding rest
    some (s,{reader with after,point,yielded := reader.yielded ++ [event]})
  | .reading =>
    match readAsync s.store identity target true now with
    | (store,none) => some (withStore s store,{reader with point := .finished})
    | (store,some record) =>
      if inProgress record.response && stale then
        some (beginCall (withStore s store) (orphaned record.response),
          {reader with point := .writing record.response (newCall s)})
      else some (withStore s store,settle reader record.response)
  | .writing response call => if done s call then some (s,{reader with point := .discarding response}) else none
  | .discarding response =>
    some (withStore s (discardStreamBuffer identity target s.store),{reader with point := .rereading response})
  | .rereading response =>
    match readAsync s.store identity target true now with
    | (store,none) => some (withStore s store,settle reader response)
    | (store,some record) => some (withStore s store,settle reader record.response)
  | .announcing response =>
    if reader.after < 0 then
      some (s,{reader with after := 0,yielded := reader.yielded ++ [createdEvent response]})
    else
      some (s,{reader with
        point := .finished
        yielded := reader.yielded ++ (terminalEventFromResponse response reader.after).toList})
  | .finished => none

-- The terminal status an event announces.
def announces (event : Json) : Option String :=
  match event.get "type" with
  | .str "response.completed" => some "completed"
  | .str "response.incomplete" => some "incomplete"
  | .str "response.failed" => some "failed"
  | _ => none

-- The generator was given the run's response id: its terminal events carry the
-- response under that id, in the status they announce.
def genuine (target : String) (event : Json) : Bool :=
  match announces event with
  | none => true
  | some status =>
    let response := event.get "response"
    response.get "id" == .str target && target != "" && response.get "status" == .str status

-- The store call under way raises `StateStoreUnavailableError`: the conditional write
-- of a terminal event, an append to the buffer, a discard of it, the run's own last
-- read or write, or one that a cancel, a GET or a reader waits for.
inductive Outage where
  | persisting
  | appending
  | discarding
  | writing
  | calling (index : Nat)
  | reading (index : Nat)

-- What each makes of it. An append is given up and a discard's error suppressed; the
-- other calls leave their function. A write that raised may have been made all the same.
def outage (s : Streaming) : Outage → Option Streaming
  | .persisting =>
    match s.run.point with
    | .persisting event _ =>
      let failure := storeFailureEvent event
        "Conversation state store is unavailable; the response was generated but not stored."
      some {s with run := {pass failure s.run with returned := true}}
    | _ => none
  | .appending =>
    match s.run.pending with
    | [] => none
    | _ :: rest => some {s with run := {s.run with pending := rest}}
  | .discarding =>
    match s.run.point,s.run.pending with
    | .flushing event,[] => some {s with run := note event s.run}
    | .closing,[] => some {s with run := {s.run with point := .finished}}
    | _,_ => none
  | .writing =>
    match s.run.point with
    | .failing _ _ | .writing _ => some {s with run := {s.run with point := .closing}}
    | _ => none
  | .calling index =>
    match s.calls[index]? with
    | none | some (_,.finished) => none
    | some (call,_) => some {s with calls := s.calls.set index (call,.finished)}
  | .reading index =>
    match s.readers[index]? with
    | none => none
    | some reader =>
      match reader.point with
      | .polling | .reading | .writing _ _ | .rereading _ =>
        some {s with readers := s.readers.set index {reader with point := .finished}}
      | .discarding response =>
        some {s with readers := s.readers.set index {reader with point := .rereading response}}
      | .yielding _ | .announcing _ | .finished => none

-- `drop` removes the replay buffer: its lifetime ran out, or it goes with the record.
inductive Move where
  | item (event : Json)
  | error (message : String) (httpStatus : Nat)
  | ends (error : Option (String × Nat))
  | undispatched
  | run (now : Int)
  | append (now : Int)
  | abandon
  | call (call : Call)
  | advance (index : Nat) (stale : Bool) (now : Int)
  | tail (after : Int)
  | read (index : Nat) (stale : Bool) (now : Int)
  | write (call : Nat) (now : Int)
  | other (action : Action)
  | delete
  | drop
  | outage (outage : Outage)

def move (identity target : String) (s : Streaming) : Move → Option Streaming
  | .item event =>
    match s.run.point with
    | .draining => if genuine target event && !s.run.returned then some (takeItem event s) else none
    | _ => none
  | .error message httpStatus =>
    match s.run.point with
    | .draining =>
      if s.run.returned then none
      else some {s with run := {s.run with started := true,failed := some (.error message httpStatus)}}
    | _ => none
  | .ends error =>
    match s.run.point with
    | .draining =>
      -- a validation error counts only where nothing has come before it
      let failed := match error with
        | some (message,httpStatus) => if s.run.started then s.run.failed else some (.error message httpStatus)
        | none => s.run.failed
      some {s with run := {s.run with point := .drained,failed}}
    | _ => none
  | .undispatched =>
    match s.run.point,s.run.started,serverError s.run.requestId with
    | .draining,false,.error message httpStatus =>
      some {s with run := {s.run with point := .failing message httpStatus}}
    | _,_,_ => none
  | .run now => advanceRun identity target now s
  | .append now =>
    match s.run.pending with
    | [] => none
    | event :: rest =>
      some {s with
        base := withStore s.base (appendStreamEvent none identity target event now s.store)
        run := {s.run with pending := rest}}
  | .abandon => if s.signalled then (abandon s.run).map fun run => {s with run} else none
  | .call call => some {s with calls := s.calls ++ [(call,.reading)]}
  | .advance index stale now =>
    match s.calls[index]? with
    | none => none
    | some (call,point) =>
      (advanceCall identity target stale now s call point).map fun (after,point) =>
        {after with calls := s.calls.set index (call,point)}
  | .tail after => some {s with readers := s.readers ++ [⟨after,after,.polling,[]⟩]}
  | .read index stale now =>
    match s.readers[index]? with
    | none => none
    | some reader =>
      (advanceReader identity target stale now s.base reader).map fun (base,reader) =>
        {s with base,readers := s.readers.set index reader}
  | .write call now => (step identity target s.base (.advance call now)).map fun base => {s with base}
  | .other action => (step identity target s.base (.other action)).map fun base => {s with base}
  | .delete => (step identity target s.base .delete).map fun base => {s with base,signalled := true}
  | .drop => some {s with base := withStore s.base (discardStreamBuffer identity target s.store)}
  | .outage failed => outage s failed

-- `start_background` has written the placeholder and the run's task begins.
def streaming (requestId : String) (base : Background) : Streaming :=
  ⟨base,⟨requestId,.draining,false,false,false,none,[],[]⟩,false,[],[]⟩

variable {identity target : String} {parent : Option Position} {input : List Json} {allowed : Json → Prop}

-- A change of nothing but replay buffers.
structure StreamOnly (identity : String) (s t : Store) : Prop where
  timeless : t.Timeless
  logs : ∀ log, logsOf identity t log = logsOf identity s log
  records : ∀ responseId, t.cells (key identity responseId) = s.cells (key identity responseId)

theorem StreamOnly.refl {s : Store} (timeless : s.Timeless) : StreamOnly identity s s :=
  ⟨timeless,fun _ => rfl,fun _ => rfl⟩

theorem StreamOnly.moves {s t : Store} (only : StreamOnly identity s t) (target : String) :
    Moves identity target s t := .frame only.logs (.inl (only.records target))

theorem StreamOnly.valid {s : Background} {t : Store} (only : StreamOnly identity s.store t)
    (valid : Valid identity target parent input allowed s) :
    Valid identity target parent input allowed (withStore s t) := by
  refine ⟨valid.safe.frame only.timeless only.logs (.inl (only.records target)),valid.others.foreign,?_,?_⟩
  · intro written member going origin continued
    simp only [withStore,only.logs]
    exact valid.others.parent written member going origin continued
  · intro responseId position found
    simp only [withStore,only.logs]
    obtain ⟨response,held⟩ := storedAt_iff.mp found
    simp only [withStore,only.records] at held
    exact valid.others.stored responseId position (storedAt_iff.mpr ⟨response,held⟩)

theorem discard_only {s : Store} (timeless : s.Timeless) (identity target : String) :
    StreamOnly identity s (discardStreamBuffer identity target s) ∧
      (discardStreamBuffer identity target s).logAt (streamKey identity target) = [] := by
  obtain ⟨kept,cells⟩ := MemoryStoreActor.delete_timeless timeless (streamKey identity target)
  refine ⟨⟨kept,?_,?_⟩,?_⟩
  · intro log
    exact logsOf_congr (by simp [discardStreamBuffer,cells])
  · intro responseId
    simp [discardStreamBuffer,cells]
  · simp [discardStreamBuffer,MemoryStoreActor.logAt,cells]

-- An append adds its event at the position its number gives, unless that is taken.
theorem append_only {s : Store} (timeless : s.Timeless) (identity target : String) (event : Json) (now : Int) :
    StreamOnly identity s (appendStreamEvent none identity target event now s) ∧
      (appendStreamEvent none identity target event now s).logAt (streamKey identity target) =
        match sequenceNumber event with
        | some number =>
          if MemoryStoreActor.taken (s.logAt (streamKey identity target)) (number + 1) then
            s.logAt (streamKey identity target)
          else s.logAt (streamKey identity target) ++ [(number + 1,.event event)]
        | none => s.logAt (streamKey identity target) := by
  unfold appendStreamEvent
  cases numbered : sequenceNumber event with
  | none => exact ⟨.refl timeless,rfl⟩
  | some number =>
      dsimp only
      cases busy : MemoryStoreActor.taken (s.logAt (streamKey identity target)) (number + 1) with
      | true =>
          rw [MemoryStoreActor.append_refused timeless busy]
          exact ⟨.refl timeless,rfl⟩
      | false =>
          obtain ⟨t,stored,kept,cells⟩ := MemoryStoreActor.append_accepted timeless busy (.event event) now
          rw [stored]
          refine ⟨⟨kept,?_,?_⟩,?_⟩
          · intro log
            exact logsOf_congr (by simp [cells])
          · intro responseId
            simp [cells]
          · simp [MemoryStoreActor.logAt,cells]

theorem readStream_timeless {s : Store} (timeless : s.Timeless) (identity target : String) (after now : Int) :
    readStreamEventsAfter identity target after now s =
      (s,((((s.logAt (streamKey identity target)).filter
        (fun entry => MemoryStoreActor.inRange (after + 2) none entry.1)).map Prod.snd).filterMap asEvent)) := by
  simp [readStreamEventsAfter,MemoryStoreActor.readRange_timeless timeless]

-- What reading the response's record gives: the store as it is, and a response in
-- the status of the record held.
theorem readAsync_timeless {s : Store} (timeless : s.Timeless) (identity target : String) (now : Int) :
    ∃ found, readAsync s identity target true now = (s,found) ∧ ∀ record, found = some record →
      (∃ response position, s.cells (key identity target) = some (.value (.record (.stored response position))) ∧
        record.response.get "status" = response.get "status") ∨
      ∃ response parent input, s.cells (key identity target) =
        some (.value (.record (.background response parent input))) ∧ record.response = response := by
  unfold readAsync
  rw [readRecord_timeless timeless]
  split
  · rename_i after response position shown
    obtain ⟨rfl,held⟩ := Prod.mk.inj shown
    split at held
    · rename_i record cell
      cases held
      simp only [MemoryStoreActor.readRange_timeless timeless,if_pos]
      split
      · exact ⟨none,rfl,fun record missing => by cases missing⟩
      · refine ⟨_,rfl,?_⟩
        rintro record ⟨⟩
        exact .inl ⟨response,position,cell,by simp [Record.response]⟩
    · cases held
  · rename_i other
    refine ⟨_,rfl,?_⟩
    intro record found
    split at found
    · rename_i held cell
      cases found
      cases record with
      | stored response position => exact absurd (by simp [cell]) (other s response position)
      | background response parent input => exact .inr ⟨response,parent,input,cell,rfl⟩
    · cases found

theorem beginCall_valid {s : Background} (valid : Valid identity target parent input allowed s) (given : allowed response) :
    Valid identity target parent input allowed (beginCall s response) := by
  have added : step identity target s (.terminal response) = some (beginCall s response) := rfl
  exact (step_valid valid (fun other same => by cases same; exact given) added).1

@[simp] theorem beginCall_store (s : Background) (response : Json) : (beginCall s response).store = s.store := rfl
@[simp] theorem withStore_store (s : Background) (t : Store) : (withStore s t).store = t := rfl

theorem beginCall_writers {s : Background} {call : Nat} (response : Json) (held : s.writers[call]? = some entry) :
    (beginCall s response).writers[call]? = some entry := by
  rw [beginCall,List.getElem?_append_left (List.getElem?_eq_some_iff.mp held).1]
  exact held

theorem announces_terminal (event : Json) :
    ofType terminalEventOrFailed event = true ↔ ∃ status, announces event = some status := by
  unfold ofType announces terminalEventOrFailed terminalEventTypes
  split
  · rename_i name shown
    constructor
    · intro listed
      have among : name = "response.completed" ∨ name = "response.incomplete" ∨ name = "response.failed" := by
        simpa using listed
      rcases among with rfl | rfl | rfl <;> rw [shown] <;> exact ⟨_,rfl⟩
    · rintro ⟨status,named⟩
      split at named <;> simp_all
  · rename_i other
    constructor
    · intro impossible; cases impossible
    · rintro ⟨status,named⟩
      split at named <;> simp_all

theorem announces_ok (event : Json) (listed : ofType terminalEventTypes event = true) :
    announces event = some "completed" ∨ announces event = some "incomplete" := by
  unfold ofType terminalEventTypes at listed
  split at listed
  · rename_i name shown
    have among : name = "response.completed" ∨ name = "response.incomplete" := by simpa using listed
    rcases among with rfl | rfl
    · exact .inl (by simp [announces,shown])
    · exact .inr (by simp [announces,shown])
  · cases listed

theorem announces_failed (event : Json) (ended : announces event = some status)
    (unlisted : ofType terminalEventTypes event = false) : status = "failed" := by
  unfold announces at ended
  unfold ofType terminalEventTypes at unlisted
  split at ended <;> simp_all

theorem announces_status (event : Json) (ended : announces event = some status) : terminalStatuses.contains status = true := by
  unfold announces at ended
  split at ended <;> cases ended <;> decide

theorem next_stream {s t : Conversations} (timeless : s.store.Timeless) {action : Action}
    (stepped : next identity s action = some t) (target : String) :
    t.store.cells (streamKey identity target) = s.store.cells (streamKey identity target) := by
  cases next_enacts stepped with
  | write responseId response previous given uuids parent fresh link => rfl
  | advance written now present unfinished =>
      rcases storeTurn_effect timeless identity now written.turn (s.points written.id) with kept | ⟨_,_,wrote,_⟩
      · exact congrArg (fun u : Store => u.cells (streamKey identity target)) kept
      · exact wrote.stream target

theorem launched_stream {base : Conversations} {clock sweepInterval : Int} {earlier : List Action}
    (reached : execute (next identity) (start clock sweepInterval) earlier = some base) (now : Int)
    (uuids : Nat → String) (placeholder : Json) (parent : Option Position) (input : List Json) :
    (launched identity target now uuids placeholder parent input base).store.logAt (streamKey identity target) = [] := by
  have kept : ∀ s action t, Invariant identity s ∧ s.store.cells (streamKey identity target) = none →
      next identity s action = some t → Invariant identity t ∧ t.store.cells (streamKey identity target) = none := by
    rintro s action t ⟨valid,empty⟩ stepped
    exact ⟨next_valid valid stepped,(next_stream valid.timeless stepped target).trans empty⟩
  have final := execute_invariant kept ⟨start_valid identity clock sweepInterval,by simp [start]⟩ reached
  have cell := (MemoryStoreActor.set_timeless final.1.timeless (key identity target)
    (.record (.background placeholder parent (withIds uuids input))) now).2 (streamKey identity target)
  simp only [final.2,key_ne_streamKey,if_false] at cell
  simp only [MemoryStoreActor.logAt,launched,Background.store,writeBackground,cell]

-- The steps of the record's own machine leave the replay buffer alone.
theorem step_stream {s t : Background} (valid : Valid identity target parent input allowed s) {taken : Step}
    (stepped : step identity target s taken = some t) :
    t.store.logAt (streamKey identity target) = s.store.logAt (streamKey identity target) := by
  have same : ∀ {u : Store}, u.cells (streamKey identity target) = s.store.cells (streamKey identity target) →
      u.logAt (streamKey identity target) = s.store.logAt (streamKey identity target) := by
    intro u cell
    simp only [MemoryStoreActor.logAt,cell]
  cases step_took stepped with
  | terminal response => rfl
  | delete =>
      refine same (((MemoryStoreActor.delete_timeless valid.safe.timeless _).2 _).trans ?_)
      simp
  | advance call now response point found =>
      refine same ?_
      rcases terminal_effect valid.safe.timeless identity target now response point with kept | ⟨_,_,_,wrote⟩
      · exact congrArg (fun u : Store => u.cells (streamKey identity target)) kept
      · exact wrote.stream target
  | other action after foreign moved => exact same (next_stream valid.safe.timeless moved target)

end Modelship.BackgroundRun

import Modelship.OpenAI.BackgroundRun

namespace Modelship.BackgroundReport
open Foundation State ResponsesState ConversationLog BackgroundRecord BackgroundRun

section
variable (identity target : String)

-- The record has ended in this status, or is deleted.
def Told (s : Store) (status : String) : Prop :=
  s.cells (key identity target) = none ∨
  ∃ given position, s.cells (key identity target) = some (Ended given position) ∧ given.get "status" = .str status

def Backed (s : Store) (event : Json) : Prop := ∀ status, announces event = some status → Told identity target s status

-- The run waits for the write of a terminal event; once that has ended, so has the record.
def Persisting (s : Background) (event : Json) (call : Nat) : Prop :=
  ∃ status point, announces event = some status ∧ status ≠ "failed" ∧
    (event.get "response").get "status" = .str status ∧ s.writers[call]? = some (event.get "response",point) ∧
    (point = .finished → Told identity target s.store status)

def Settled (s : Store) : ReaderPoint → Prop
  | .yielding events => ∀ event ∈ events, Backed identity target s event
  | .announcing response => ∀ status, response.get "status" = .str status → Told identity target s status
  | .writing response _ | .discarding response | .rereading response => isTerminal response = false
  | .polling | .reading | .finished => True

structure Honest (parent : Option Position) (input : List Json) (s : Streaming) : Prop where
  valid : Valid identity target parent input (fun response => isTerminal response = true) s.base
  unended : ∀ placeholder origin given, s.store.cells (key identity target) =
    some (.value (.record (.background placeholder origin given))) → isTerminal placeholder = false
  buffered : ∀ position value, (position,value) ∈ s.store.logAt (streamKey identity target) →
    ∃ event, value = .event event ∧ Backed identity target s.store event
  pending : ∀ event ∈ s.run.pending, Backed identity target s.store event
  persisting : ∀ event call, s.run.point = .persisting event call → Persisting identity target s.base event call
  flushing : ∀ event, s.run.point = .flushing event → ofType terminalEventTypes event = true
  failed : ∀ response, s.run.failed ≠ some (.response response)
  yielded : ∀ reader ∈ s.readers, ∀ event ∈ reader.yielded, Backed identity target s.store event
  settled : ∀ reader ∈ s.readers, Settled identity target s.store reader.point

-- Whether the record is already in a terminal status.
def recordOver (s : Store) : Bool :=
  match recordAt identity s target with
  | some record => isTerminal record.response
  | none => false

-- No `response.failed` event comes out of the generator, the store takes the write of
-- a terminal event's response, and nothing else has ended the record at that write.
def undisputed (s : Streaming) : Move → Bool
  | .item event => announces event != some "failed"
  | .write call _ =>
    match s.run.point with
    | .persisting _ waiting => waiting != call || !recordOver identity target s.store
    | _ => true
  | .outage .persisting => false
  | _ => true

end

variable {identity target : String} {parent : Option Position} {input : List Json}

theorem Told.later {s t : Store} (moves : Moves identity target s t) (told : Told identity target s status) :
    Told identity target t status := by
  rcases told with gone | ⟨given,position,held,same⟩
  · exact .inl (moves.gone gone)
  · exact (moves.stays given position held).symm.imp id (fun still => ⟨given,position,still,same⟩)

theorem Backed.later {s t : Store} (moves : Moves identity target s t) (backed : Backed identity target s event) :
    Backed identity target t event := fun status named => (backed status named).later moves

theorem Settled.later {s t : Store} (moves : Moves identity target s t) (settled : Settled identity target s point) :
    Settled identity target t point := by
  cases point with
  | yielding events => exact fun event present => (settled event present).later moves
  | announcing response => exact fun status same => (settled status same).later moves
  | polling => trivial
  | reading => trivial
  | finished => trivial
  | writing response call => exact settled
  | discarding response => exact settled
  | rereading response => exact settled

theorem Persisting.later {s t : Background} (moves : Moves identity target s.store t.store)
    (kept : ∀ (call : Nat) entry, s.writers[call]? = some entry → t.writers[call]? = some entry)
    (persisting : Persisting identity target s event call) : Persisting identity target t event call := by
  obtain ⟨status,point,named,ok,same,held,ended⟩ := persisting
  exact ⟨status,point,named,ok,same,kept call _ held,fun finished => (ended finished).later moves⟩

-- A store change that leaves the machine's other parts alone.
theorem Honest.later {s : Streaming} {base : Background} (honest : Honest identity target parent input s)
    (valid : Valid identity target parent input (fun response => isTerminal response = true) base)
    (moves : Moves identity target s.store base.store)
    (stream : ∀ entry ∈ base.store.logAt (streamKey identity target), entry ∈ s.store.logAt (streamKey identity target))
    (persisting : ∀ event call, s.run.point = .persisting event call → Persisting identity target base event call) :
    Honest identity target parent input {s with base} := by
  refine ⟨valid,?_,?_,?_,persisting,honest.flushing,honest.failed,?_,?_⟩
  · intro placeholder origin given held
    exact honest.unended placeholder origin given (moves.waits placeholder origin given held)
  · intro position value present
    obtain ⟨event,same,backed⟩ := honest.buffered position value (stream _ present)
    exact ⟨event,same,backed.later moves⟩
  · intro event present; exact (honest.pending event present).later moves
  · intro reader member event present; exact (honest.yielded reader member event present).later moves
  · intro reader member; exact (honest.settled reader member).later moves

-- The record's own machine made a step that kept the calls in flight.
theorem Honest.stepped {s : Streaming} {base : Background} (honest : Honest identity target parent input s)
    {taken : Step} (stepped : step identity target s.base taken = some base)
    (genuine : ∀ response, taken = .terminal response → isTerminal response = true)
    (kept : ∀ (call : Nat) entry, s.base.writers[call]? = some entry → base.writers[call]? = some entry) :
    Honest identity target parent input {s with base} := by
  obtain ⟨valid,moves⟩ := step_valid honest.valid genuine stepped
  refine honest.later valid moves ?_ (fun event call point => Persisting.later moves kept (honest.persisting event call point))
  intro entry present
  rwa [step_stream honest.valid stepped] at present

theorem Honest.begins {s : Streaming} (honest : Honest identity target parent input s)
    (ended : isTerminal response = true) :
    Honest identity target parent input {s with base := beginCall s.base response} := by
  have stepped : step identity target s.base (.terminal response) = some (beginCall s.base response) := rfl
  refine honest.stepped stepped ?_ (fun _ _ held => beginCall_writers response held)
  intro other same
  cases same
  exact ended

theorem Honest.streams {s : Streaming} (honest : Honest identity target parent input s) {t : Store}
    (only : StreamOnly identity s.store t)
    (stream : ∀ entry ∈ t.logAt (streamKey identity target), entry ∈ s.store.logAt (streamKey identity target)) :
    Honest identity target parent input {s with base := withStore s.base t} :=
  honest.later (only.valid honest.valid) (only.moves target) stream
    (fun event call point => Persisting.later (only.moves target) (fun _ _ held => held) (honest.persisting event call point))

theorem Honest.discards {s : Streaming} (honest : Honest identity target parent input s) :
    Honest identity target parent input
      {s with base := withStore s.base (discardStreamBuffer identity target s.store)} := by
  obtain ⟨only,empty⟩ := discard_only honest.valid.safe.timeless identity target
  refine honest.streams only ?_
  intro entry present
  rw [empty] at present
  cases present

theorem Honest.passes {s : Streaming} (honest : Honest identity target parent input s) {event : Json}
    (backed : Backed identity target s.store event) (lasting : announces event ≠ some "failed") :
    Honest identity target parent input {s with run := BackgroundRun.pass event s.run} := by
  refine ⟨honest.valid,honest.unended,honest.buffered,?_,?_,?_,honest.failed,honest.yielded,honest.settled⟩
  · intro other present
    rcases List.mem_append.mp present with old | new
    · exact honest.pending other old
    · rw [List.mem_singleton.mp new]; exact backed
  · intro other call point
    simp only [BackgroundRun.pass] at point
    split at point <;> cases point
  · intro other point
    simp only [BackgroundRun.pass] at point
    split at point
    · rename_i ended
      cases point
      obtain ⟨status,named⟩ := (announces_terminal event).mp ended
      cases listed : ofType terminalEventTypes event with
      | true => rfl
      | false => exact absurd (announces_failed event named listed ▸ named) lasting
    · cases point

theorem genuine_parts {event : Json} (accepted : genuine target event = true) (named : announces event = some status) :
    (event.get "response").get "id" = .str target ∧ target ≠ "" ∧ (event.get "response").get "status" = .str status := by
  simp only [genuine,named,Bool.and_eq_true,beq_iff_eq,bne_iff_ne] at accepted
  exact ⟨accepted.1.1,accepted.1.2,accepted.2⟩

theorem Honest.takes {s : Streaming} (honest : Honest identity target parent input s) {event : Json}
    (accepted : genuine target event = true) (lasting : announces event ≠ some "failed") :
    Honest identity target parent input (takeItem event s) := by
  unfold takeItem
  split
  · rename_i stored
    have listed : ofType terminalEventTypes event = true := by
      simp only [Bool.and_eq_true] at stored
      exact stored.1
    obtain ⟨status,named⟩ : ∃ status, announces event = some status :=
      (announces_ok event listed).elim (fun one => ⟨_,one⟩) (fun two => ⟨_,two⟩)
    obtain ⟨_,_,same⟩ := genuine_parts accepted named
    have ended : isTerminal (event.get "response") = true := by
      simp only [isTerminal,same]
      exact announces_status event named
    have begun := honest.begins ended
    refine {begun with persisting := ?_,flushing := ?_}
    · rintro other call ⟨⟩
      refine ⟨status,.read,named,?_,same,by simp [beginCall,newCall],fun stops => by cases stops⟩
      rintro rfl
      exact lasting named
    · intro other point; cases point
  · rename_i unstored
    refine honest.passes ?_ lasting
    intro status named
    obtain ⟨name,nonempty,_⟩ := genuine_parts accepted named
    cases listed : ofType terminalEventTypes event with
    | true => exact absurd (by simp [listed,name,Json.truthy,nonempty]) unstored
    | false => exact absurd (announces_failed event named listed ▸ named) lasting

-- Reading the record changes nothing; a terminal status that is read is the record's.
theorem Honest.reads {s : Streaming} (honest : Honest identity target parent input s) (now : Int) :
    ∃ found, readAsync s.store identity target true now = (s.store,found) ∧ ∀ record, found = some record →
      isTerminal record.response = true → ∀ status, record.response.get "status" = .str status →
      Told identity target s.store status := by
  obtain ⟨found,read,shape⟩ := readAsync_timeless honest.valid.safe.timeless identity target now
  refine ⟨found,read,?_⟩
  intro record shown ended status same
  rcases shape record shown with ⟨response,position,held,equal⟩ | ⟨response,origin,given,held,rfl⟩
  · cases honest.valid.safe.phase with
    | waiting _ other => rw [held] at other; cases other
    | ended given place _ other _ =>
        have stored := held.symm.trans other
        cases stored
        refine .inr ⟨given,position,other,?_⟩
        rw [← same,equal]
        simp
    | deleted other => rw [held] at other; cases other
  · rw [honest.unended _ origin given held] at ended
    cases ended

theorem terminal_failed (response : Json) (message code : String) :
    isTerminal (markFailed response message code) = true := by
  simp [isTerminal,markFailed,terminalStatuses]

-- Where the run waits for no terminal event.
def Quiet : RunPoint → Prop
  | .persisting _ _ | .flushing _ => False
  | _ => True

theorem Quiet.persisting {point : RunPoint} (quiet : Quiet point) (event : Json) (call : Nat) : point ≠ .persisting event call := by
  intro same
  subst same
  exact quiet

theorem Quiet.flushing {point : RunPoint} (quiet : Quiet point) (event : Json) : point ≠ .flushing event := by
  intro same
  subst same
  exact quiet

theorem Honest.rerun {s : Streaming} (honest : Honest identity target parent input s) {run : Run}
    (pending : ∀ event ∈ run.pending, event ∈ s.run.pending)
    (failed : ∀ response, run.failed ≠ some (.response response)) (quiet : Quiet run.point) :
    Honest identity target parent input {s with run} :=
  {honest with
    pending := fun event present => honest.pending event (pending event present)
    persisting := fun event call point => absurd point (quiet.persisting event call)
    flushing := fun event point => absurd point (quiet.flushing event)
    failed := failed}

theorem Honest.runs {s t : Streaming} (honest : Honest identity target parent input s) {now : Int}
    (moved : advanceRun identity target now s = some t) : Honest identity target parent input t := by
  have same : ∀ event ∈ s.run.pending, event ∈ s.run.pending := fun _ present => present
  unfold advanceRun at moved
  split at moved
  · cases moved
  · cases moved
  · rename_i event call point
    split at moved
    · rename_i ended
      cases moved
      obtain ⟨status,write,named,ok,_,held,told⟩ := honest.persisting event call point
      have finished : write = .finished := by
        unfold done at ended
        rw [held] at ended
        cases write <;> simp_all
      refine honest.passes ?_ (fun failed => ok (Option.some.inj (named.symm.trans failed)))
      intro other also
      rw [named] at also
      cases also
      exact told finished
    · cases moved
  · rename_i event point
    split at moved
    · cases moved
      rw [note,if_pos (honest.flushing event point)]
      exact honest.discards.rerun same honest.failed trivial
    · cases moved
  · split at moved
    · cases moved
      exact honest.rerun same honest.failed trivial
    · rename_i response left
      exfalso
      cases failed : s.run.failed with
      | some failure =>
          simp only [failed,Option.orElse_some,Option.some.injEq] at left
          exact honest.failed response (left ▸ failed)
      | none =>
          simp only [failed,Option.orElse_none] at left
          split at left <;> cases left
    · cases moved
      exact honest.rerun same honest.failed trivial
  · obtain ⟨found,read,_⟩ := honest.reads now
    rw [read] at moved
    split at moved
    · rename_i store shown
      cases shown
      cases moved
      exact honest.rerun same honest.failed trivial
    · rename_i store record shown
      cases shown
      cases moved
      refine (honest.begins (terminal_failed record.response _ _)).rerun same honest.failed
        trivial
  · split at moved
    · cases moved
      exact honest.rerun same honest.failed trivial
    · cases moved
  · split at moved
    · cases moved
      exact honest.discards.rerun same honest.failed trivial
    · cases moved

theorem Honest.calls {s t : Streaming} (honest : Honest identity target parent input s) {stale : Bool} {now : Int}
    {call : Call} {point after : CallPoint}
    (moved : advanceCall identity target stale now s call point = some (t,after)) :
    Honest identity target parent input t := by
  cases point with
  | finished => cases moved
  | writing write =>
      simp only [advanceCall] at moved
      split at moved <;> cases moved
      exact honest
  | discarding => cases moved; exact honest.discards
  | reading =>
      obtain ⟨found,read,_⟩ := honest.reads now
      simp only [advanceCall,read] at moved
      cases found with
      | none => cases moved; exact honest
      | some record =>
          cases call with
          | cancel completedAt =>
              simp only at moved
              split at moved
              · cases moved; exact honest
              · cases moved
                have ended : isTerminal ((record.response.set "status" (.str "cancelled")).set "completed_at"
                    (.num completedAt)) = true := by simp [isTerminal,terminalStatuses]
                exact {honest.begins ended with}
          | reconcile =>
              simp only at moved
              split at moved
              · cases moved; exact honest.begins (terminal_failed record.response _ _)
              · cases moved; exact honest

theorem Honest.reread {s : Streaming} (honest : Honest identity target parent input s) (index : Nat) {reader : Reader}
    (yielded : ∀ event ∈ reader.yielded, Backed identity target s.store event)
    (settled : Settled identity target s.store reader.point) :
    Honest identity target parent input {s with readers := s.readers.set index reader} := by
  refine {honest with yielded := ?_,settled := ?_}
  · intro other member
    rcases List.mem_or_eq_of_mem_set member with old | rfl
    · exact honest.yielded other old
    · exact yielded
  · intro other member
    rcases List.mem_or_eq_of_mem_set member with old | rfl
    · exact honest.settled other old
    · exact settled

theorem inProgress_open {response : Json} (going : inProgress response = true) : isTerminal response = false := by
  simp only [inProgress,Bool.or_eq_true,beq_iff_eq] at going
  rcases going with same | same <;> simp [isTerminal,same,terminalStatuses]

theorem settle_settled {s : Store} {reader : Reader} {response : Json}
    (told : isTerminal response = true → ∀ status, response.get "status" = .str status → Told identity target s status) :
    Settled identity target s (settle reader response).point := by
  unfold settle
  dsimp only
  split
  · rename_i ended; exact told ended
  · trivial

-- A synthesized event announces the status of the response it is made from.
theorem terminalEvent_backed {s : Store} {response event : Json} {after : Int}
    (told : ∀ status, response.get "status" = .str status → Told identity target s status)
    (made : event ∈ (terminalEventFromResponse response after).toList) : Backed identity target s event := by
  intro status named
  refine told status ?_
  unfold terminalEventFromResponse at made
  split at made
  all_goals simp only [Option.toList_some,Option.toList_none,List.mem_singleton,List.not_mem_nil] at made
  all_goals
    subst made
    cases named
    assumption

theorem created_backed {s : Store} (response : Json) : Backed identity target s (createdEvent response) := by
  intro status named
  cases named

theorem Honest.tails {s : Streaming} (honest : Honest identity target parent input s) {stale : Bool} {now : Int}
    {index : Nat} {reader after : Reader} {base : Background} (found : s.readers[index]? = some reader)
    (moved : advanceReader identity target stale now s.base reader = some (base,after)) :
    Honest identity target parent input {s with base,readers := s.readers.set index after} := by
  have member := List.mem_of_getElem? found
  have yielded := honest.yielded reader member
  have settled := honest.settled reader member
  obtain ⟨record?,read,told⟩ := honest.reads now
  unfold advanceReader at moved
  split at moved
  · rw [readStream_timeless honest.valid.safe.timeless] at moved
    split at moved
    · rename_i store shown
      cases moved
      obtain ⟨rfl,_⟩ := Prod.mk.inj shown
      exact honest.reread index yielded trivial
    · rename_i store events shown
      cases moved
      cases shown
      refine honest.reread index yielded ?_
      intro event present
      obtain ⟨value,kept,same⟩ := List.mem_filterMap.mp present
      obtain ⟨⟨position,value⟩,inside,rfl⟩ := List.mem_map.mp kept
      obtain ⟨other,rfl,backed⟩ := honest.buffered position value (List.mem_filter.mp inside).1
      cases same
      exact backed
  · cases moved
    exact honest.reread index yielded trivial
  · rename_i event rest point
    rw [point] at settled
    cases moved
    refine honest.reread index ?_ ?_
    · intro other present
      rcases List.mem_append.mp present with old | new
      · exact yielded other old
      · rw [List.mem_singleton.mp new]; exact settled event List.mem_cons_self
    · dsimp only
      split
      · split <;> trivial
      · exact fun other present => settled other (List.mem_cons_of_mem _ present)
  · rw [read] at moved
    split at moved
    · rename_i store shown
      cases shown
      cases moved
      exact honest.reread index yielded trivial
    · rename_i store record shown
      cases shown
      split at moved
      · rename_i stale
        cases moved
        have going : inProgress record.response = true := by
          simp only [Bool.and_eq_true] at stale
          exact stale.1
        exact (honest.begins (terminal_failed record.response _ _)).reread index yielded (inProgress_open going)
      · cases moved
        exact honest.reread index yielded (settle_settled (told record rfl))
  · rename_i response call point
    rw [point] at settled
    split at moved
    · cases moved; exact honest.reread index yielded settled
    · cases moved
  · rename_i response point
    rw [point] at settled
    cases moved
    have only := (discard_only honest.valid.safe.timeless identity target).1
    exact honest.discards.reread index (fun event present => (yielded event present).later (only.moves target)) settled
  · rename_i response point
    rw [point] at settled
    rw [read] at moved
    split at moved
    · rename_i store shown
      cases shown
      cases moved
      refine honest.reread index yielded (settle_settled ?_)
      intro ended
      rw [show isTerminal response = false from settled] at ended
      cases ended
    · rename_i store record shown
      cases shown
      cases moved
      exact honest.reread index yielded (settle_settled (told record rfl))
  · rename_i response point
    rw [point] at settled
    split at moved
    · cases moved
      refine honest.reread index ?_ (by rw [point]; exact settled)
      intro event present
      rcases List.mem_append.mp present with old | new
      · exact yielded event old
      · rw [List.mem_singleton.mp new]; exact created_backed response
    · cases moved
      refine honest.reread index ?_ trivial
      intro event present
      rcases List.mem_append.mp present with old | new
      · exact yielded event old
      · exact terminalEvent_backed settled new
  · cases moved

-- Any store failure but that of the write the run waits for tells no reader anything.
theorem Honest.outages {s t : Streaming} (honest : Honest identity target parent input s) {failed : Outage}
    (taken : undisputed identity target s (.outage failed) = true) (moved : outage s failed = some t) :
    Honest identity target parent input t := by
  have same : ∀ event ∈ s.run.pending, event ∈ s.run.pending := fun _ present => present
  cases failed with
  | persisting => cases taken
  | appending =>
      simp only [outage] at moved
      split at moved
      · cases moved
      · rename_i event rest queue
        cases moved
        exact {honest with
          pending := fun other present => honest.pending other (by rw [queue]; exact List.mem_cons_of_mem _ present)}
  | discarding =>
      simp only [outage] at moved
      split at moved
      · rename_i event point queue
        cases moved
        rw [note,if_pos (honest.flushing event point)]
        exact honest.rerun same honest.failed trivial
      · cases moved
        exact honest.rerun same honest.failed trivial
      · cases moved
  | writing =>
      simp only [outage] at moved
      split at moved
      · cases moved
        exact honest.rerun same honest.failed trivial
      · cases moved
        exact honest.rerun same honest.failed trivial
      · cases moved
  | calling index =>
      simp only [outage] at moved
      split at moved
      · cases moved
      · cases moved
      · cases moved
        exact {honest with}
  | reading index =>
      simp only [outage] at moved
      split at moved
      · cases moved
      · rename_i reader found
        have yielded := honest.yielded reader (List.mem_of_getElem? found)
        have settled := honest.settled reader (List.mem_of_getElem? found)
        split at moved
        all_goals cases moved
        case h_5 response point =>
          rw [point] at settled
          exact honest.reread index yielded settled
        all_goals exact honest.reread index yielded trivial

-- The write the run waits for ends while the record is still open, so with the
-- event's response stored.
theorem Honest.writes {s t : Streaming} (honest : Honest identity target parent input s) {call : Nat} {now : Int}
    (alone : undisputed identity target s (.write call now) = true)
    (moved : move identity target s (.write call now) = some t) : Honest identity target parent input t := by
  obtain ⟨base,stepped,rfl⟩ := Option.map_eq_some_iff.mp moved
  obtain ⟨valid,moves⟩ := step_valid honest.valid (fun response other => by cases other) stepped
  have stream := step_stream honest.valid stepped
  refine honest.later valid moves (fun entry present => by rwa [stream] at present) ?_
  cases step_took stepped with
  | advance _ _ response point found =>
      intro event waiting at_
      obtain ⟨status,write,named,ok,same,held,told⟩ := honest.persisting event waiting at_
      by_cases mine : call = waiting
      · subst mine
        rw [found] at held
        cases held
        have bound := (List.getElem?_eq_some_iff.mp found).1
        refine ⟨status,_,named,ok,same,List.getElem?_set_self bound,?_⟩
        intro stops
        by_cases already : point = .finished
        · exact (told already).later moves
        · have open_ : recordOver identity target s.store = false := by
            simpa [undisputed,at_] using alone
          have record : ∀ held, recordAt identity s.store target = some held → isTerminal held.response = false := by
            intro held shown
            simpa [recordOver,shown] using open_
          have waits : ∀ other position, s.store.cells (key identity target) ≠ some (Ended other position) := by
            intro other position ended
            cases honest.valid.safe.phase with
            | waiting _ shown => rw [ended] at shown; cases shown
            | ended given place genuine shown _ =>
                have shut := record (.stored (given.set "output" (.arr [])) place)
                  (by simp [recordAt,Streaming.store,shown,Ended])
                have open_ : isTerminal given = false := by
                  simpa [isTerminal,Record.response] using shut
                exact absurd genuine (by simp [open_])
            | deleted shown => rw [ended] at shown; cases shown
          have ended := honest.valid.safe.finishes (List.mem_of_getElem? found) already now waits
            (fun placeholder shown => honest.unended placeholder _ _ shown) stops
          rcases ended with gone | ⟨position,stored⟩
          · exact .inl (moves.gone gone)
          · exact .inr ⟨_,position,stored,same⟩
      · refine ⟨status,write,named,ok,same,?_,fun stops => (told stops).later moves⟩
        rw [List.getElem?_set_ne mine]
        exact held

theorem Honest.appends {s : Streaming} (honest : Honest identity target parent input s) {event : Json} {rest : List Json}
    (queue : s.run.pending = event :: rest) (now : Int) : Honest identity target parent input {s with
      base := withStore s.base (appendStreamEvent none identity target event now s.store)
      run := {s.run with pending := rest}} := by
  obtain ⟨only,stream⟩ := append_only honest.valid.safe.timeless identity target event now
  have mine : Backed identity target s.store event := honest.pending event (by rw [queue]; exact List.mem_cons_self)
  have moves := only.moves target
  have carried : ∀ entry, Backed identity target s.store entry →
      Backed identity target (appendStreamEvent none identity target event now s.store) entry :=
    fun entry backed => backed.later moves
  refine ⟨only.valid honest.valid,?_,?_,?_,?_,honest.flushing,honest.failed,?_,?_⟩
  · intro placeholder origin given held
    exact honest.unended placeholder origin given (moves.waits placeholder origin given held)
  · intro position value present
    have held : (position,value) ∈ s.store.logAt (streamKey identity target) ∨ value = .event event := by
      simp only [Streaming.store,withStore_store,stream] at present
      split at present
      · split at present
        · exact .inl present
        · exact (List.mem_append.mp present).imp id (fun new => (Prod.mk.inj (List.mem_singleton.mp new)).2)
      · exact .inl present
    rcases held with old | rfl
    · obtain ⟨other,shape,backed⟩ := honest.buffered position value old
      exact ⟨other,shape,carried other backed⟩
    · exact ⟨event,rfl,carried event mine⟩
  · intro other present
    exact carried other (honest.pending other (by rw [queue]; exact List.mem_cons_of_mem _ present))
  · intro other call point
    exact Persisting.later moves (fun _ _ held => held) (honest.persisting other call point)
  · intro reader member other present
    exact carried other (honest.yielded reader member other present)
  · intro reader member
    exact (honest.settled reader member).later moves

theorem Honest.abandons {s : Streaming} (honest : Honest identity target parent input s) {run : Run}
    (stopped : abandon s.run = some run) : Honest identity target parent input {s with run} := by
  have same : ∀ event ∈ s.run.pending, event ∈ s.run.pending := fun _ present => present
  unfold abandon at stopped
  split at stopped
  · cases stopped
    exact honest.rerun same honest.failed trivial
  · cases stopped
    exact honest.rerun same honest.failed trivial
  · cases stopped
    exact honest.rerun (fun event present => List.mem_of_mem_take present) honest.failed trivial
  · cases stopped

theorem move_honest {s t : Streaming} (honest : Honest identity target parent input s) {taken : Move}
    (alone : undisputed identity target s taken = true) (moved : move identity target s taken = some t) :
    Honest identity target parent input t := by
  have same : ∀ event ∈ s.run.pending, event ∈ s.run.pending := fun _ present => present
  cases taken with
  | item event =>
      simp only [move] at moved
      split at moved
      · split at moved
        · rename_i accepted
          cases moved
          exact honest.takes (Bool.and_eq_true _ _ ▸ accepted).1 (by simpa [undisputed] using alone)
        · cases moved
      · cases moved
  | error message httpStatus =>
      simp only [move] at moved
      split at moved
      · rename_i point
        split at moved
        · cases moved
        · cases moved
          refine honest.rerun same (fun response other => by cases other) ?_
          rw [point]
          trivial
      · cases moved
  | ends error =>
      simp only [move] at moved
      split at moved
      · cases moved
        refine honest.rerun same ?_ trivial
        intro response
        dsimp only
        split
        · split
          · exact honest.failed response
          · intro other; cases other
        · exact honest.failed response
      · cases moved
  | undispatched =>
      simp only [move] at moved
      split at moved
      · cases moved
        exact honest.rerun same honest.failed trivial
      · cases moved
  | run now => exact honest.runs moved
  | append now =>
      simp only [move] at moved
      split at moved
      · cases moved
      · rename_i event rest queue
        cases moved
        exact honest.appends queue now
  | abandon =>
      simp only [move] at moved
      split at moved
      · obtain ⟨run,stopped,rfl⟩ := Option.map_eq_some_iff.mp moved
        exact honest.abandons stopped
      · cases moved
  | call call => cases moved; exact {honest with}
  | advance index stale now =>
      simp only [move] at moved
      split at moved
      · cases moved
      · obtain ⟨⟨after,point⟩,stepped,rfl⟩ := Option.map_eq_some_iff.mp moved
        exact {honest.calls stepped with}
  | tail after =>
      cases moved
      refine {honest with yielded := ?_,settled := ?_}
      · intro reader member event present
        rcases List.mem_append.mp member with old | new
        · exact honest.yielded reader old event present
        · rw [List.mem_singleton.mp new] at present; cases present
      · intro reader member
        rcases List.mem_append.mp member with old | new
        · exact honest.settled reader old
        · rw [List.mem_singleton.mp new]; trivial
  | read index stale now =>
      simp only [move] at moved
      split at moved
      · cases moved
      · rename_i reader found
        obtain ⟨⟨base,after⟩,stepped,rfl⟩ := Option.map_eq_some_iff.mp moved
        exact honest.tails found stepped
  | write call now => exact honest.writes alone moved
  | other action =>
      obtain ⟨base,stepped,rfl⟩ := Option.map_eq_some_iff.mp moved
      refine honest.stepped stepped (fun response other => by cases other) ?_
      intro call entry held
      cases step_took stepped with
      | other _ after foreign moved => exact held
  | delete =>
      have stepped : step identity target s.base .delete = some _ := rfl
      cases moved
      have deleted := honest.stepped stepped (fun response other => by cases other)
        (fun call entry held => held)
      exact {deleted with}
  | drop => cases moved; exact honest.discards
  | outage failed => exact honest.outages alone moved

-- What every reader has been told of the end of the run is what the record says, from
-- the moment it is told until the record is deleted.
theorem reports_the_record (identity target requestId : String) (clock sweepInterval now : Int) {earlier : List Action}
    {base : Conversations} (reached : execute (next identity) (start clock sweepInterval) earlier = some base)
    (fresh : ∀ written ∈ base.turns, written.id ≠ target) (uuids : Nat → String) {placeholder : Json}
    (queued : placeholder.get "status" = .str "queued") (parent : Option Position) (input : List Json)
    {moves : List Move} {s : Streaming}
    (alone : Meets (move identity target) (fun s taken => undisputed identity target s taken = true)
      (streaming requestId (launched identity target now uuids placeholder parent input base)) moves)
    (ran : execute (move identity target)
      (streaming requestId (launched identity target now uuids placeholder parent input base)) moves = some s) :
    ∀ reader ∈ s.readers, ∀ event ∈ reader.yielded, ∀ status, announces event = some status →
      s.base.held identity target = none ∨
      ∃ response position, s.base.held identity target = some (.value (.record (.stored response position))) ∧
        response.get "status" = .str status := by
  have valid := launched_valid (runs_valid reached) fresh now uuids placeholder parent input
    (fun response => isTerminal response = true)
  have empty : (launched identity target now uuids placeholder parent input base).store.logAt
      (streamKey identity target) = [] := launched_stream reached now uuids placeholder parent input
  have initial : Honest identity target parent (withIds uuids input)
      (streaming requestId (launched identity target now uuids placeholder parent input base)) := by
    refine ⟨valid,?_,?_,?_,?_,?_,?_,?_,?_⟩
    · intro other origin given held
      have cell := (MemoryStoreActor.set_timeless (runs_valid reached).timeless (key identity target)
        (.record (.background placeholder parent (withIds uuids input))) now).2 (key identity target)
      rw [if_pos rfl] at cell
      have same := cell.symm.trans held
      cases same
      simp [isTerminal,queued,terminalStatuses]
    · intro position value present
      simp only [streaming,Streaming.store,empty] at present
      cases present
    · intro event present; cases present
    · intro event call point; cases point
    · intro event point; cases point
    · intro response other; cases other
    · intro reader member; cases member
    · intro reader member; cases member
  have final := meets_invariant (fun s action t honest alone moved => move_honest honest alone moved) initial alone ran
  intro reader member event present status named
  refine (final.yielded reader member event present status named).imp id ?_
  rintro ⟨given,position,held,same⟩
  exact ⟨_,position,held,by simpa using same⟩

def running : Json := .obj [("id",.str "bg"),("status",.str "queued"),("background",.bool true)]
def completed (number : Int) : Json :=
  .obj [("type",.str "response.completed"),("sequence_number",.num number),
    ("response",.obj [("id",.str "bg"),("status",.str "completed"),("output",.arr [])])]
def beginning : Streaming := streaming "req" (launched "u" "bg" 1 (fun _ => "0") running none [] (start 0 1))

-- A run that nothing else ends, followed from its start.
def followed : List Move :=
  [.tail (-1),.item (completed 0),.write 0 2,.write 0 3,.run 4,.append 5,.read 0 false 6,.read 0 false 7]

theorem reports_the_record_followed :
    ∃ s reader, execute (move "u" "bg") beginning followed = some s ∧ s.readers = [reader] ∧
      reader.yielded = [completed 0] ∧
      (s.base.held "u" "bg" = none ∨ ∃ response position, s.base.held "u" "bg" =
        some (.value (.record (.stored response position))) ∧ response.get "status" = .str "completed") := by
  obtain ⟨s,reader,ran,readers,yielded⟩ : ∃ s reader, execute (move "u" "bg") beginning followed = some s ∧
      s.readers = [reader] ∧ reader.yielded = [completed 0] := ⟨_,_,rfl,rfl,rfl⟩
  refine ⟨s,reader,ran,readers,yielded,?_⟩
  have reached : execute (next "u") (start 0 1) [] = some (start 0 1) := rfl
  have alone : Meets (move "u" "bg") (fun s taken => undisputed "u" "bg" s taken = true) beginning followed := by
    decide
  exact reports_the_record "u" "bg" "req" 0 1 1 reached (fun written member => by cases member) (fun _ => "0") rfl none []
    alone ran reader (by rw [readers]; exact List.mem_cons_self) (completed 0) (by rw [yielded]; exact List.mem_cons_self)
    "completed" rfl

-- A cancel is stored between the terminal event's arrival and its write, which then
-- does nothing; the event still reaches the buffer and the reader.
def overtaken : List Move :=
  [.tail (-1),.call (.cancel 9),.advance 0 false 2,.write 0 3,.write 0 4,.advance 0 false 5,.advance 0 false 6,
   .item (completed 0),.write 1 7,.run 8,.append 9,.read 0 false 10,.read 0 false 11]

theorem reports_a_lost_completion :
    ¬ ∀ moves s, execute (move "u" "bg") beginning moves = some s →
      ∀ reader ∈ s.readers, ∀ event ∈ reader.yielded, ∀ status, announces event = some status →
        s.base.held "u" "bg" = none ∨
        ∃ response position, s.base.held "u" "bg" = some (.value (.record (.stored response position))) ∧
          response.get "status" = .str status := by
  intro always
  obtain ⟨s,reader,response,position,ran,member,yielded,held,status⟩ : ∃ s reader response position,
      execute (move "u" "bg") beginning overtaken = some s ∧ s.readers = [reader] ∧
      reader.yielded = [completed 0] ∧ s.base.held "u" "bg" = some (.value (.record (.stored response position))) ∧
      response.get "status" = .str "cancelled" := ⟨_,_,_,_,rfl,rfl,rfl,rfl,rfl⟩
  have told := always overtaken s ran reader (by rw [member]; exact List.mem_cons_self) (completed 0)
    (by rw [yielded]; exact List.mem_cons_self) "completed" rfl
  rw [held] at told
  rcases told with gone | ⟨other,place,same,claimed⟩
  · cases gone
  · cases same
    rw [status] at claimed
    exact absurd (Json.str.inj claimed) (by decide)

end Modelship.BackgroundReport

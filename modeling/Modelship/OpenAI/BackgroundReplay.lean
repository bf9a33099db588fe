import Modelship.OpenAI.BackgroundRun

namespace Modelship.BackgroundReplay
open Foundation State ResponsesState ConversationLog BackgroundRecord BackgroundRun
open MemoryStoreActor (taken inRange)

-- A replay buffer that holds `events` from number `first` on.
def numbered (first : Nat) : List Json → List (Nat × Value)
  | [] => []
  | event :: rest => (first + 1,.event event) :: numbered (first + 1) rest

theorem numbered_append (first : Nat) (events : List Json) (event : Json) :
    numbered first (events ++ [event]) = numbered first events ++ [(first + events.length + 1,.event event)] := by
  induction events generalizing first with
  | nil => simp [numbered]
  | cons head rest ih =>
      simp only [List.cons_append,numbered,ih,List.length_cons]
      rw [show first + 1 + rest.length + 1 = first + (rest.length + 1) + 1 by omega]

theorem numbered_free (events : List Json) : taken (numbered 0 events) (events.length + 1) = false := by
  rcases List.eq_nil_or_concat' events with rfl | ⟨front,last,rfl⟩
  · rfl
  · rw [numbered_append]
    simp [taken]

-- What a reader that has seen `seen` events gets from it.
theorem numbered_after (first seen : Nat) (events : List Json) :
    (((numbered first events).filter (fun entry => inRange (seen + 1) none entry.1)).map Prod.snd).filterMap asEvent =
      events.drop (seen - first) := by
  induction events generalizing first with
  | nil => simp [numbered]
  | cons event rest ih =>
      by_cases late : seen ≤ first
      · have here : inRange (seen + 1) none (first + 1) = true := by simp [inRange,late]
        have start : seen - first = 0 := by omega
        have next : seen - (first + 1) = 0 := by omega
        simp [numbered,here,asEvent,ih,start,next]
      · have before : inRange (seen + 1) none (first + 1) = false := by
          simp only [inRange,Option.all_none,Bool.and_true,decide_eq_false_iff_not]
          omega
        have next : seen - first = seen - (first + 1) + 1 := by omega
        simp [numbered,before,ih,next]

section
variable (identity target : String) (events : List Json)

-- The run's events are numbered from 0, and the last one alone announces its end.
structure Script : Prop where
  nonempty : events ≠ []
  genuine : ∀ event ∈ events, genuine target event = true
  numbers : ∀ i event, events[i]? = some event → sequenceNumber event = some i
  ends : ∀ i event, events[i]? = some event → ((announces event).isSome ↔ i + 1 = events.length)

-- The generator gives these events and no others, every run is alive, no store call
-- fails, and nothing is cancelled, deleted, expired or abandoned.
def undisturbed (s : Streaming) : Move → Bool
  | .item event => events[s.run.passed.length]? == some event
  | .ends error => error.isNone && s.run.passed == events
  | .tail after => -1 ≤ after && after + 1 < events.length
  | .read _ stale _ => !stale
  | .run _ | .append _ | .write _ _ | .other _ => true
  | .error _ _ | .undispatched | .abandon | .call _ | .advance _ _ _ | .delete | .drop | .outage _ => false

-- The response of the run's last event, and the way a reader finds it in the record.
def final : Json := ((events.getLast?).getD .null).get "response"
def finalRead : Json := ((final events).set "output" (.arr [])).set "output" (.arr ((final events).items "output"))

-- What a reader that was started behind event `start` has yielded when it ends: the
-- events from `start` on; or those it saw before the buffer was dropped, then the end
-- made up from the record, numbered behind them. A reader that saw none at all is
-- first given an opening event.
def Tail (start : Nat) (yielded : List Json) : Prop :=
  yielded = events.drop start ∨
  ∃ seen ending, start ≤ seen ∧ seen < events.length ∧
    terminalEventFromResponse (finalRead events) (if seen = 0 then 0 else seen - 1) = some ending ∧
    announces ending = events.getLast?.bind announces ∧
    yielded = (events.take seen).drop start ++ (if seen = 0 then [createdEvent (finalRead events)] else []) ++ [ending]

structure Seen (reader : Reader) (start seen : Nat) : Prop where
  counted : reader.after + 1 = seen
  order : start ≤ seen
  open_ : seen < events.length
  yielded : reader.yielded = (events.take seen).drop start

def ReaderAt (passed : Nat) (reader : Reader) : Prop :=
  ∃ start : Nat, reader.cursor + 1 = start ∧ start < events.length ∧
    match reader.point with
    | .polling | .reading => ∃ seen, Seen events reader start seen
    | .yielding more => ∃ seen stop, Seen events reader start seen ∧ seen < stop ∧ stop ≤ passed ∧
        more = (events.take stop).drop seen
    | .announcing response => response = finalRead events ∧
        ((∃ seen, Seen events reader start seen) ∨
          start = 0 ∧ reader.after = 0 ∧ reader.yielded = [createdEvent response])
    | .finished => Tail events start reader.yielded
    | .writing _ _ | .discarding _ | .rereading _ => False

def Buffered (s : Streaming) : Prop :=
  ∃ count ≤ s.run.passed.length,
    s.store.logAt (streamKey identity target) = numbered 0 (s.run.passed.take count) ∧
    s.run.pending = s.run.passed.drop count

def Cleared (s : Streaming) : Prop :=
  s.store.logAt (streamKey identity target) = [] ∧ s.run.pending = []

-- The record before, while and after the run's last response is written.
def Waiting (s : Background) : Prop :=
  ∃ placeholder parent input, s.held identity target =
    some (.value (.record (.background placeholder parent input))) ∧ isTerminal placeholder = false
def Unwritten (s : Background) : Prop := s.writers = [] ∧ Waiting identity target s
def Writing (s : Background) : Prop :=
  ∃ point, s.writers = [(final events,point)] ∧ point ≠ .finished ∧ Waiting identity target s
def Written (s : Background) : Prop :=
  s.writers = [(final events,.finished)] ∧ ∃ position, s.held identity target = some (Ended (final events) position)

def RunAt (s : Streaming) : Prop :=
  match s.run.point with
  | .draining =>
    (s.run.passed.length < events.length ∧ Buffered identity target s ∧ Unwritten identity target s.base ∧
      s.run.failed = none) ∨
    (s.run.passed = events ∧ Cleared identity target s ∧
      (s.run.failed = none ∧ s.run.sawOkTerminal = true ∧ Written identity target events s.base ∨
        s.run.failed = some (.response (final events)) ∧ Unwritten identity target s.base))
  | .persisting event call =>
    s.run.passed.length + 1 = events.length ∧ events[s.run.passed.length]? = some event ∧ call = 0 ∧
      ofType terminalEventTypes event = true ∧ Buffered identity target s ∧ s.run.failed = none ∧
      (Writing identity target events s.base ∨ Written identity target events s.base)
  | .flushing event =>
    s.run.passed = events ∧ events.getLast? = some event ∧ Buffered identity target s ∧ s.run.failed = none ∧
      (ofType terminalEventTypes event = true ∧ Written identity target events s.base ∨
        ofType terminalEventTypes event = false ∧ Unwritten identity target s.base)
  | .drained =>
    s.run.passed = events ∧ Cleared identity target s ∧
      (s.run.failed = none ∧ s.run.sawOkTerminal = true ∧ Written identity target events s.base ∨
        s.run.failed = some (.response (final events)) ∧ Unwritten identity target s.base)
  | .writing call =>
    s.run.passed = events ∧ Cleared identity target s ∧ call = 0 ∧
      (Writing identity target events s.base ∨ Written identity target events s.base)
  | .closing | .finished =>
    s.run.passed = events ∧ Cleared identity target s ∧ Written identity target events s.base
  | .failing _ _ => False

structure Playing (parent : Option Position) (input : List Json) (s : Streaming) : Prop where
  valid : Valid identity target parent input (fun response => response = final events) s.base
  passed : s.run.passed = events.take s.run.passed.length
  run : RunAt identity target events s
  readers : ∀ reader ∈ s.readers, ReaderAt events s.run.passed.length reader

end

variable {identity target : String} {events : List Json} {parent : Option Position} {input : List Json} {s : Streaming}

theorem final_status (script : Script target events) :
    ∃ event status, events.getLast? = some event ∧ announces event = some status ∧
      final events = event.get "response" ∧ (final events).get "id" = .str target ∧ target ≠ "" ∧
      (final events).get "status" = .str status := by
  obtain ⟨event,last⟩ : ∃ event, events.getLast? = some event := Option.isSome_iff_exists.mp (by simp [script.nonempty])
  have place : events[events.length - 1]? = some event := by rw [← List.getLast?_eq_getElem?]; exact last
  have long : 0 < events.length := List.length_pos_iff.mpr script.nonempty
  obtain ⟨status,named⟩ := Option.isSome_iff_exists.mp ((script.ends _ event place).mpr (by omega))
  have same : final events = event.get "response" := by simp [final,last]
  have accepted := script.genuine event (List.mem_of_getLast? last)
  simp only [BackgroundRun.genuine,named,Bool.and_eq_true,beq_iff_eq,bne_iff_ne] at accepted
  rw [← same] at accepted
  exact ⟨event,status,last,named,same,accepted.1.1,accepted.1.2,accepted.2⟩

theorem final_terminal (script : Script target events) : isTerminal (finalRead events) = true := by
  obtain ⟨event,status,_,named,_,_,_,same⟩ := final_status script
  simp only [isTerminal,finalRead,Json.get_set,if_neg (show "output" ≠ "status" by decide),same]
  exact announces_status event named

-- The end that the record tells is the one the run's last event announced.
theorem ending_announced (script : Script target events) (after : Int) :
    ∃ ending, terminalEventFromResponse (finalRead events) after = some ending ∧
      announces ending = events.getLast?.bind announces := by
  obtain ⟨event,status,last,named,_,_,_,same⟩ := final_status script
  have read : (finalRead events).get "status" = .str status := by
    simp only [finalRead,Json.get_set,if_neg (show "output" ≠ "status" by decide),same]
  rw [last,Option.bind_some,named]
  unfold announces at named
  unfold terminalEventFromResponse
  rw [read]
  split at named <;> cases named <;> exact ⟨_,rfl,rfl⟩

theorem ReaderAt.grow {reader : Reader} {passed more : Nat} (longer : passed ≤ more)
    (at_ : ReaderAt events passed reader) : ReaderAt events more reader := by
  obtain ⟨start,cursor,bound,shape⟩ := at_
  refine ⟨start,cursor,bound,?_⟩
  split at shape
  · exact shape
  · exact shape
  · obtain ⟨seen,stop,ahead,below,within,same⟩ := shape
    exact ⟨seen,stop,ahead,below,within.trans longer,same⟩
  · exact shape
  · exact shape
  all_goals exact shape.elim

theorem Playing.stream (playing : Playing identity target events parent input s) :
    Buffered identity target s ∨ Cleared identity target s := by
  have at_ := playing.run
  unfold RunAt at at_
  split at at_
  · exact at_.imp (fun one => one.2.1) (fun two => two.2.1)
  · exact .inl at_.2.2.2.2.1
  · exact .inl at_.2.2.1
  · exact .inr at_.2.1
  · exact .inr at_.2.1
  · exact .inr at_.2.1
  · exact .inr at_.2.1
  · exact at_.elim

theorem Playing.record (playing : Playing identity target events parent input s) :
    Waiting identity target s.base ∨ ∃ position, s.base.held identity target = some (Ended (final events) position) := by
  have either : Writing identity target events s.base ∨ Written identity target events s.base →
      Waiting identity target s.base ∨
      ∃ position, s.base.held identity target = some (Ended (final events) position) :=
    Or.imp (fun ⟨_,_,_,waiting⟩ => waiting) And.right
  have at_ := playing.run
  unfold RunAt at at_
  split at at_
  · rcases at_ with ⟨_,_,unwritten,_⟩ | ⟨_,_,⟨_,_,written⟩ | ⟨_,unwritten⟩⟩
    · exact .inl unwritten.2
    · exact .inr written.2
    · exact .inl unwritten.2
  · exact either at_.2.2.2.2.2.2
  · rcases at_.2.2.2.2 with ⟨_,written⟩ | ⟨_,unwritten⟩
    · exact .inr written.2
    · exact .inl unwritten.2
  · rcases at_.2.2 with ⟨_,_,written⟩ | ⟨_,unwritten⟩
    · exact .inr written.2
    · exact .inl unwritten.2
  · exact either at_.2.2.2
  · exact .inr at_.2.2.2
  · exact .inr at_.2.2.2
  · exact at_.elim

-- A reader finds the placeholder, or the last response with its output.
theorem Playing.reads (playing : Playing identity target events parent input s) (now : Int) :
    (∃ placeholder origin given, readAsync s.store identity target true now =
      (s.store,some (.background placeholder origin given)) ∧ isTerminal placeholder = false ∧
      s.base.held identity target = some (.value (.record (.background placeholder origin given)))) ∨
    ∃ position, readAsync s.store identity target true now =
      (s.store,some (.stored (finalRead events) position)) ∧
      s.base.held identity target = some (Ended (final events) position) := by
  have safe := playing.valid.safe
  rcases playing.record with ⟨placeholder,origin,given,held,open_⟩ | ⟨position,held⟩
  · refine .inl ⟨placeholder,origin,given,?_,open_,held⟩
    unfold Background.held at held
    simp only [readAsync,readRecord_timeless safe.timeless,held]
  · refine .inr ⟨position,?_,held⟩
    unfold Background.held at held
    have occupied : Occupies identity target parent input (final events) position s.base.store := by
      cases safe.phase with
      | waiting _ other => rw [held] at other; cases other
      | ended given place genuine other occupied =>
          subst genuine
          have same : position = place := by
            simpa [Ended] using Option.some.inj (held.symm.trans other)
          exact same ▸ occupied
      | deleted other => rw [held] at other; cases other
    obtain ⟨entry,present,_,_,output⟩ := occupied.entry
    have read := MemoryStoreActor.readAt_mem (safe.ordered position.log) present
    unfold logsOf at read
    simp only [readAsync,readRecord_timeless safe.timeless,held,Ended,
      MemoryStoreActor.readRange_timeless safe.timeless,read]
    simp [asEntry,finalRead,output]

-- What polling gives: the events that have reached the buffer, from the first unseen on.
theorem Playing.polls (playing : Playing identity target events parent input s) {after : Int} {seen : Nat}
    (counted : after + 1 = seen) (now : Int) :
    ∃ stop ≤ s.run.passed.length,
      readStreamEventsAfter identity target after now s.store = (s.store,(events.take stop).drop seen) := by
  have start : after + 2 = seen + 1 := by omega
  rw [readStream_timeless playing.valid.safe.timeless,start]
  rcases playing.stream with ⟨count,within,log,_⟩ | ⟨log,_⟩
  · refine ⟨count,within,?_⟩
    have early : s.run.passed.take count = events.take count := by
      rw [playing.passed,List.take_take,Nat.min_eq_left within]
    rw [log,numbered_after,early,Nat.sub_zero]
  · exact ⟨0,Nat.zero_le _,by rw [log]; simp⟩

theorem Seen.settled {reader : Reader} {start seen : Nat} (ahead : Seen events reader start seen) (point : ReaderPoint) :
    Seen events {reader with point} start seen := ⟨ahead.counted,ahead.order,ahead.open_,ahead.yielded⟩

-- The reader hands on one event.
theorem ReaderAt.yields (script : Script target events) {reader : Reader} {start seen stop passed : Nat} {event : Json}
    {rest : List Json} (cursor : reader.cursor + 1 = start) (ahead : Seen events reader start seen)
    (within : stop ≤ passed) (more : event :: rest = (events.take stop).drop seen) :
    ReaderAt events passed {reader with
      after := match sequenceNumber event with | some number => number | none => reader.after
      point := if rest = [] then (if ofType terminalEventOrFailed event then .finished else .polling) else .yielding rest
      yielded := reader.yielded ++ [event]} := by
  have below : seen < (events.take stop).length := by
    by_contra beyond
    rw [List.drop_eq_nil_of_le (Nat.le_of_not_lt beyond)] at more
    cases more
  rw [List.drop_eq_getElem_cons below] at more
  obtain ⟨rfl,rfl⟩ := List.cons.inj more
  have long : seen < stop ∧ seen < events.length := by
    rw [List.length_take] at below
    omega
  have place : events[seen]? = some (events.take stop)[seen] := by
    rw [List.getElem_take]
    exact List.getElem?_eq_getElem long.2
  have number := script.numbers seen _ place
  have sofar : reader.yielded ++ [(events.take stop)[seen]] = (events.take (seen + 1)).drop start := by
    rw [ahead.yielded,List.take_add_one,place,List.drop_append_of_le_length]
    · rfl
    · rw [List.length_take]; have := ahead.order; omega
  have order := ahead.order
  have first : start < events.length := Nat.lt_of_le_of_lt order long.2
  have ends := script.ends seen _ place
  by_cases last : (events.take stop).drop (seen + 1) = []
  · simp only [if_pos last,number]
    cases ended : ofType terminalEventOrFailed (events.take stop)[seen] with
    | true =>
        have whole : seen + 1 = events.length :=
          ends.mp (Option.isSome_iff_exists.mpr ((announces_terminal _).mp ended))
        refine ⟨start,cursor,first,.inl ?_⟩
        dsimp only
        rw [sofar,whole,List.take_length]
    | false =>
        have some_ : seen + 1 ≠ events.length := by
          intro whole
          have announced := (announces_terminal _).mpr (Option.isSome_iff_exists.mp (ends.mpr whole))
          rw [ended] at announced
          cases announced
        exact ⟨start,cursor,first,seen + 1,by simp,by omega,by omega,sofar⟩
  · have further : seen + 1 < stop := by
      by_contra beyond
      refine last (List.drop_eq_nil_of_le ?_)
      rw [List.length_take]
      omega
    have inside : seen + 1 < events.length := by
      by_contra beyond
      refine last (List.drop_eq_nil_of_le ?_)
      rw [List.length_take]
      omega
    simp only [if_neg last,number]
    exact ⟨start,cursor,first,seen + 1,stop,⟨by simp,by omega,inside,sofar⟩,further,within,rfl⟩

-- Every step of a reader leaves the store as it is.
theorem Playing.tails (playing : Playing identity target events parent input s) (script : Script target events)
    {now : Int} {reader after : Reader} {base : Background} (member : reader ∈ s.readers)
    (moved : advanceReader identity target false now s.base reader = some (base,after)) :
    base = s.base ∧ after.cursor = reader.cursor ∧ ReaderAt events s.run.passed.length after := by
  obtain ⟨start,cursor,first,shape⟩ := playing.readers reader member
  unfold advanceReader at moved
  split at moved <;> rename_i point <;> rw [point] at shape
  · obtain ⟨seen,ahead⟩ := shape
    obtain ⟨stop,within,read⟩ := playing.polls ahead.counted now
    rw [read] at moved
    split at moved
    · rename_i store shown
      obtain ⟨rfl,_⟩ := Prod.mk.inj shown
      cases moved
      exact ⟨rfl,rfl,start,cursor,first,seen,ahead.settled .reading⟩
    · rename_i store more some_ shown
      obtain ⟨rfl,same⟩ := Prod.mk.inj shown
      cases moved
      have below : seen < stop := by
        by_contra beyond
        refine some_ ?_
        rw [← same,List.drop_eq_nil_of_le]
        rw [List.length_take]
        omega
      exact ⟨rfl,rfl,start,cursor,first,seen,stop,ahead.settled _,below,within,same.symm⟩
  · obtain ⟨seen,stop,ahead,below,within,more⟩ := shape
    exfalso
    have long : stop ≤ events.length := by
      have := congrArg List.length playing.passed
      rw [List.length_take] at this
      omega
    have := congrArg List.length more
    simp only [List.length_nil,List.length_drop,List.length_take] at this
    omega
  · obtain ⟨seen,stop,ahead,_,within,more⟩ := shape
    cases moved
    exact ⟨rfl,rfl,.yields script cursor ahead within more⟩
  · obtain ⟨seen,ahead⟩ := shape
    simp only [Bool.and_false,Bool.false_eq_true,if_false] at moved
    rcases playing.reads now with ⟨placeholder,origin,given,read,open_,_⟩ | ⟨position,read,_⟩
    · simp only [read,Option.some.injEq,Prod.mk.injEq] at moved
      obtain ⟨rfl,rfl⟩ := moved
      refine ⟨rfl,rfl,start,cursor,first,?_⟩
      simp only [settle,Record.response,open_,Bool.false_eq_true,if_false]
      exact ⟨seen,ahead.settled .polling⟩
    · simp only [read,Option.some.injEq,Prod.mk.injEq] at moved
      obtain ⟨rfl,rfl⟩ := moved
      refine ⟨rfl,rfl,start,cursor,first,?_⟩
      simp only [settle,Record.response,final_terminal script,if_true]
      exact ⟨trivial,.inl ⟨seen,ahead.settled _⟩⟩
  · exact shape.elim
  · exact shape.elim
  · exact shape.elim
  · rename_i response
    obtain ⟨rfl,⟨seen,ahead⟩ | ⟨zero,opened,yielded⟩⟩ := shape
    · split at moved
      · rename_i nothing
        cases moved
        have none : seen = 0 := by have := ahead.counted; omega
        subst none
        have zero : start = 0 := by have := ahead.order; omega
        refine ⟨rfl,rfl,start,cursor,first,?_⟩
        simp only [point]
        refine ⟨trivial,.inr ⟨zero,trivial,?_⟩⟩
        rw [ahead.yielded]
        simp
      · rename_i going
        cases moved
        have positive : seen ≠ 0 := by have := ahead.counted; omega
        have number : reader.after = seen - 1 := by have := ahead.counted; omega
        obtain ⟨ending,made,told⟩ := ending_announced script (seen - 1)
        refine ⟨rfl,rfl,start,cursor,first,.inr ⟨seen,ending,ahead.order,ahead.open_,?_,told,?_⟩⟩
        · simp only [if_neg positive,made]
        · simp only [ahead.yielded,if_neg positive,List.append_nil,number,made,Option.toList_some]
    · rw [opened] at moved
      cases moved
      subst zero
      obtain ⟨ending,made,told⟩ := ending_announced script 0
      refine ⟨rfl,rfl,0,cursor,first,.inr ⟨0,ending,Nat.le_refl _,first,?_,told,?_⟩⟩
      · simp only [if_true,made]
      · simp [yielded,made]
  · cases moved

-- The run's part of the invariant looks at the base only through these three.
theorem RunAt.recast {base : Background}
    (log : base.store.logAt (streamKey identity target) = s.store.logAt (streamKey identity target))
    (held : base.held identity target = s.base.held identity target) (writers : base.writers = s.base.writers)
    (at_ : RunAt identity target events s) : RunAt identity target events {s with base} := by
  unfold RunAt at at_ ⊢
  simp only [Buffered,Cleared,Unwritten,Writing,Written,Waiting,Streaming.store,log,held,writers] at at_ ⊢
  exact at_

theorem Playing.rebase (playing : Playing identity target events parent input s) {base : Background}
    (valid : Valid identity target parent input (fun response => response = final events) base)
    (log : base.store.logAt (streamKey identity target) = s.store.logAt (streamKey identity target))
    (held : base.held identity target = s.base.held identity target) (writers : base.writers = s.base.writers) :
    Playing identity target events parent input {s with base} :=
  ⟨valid,playing.passed,playing.run.recast log held writers,playing.readers⟩

theorem Playing.length (playing : Playing identity target events parent input s) :
    s.run.passed.length ≤ events.length := by
  have whole := congrArg List.length playing.passed
  rw [List.length_take] at whole
  omega

theorem buffered_take (passed : List Json) (event : Json) {count : Nat} (within : count ≤ passed.length) :
    (passed ++ [event]).take count = passed.take count ∧
      (passed ++ [event]).drop count = passed.drop count ++ [event] :=
  ⟨List.take_append_of_le_length within,List.drop_append_of_le_length within⟩

theorem Buffered.pass (buffered : Buffered identity target s) (event : Json) :
    Buffered identity target {s with run := BackgroundRun.pass event s.run} := by
  obtain ⟨count,within,log,pending⟩ := buffered
  obtain ⟨front,back⟩ := buffered_take s.run.passed event within
  refine ⟨count,?_,?_,?_⟩
  · simp only [BackgroundRun.pass,List.length_append]; omega
  · simp only [BackgroundRun.pass,front]; exact log
  · simp only [BackgroundRun.pass,back,pending]

theorem passed_grow (script : Script target events) {event : Json}
    (passed : s.run.passed = events.take s.run.passed.length)
    (found : events[s.run.passed.length]? = some event) :
    s.run.passed ++ [event] = events.take (s.run.passed.length + 1) ∧
      ((announces event).isSome → s.run.passed ++ [event] = events ∧ events.getLast? = some event) ∧
      ((announces event).isNone → s.run.passed.length + 1 < events.length) := by
  have long := (List.getElem?_eq_some_iff.mp found).1
  have longer : s.run.passed ++ [event] = events.take (s.run.passed.length + 1) := by
    rw [List.take_add_one,found,← passed]
    rfl
  refine ⟨longer,?_,?_⟩
  · intro ended
    have whole := (script.ends _ event found).mp ended
    refine ⟨by rw [longer,whole,List.take_length],?_⟩
    rw [List.getLast?_eq_getElem?,← whole]
    exact found
  · intro open_
    have some_ : s.run.passed.length + 1 ≠ events.length := by
      intro whole
      have ended := (script.ends _ event found).mpr whole
      rw [Option.isNone_iff_eq_none] at open_
      rw [open_] at ended
      cases ended
    omega

-- An event reaches the buffer: the end of the run flushes it, any other is drained.
theorem Playing.passes (playing : Playing identity target events parent input s) (script : Script target events)
    {event : Json} (found : events[s.run.passed.length]? = some event) (buffered : Buffered identity target s)
    (unfailed : s.run.failed = none)
    (record : ofType terminalEventTypes event = true ∧ Written identity target events s.base ∨
      ofType terminalEventTypes event = false ∧ Unwritten identity target s.base) :
    Playing identity target events parent input {s with run := BackgroundRun.pass event s.run} := by
  obtain ⟨longer,whole,further⟩ := passed_grow script playing.passed found
  refine ⟨playing.valid,?_,?_,?_⟩
  · simp only [BackgroundRun.pass,List.length_append,List.length_cons,List.length_nil]
    exact longer
  · unfold RunAt
    cases ended : ofType terminalEventOrFailed event with
    | true =>
        obtain ⟨all,last⟩ := whole (Option.isSome_iff_exists.mpr ((announces_terminal event).mp ended))
        have buffers := buffered.pass event
        simp only [BackgroundRun.pass,ended,if_true] at buffers ⊢
        exact ⟨all,last,buffers,unfailed,record⟩
    | false =>
        have silent : announces event = none := by
          cases named : announces event with
          | none => rfl
          | some status =>
              have announced := (announces_terminal event).mpr ⟨status,named⟩
              rw [ended] at announced
              cases announced
        have buffers := buffered.pass event
        simp only [BackgroundRun.pass,ended,Bool.false_eq_true,if_false] at buffers ⊢
        refine .inl ⟨?_,buffers,?_,unfailed⟩
        · simpa using further (by rw [silent]; rfl)
        · rcases record with ⟨listed,_⟩ | ⟨_,unwritten⟩
          · rcases announces_ok event listed with one | one <;> rw [silent] at one <;> cases one
          · exact unwritten
  · intro reader member
    exact (playing.readers reader member).grow (by simp [BackgroundRun.pass])

theorem last_response {event : Json} (last : events.getLast? = some event) : event.get "response" = final events := by
  simp [final,last]

theorem Unwritten.begins {s : Background} (unwritten : Unwritten identity target s) :
    Writing identity target events (beginCall s (final events)) :=
  ⟨.read,by simp [beginCall,unwritten.1],by simp,unwritten.2⟩

theorem Playing.takes (playing : Playing identity target events parent input s) (script : Script target events)
    {event : Json} (found : events[s.run.passed.length]? = some event) (draining : s.run.point = .draining) :
    Playing identity target events parent input (takeItem event s) := by
  have at_ := playing.run
  simp only [RunAt,draining] at at_
  rcases at_ with ⟨_,buffered,unwritten,unfailed⟩ | ⟨all,_⟩
  · unfold takeItem
    obtain ⟨_,whole,_⟩ := passed_grow script playing.passed found
    split
    · rename_i stored
      have listed : ofType terminalEventTypes event = true := by
        simp only [Bool.and_eq_true] at stored
        exact stored.1
      have ended : (announces event).isSome := by
        rcases announces_ok event listed with one | one <;> rw [one] <;> rfl
      obtain ⟨all,last⟩ := whole ended
      rw [last_response last]
      refine ⟨beginCall_valid playing.valid rfl,playing.passed,?_,playing.readers⟩
      have count : s.run.passed.length + 1 = events.length := by
        have := congrArg List.length all
        simpa using this
      exact ⟨count,found,by simp [newCall,unwritten.1],listed,buffered,unfailed,.inl unwritten.begins⟩
    · rename_i unstored
      refine playing.passes script found buffered unfailed (.inr ⟨?_,unwritten⟩)
      cases listed : ofType terminalEventTypes event with
      | false => rfl
      | true =>
          have ended : ∃ status, announces event = some status :=
            (announces_ok event listed).elim (fun one => ⟨_,one⟩) (fun two => ⟨_,two⟩)
          obtain ⟨status,named⟩ := ended
          have accepted := script.genuine event (List.mem_of_getElem? found)
          simp only [BackgroundRun.genuine,named,Bool.and_eq_true,beq_iff_eq,bne_iff_ne] at accepted
          exact absurd (by simp [listed,accepted.1.1,Json.truthy,accepted.1.2]) unstored
  · rw [all,List.getElem?_length] at found
    cases found

theorem Playing.discards (playing : Playing identity target events parent input s) :
    Valid identity target parent input (fun response => response = final events)
        (withStore s.base (discardStreamBuffer identity target s.store)) ∧
      (withStore s.base (discardStreamBuffer identity target s.store)).held identity target =
        s.base.held identity target ∧
      (withStore s.base (discardStreamBuffer identity target s.store)).store.logAt (streamKey identity target) = [] := by
  obtain ⟨only,empty⟩ := discard_only playing.valid.safe.timeless identity target
  exact ⟨only.valid playing.valid,only.records target,empty⟩

theorem Playing.runs (playing : Playing identity target events parent input s) (script : Script target events)
    {now : Int} {t : Streaming} (moved : advanceRun identity target now s = some t) :
    Playing identity target events parent input t := by
  have at_ := playing.run
  obtain ⟨valid,held,log⟩ := playing.discards
  unfold RunAt at at_
  unfold advanceRun at moved
  split at moved
  · cases moved
  · cases moved
  · rename_i event call point
    simp only [point] at at_
    obtain ⟨count,found,_,listed,buffered,unfailed,record⟩ := at_
    split at moved
    · rename_i ended
      cases moved
      rcases record with ⟨write,writers,going,_⟩ | written
      · simp_all [done]
      · exact playing.passes script found buffered unfailed (.inl ⟨listed,written⟩)
    · cases moved
  · rename_i event point
    simp only [point] at at_
    obtain ⟨all,last,_,unfailed,record⟩ := at_
    split at moved
    · rename_i flushed
      cases moved
      refine ⟨valid,?_,?_,?_⟩
      · simp only [note]; split <;> exact playing.passed
      · unfold RunAt note
        rcases record with ⟨listed,written⟩ | ⟨unlisted,unwritten⟩
        · simp only [listed,if_true]
          exact .inr ⟨all,⟨log,flushed⟩,.inl ⟨unfailed,trivial,written.1,by rw [held]; exact written.2⟩⟩
        · obtain ⟨_,_,_,_,same,named,_,_⟩ := final_status script
          have present : final events ≠ .null := by
            intro null
            rw [null] at named
            cases named
          simp only [unlisted,Bool.false_eq_true,if_false,last_response last,if_neg present]
          refine .inr ⟨all,⟨log,flushed⟩,.inr ⟨trivial,unwritten.1,?_⟩⟩
          unfold Waiting
          rw [held]
          exact unwritten.2
      · intro reader member
        have same : (note event s.run).passed.length = s.run.passed.length := by
          unfold note; split <;> rfl
        simp only [same]
        exact playing.readers reader member
    · cases moved
  · rename_i point
    simp only [point] at at_
    obtain ⟨all,cleared,⟨unfailed,ok,written⟩ | ⟨failed,unwritten⟩⟩ := at_
    · simp only [unfailed,ok,if_true,Option.orElse_none] at moved
      cases moved
      exact ⟨playing.valid,playing.passed,⟨all,cleared,written⟩,playing.readers⟩
    · simp only [failed,Option.orElse_some] at moved
      cases moved
      refine ⟨beginCall_valid playing.valid rfl,playing.passed,?_,playing.readers⟩
      exact ⟨all,cleared,by simp [newCall,unwritten.1],.inl unwritten.begins⟩
  · rename_i message httpStatus point
    simp only [point] at at_
  · rename_i call point
    simp only [point] at at_
    obtain ⟨all,cleared,rfl,record⟩ := at_
    split at moved
    · rename_i ended
      cases moved
      rcases record with ⟨write,writers,going,_⟩ | written
      · simp_all [done]
      · exact ⟨playing.valid,playing.passed,⟨all,cleared,written⟩,playing.readers⟩
    · cases moved
  · rename_i point
    simp only [point] at at_
    obtain ⟨all,cleared,written⟩ := at_
    split at moved
    · cases moved
      exact ⟨valid,playing.passed,⟨all,⟨log,cleared.2⟩,written.1,by rw [held]; exact written.2⟩,playing.readers⟩
    · cases moved

theorem Playing.appends (playing : Playing identity target events parent input s) (script : Script target events)
    {event : Json} {rest : List Json} (queue : s.run.pending = event :: rest) (now : Int) :
    Playing identity target events parent input {s with
      base := withStore s.base (appendStreamEvent none identity target event now s.store)
      run := {s.run with pending := rest}} := by
  obtain ⟨only,log⟩ := append_only playing.valid.safe.timeless identity target event now
  have held : (withStore s.base (appendStreamEvent none identity target event now s.store)).held identity target =
      s.base.held identity target := only.records target
  have buffers : Buffered identity target s → Buffered identity target {s with
      base := withStore s.base (appendStreamEvent none identity target event now s.store)
      run := {s.run with pending := rest}} := by
    rintro ⟨count,within,before,pending⟩
    have below : count < s.run.passed.length := by
      by_contra beyond
      rw [pending,List.drop_eq_nil_of_le (Nat.le_of_not_lt beyond)] at queue
      cases queue
    rw [pending,List.drop_eq_getElem_cons below] at queue
    obtain ⟨rfl,rfl⟩ := List.cons.inj queue
    have place : events[count]? = some s.run.passed[count] := by
      have same : s.run.passed[count]? = events[count]? := by
        conv_lhs => rw [playing.passed]
        exact List.getElem?_take_of_lt below
      exact same.symm.trans (List.getElem?_eq_getElem below)
    have length : (s.run.passed.take count).length = count := by
      rw [List.length_take]; omega
    have free := numbered_free (s.run.passed.take count)
    rw [length] at free
    refine ⟨count + 1,below,?_,rfl⟩
    simp only [Streaming.store,withStore_store,log,script.numbers count _ place,before,free,Bool.false_eq_true,if_false]
    rw [List.take_add_one,List.getElem?_eq_getElem below,Option.toList_some,numbered_append,length,Nat.zero_add]
  have cleared : ¬ Cleared identity target s := by
    intro empty
    rw [empty.2] at queue
    cases queue
  refine ⟨only.valid playing.valid,playing.passed,?_,playing.readers⟩
  have at_ := playing.run
  unfold RunAt at at_ ⊢
  unfold Unwritten Writing Written Waiting at at_ ⊢
  dsimp only
  rw [held]
  cases point : s.run.point with
  | draining =>
      simp only [point] at at_ ⊢
      rcases at_ with ⟨early,buffered,record⟩ | ⟨_,empty,_⟩
      · exact .inl ⟨early,by simpa only [point] using buffers buffered,record⟩
      · exact absurd empty cleared
  | persisting waiting call =>
      simp only [point] at at_ ⊢
      obtain ⟨count,found,zero,listed,buffered,record⟩ := at_
      exact ⟨count,found,zero,listed,by simpa only [point] using buffers buffered,record⟩
  | flushing last =>
      simp only [point] at at_ ⊢
      obtain ⟨all,ended,buffered,record⟩ := at_
      exact ⟨all,ended,by simpa only [point] using buffers buffered,record⟩
  | drained => simp only [point] at at_; exact absurd at_.2.1 cleared
  | writing call => simp only [point] at at_; exact absurd at_.2.1 cleared
  | closing => simp only [point] at at_; exact absurd at_.2.1 cleared
  | finished => simp only [point] at at_; exact absurd at_.2.1 cleared
  | failing message httpStatus => simp only [point] at at_

theorem only_writer {Writer : Type} {writers : List Writer} {writer found : Writer} {call : Nat} (only : writers = [writer])
    (there : writers[call]? = some found) : call = 0 ∧ found = writer := by
  rw [only] at there
  cases call with
  | zero =>
      cases there
      exact ⟨rfl,rfl⟩
  | succ call => cases there

theorem Written.advances (written : Written identity target events s.base) {call : Nat} {now : Int} {base : Background}
    (stepped : step identity target s.base (.advance call now) = some base) : Written identity target events base := by
  obtain ⟨writers,position,held⟩ := written
  cases step_took stepped with
  | advance _ _ response point found =>
      obtain ⟨rfl,same⟩ := only_writer writers found
      cases same
      exact ⟨by simp [writers,writeTerminalIfNotTerminal],position,held⟩

-- The one write in flight either stores the last response or leaves all as it was.
theorem Writing.advances (valid : Valid identity target parent input (fun response => response = final events) s.base)
    {call : Nat} {now : Int} {base : Background} (stepped : step identity target s.base (.advance call now) = some base)
    (record : Writing identity target events s.base ∨ Written identity target events s.base) :
    Writing identity target events base ∨ Written identity target events base := by
  cases step_took stepped with
  | advance _ _ response point found =>
      rcases record with ⟨at_,writers,going,placeholder,origin,given,held,open_⟩ | ⟨writers,position,held⟩
      · obtain ⟨rfl,same⟩ := only_writer writers found
        cases same
        unfold Background.held at held
        by_cases ends : (writeTerminalIfNotTerminal none identity now target (final events) s.base.store point).2 = .finished
        · refine .inr ⟨?_,?_⟩
          · simp [writers,ends]
          · have waits : ∀ other position, s.base.store.cells (key identity target) ≠ some (Ended other position) := by
              intro other position shown
              rw [held] at shown
              cases shown
            have nonterminal : ∀ other, s.base.store.cells (key identity target) =
                some (.value (.record (.background other parent input))) → isTerminal other = false := by
              intro other shown
              rw [held] at shown
              cases shown
              exact open_
            rcases valid.safe.finishes (List.mem_of_getElem? found) going now waits nonterminal ends with gone | stored
            · rw [held] at gone; cases gone
            · exact stored
        · refine .inl ⟨_,by simp [writers],ends,placeholder,origin,given,?_,open_⟩
          have kept := terminal_going valid.safe.timeless ends
          exact (congrArg (fun u : Store => u.cells (key identity target)) kept).trans held
      · exact .inr (Written.advances ⟨writers,position,held⟩ stepped)

theorem Playing.writes (playing : Playing identity target events parent input s) {call : Nat} {now : Int}
    {base : Background} (stepped : step identity target s.base (.advance call now) = some base) :
    Playing identity target events parent input {s with base} := by
  obtain ⟨valid,_⟩ := step_valid playing.valid (fun response other => by cases other) stepped
  have log := step_stream playing.valid stepped
  have writes := Writing.advances playing.valid stepped
  have written : Written identity target events s.base → Written identity target events base :=
    fun done => done.advances stepped
  have unwritten : ¬ Unwritten identity target s.base := by
    intro none
    simp [step,none.1] at stepped
  refine ⟨valid,playing.passed,?_,playing.readers⟩
  have at_ := playing.run
  unfold RunAt at at_ ⊢
  unfold Buffered Cleared at at_ ⊢
  simp only [Streaming.store,log] at at_ ⊢
  cases point : s.run.point with
  | draining =>
      simp only [point] at at_ ⊢
      rcases at_ with ⟨_,_,record,_⟩ | ⟨all,clear,⟨unfailed,ok,record⟩ | ⟨_,record⟩⟩
      · exact absurd record unwritten
      · exact .inr ⟨all,clear,.inl ⟨unfailed,ok,written record⟩⟩
      · exact absurd record unwritten
  | persisting waiting call =>
      simp only [point] at at_ ⊢
      obtain ⟨count,found,zero,listed,buffered,unfailed,record⟩ := at_
      exact ⟨count,found,zero,listed,buffered,unfailed,writes record⟩
  | flushing event =>
      simp only [point] at at_ ⊢
      obtain ⟨all,last,buffered,unfailed,⟨listed,record⟩ | ⟨_,record⟩⟩ := at_
      · exact ⟨all,last,buffered,unfailed,.inl ⟨listed,written record⟩⟩
      · exact absurd record unwritten
  | drained =>
      simp only [point] at at_ ⊢
      obtain ⟨all,clear,⟨unfailed,ok,record⟩ | ⟨_,record⟩⟩ := at_
      · exact ⟨all,clear,.inl ⟨unfailed,ok,written record⟩⟩
      · exact absurd record unwritten
  | writing call =>
      simp only [point] at at_ ⊢
      exact ⟨at_.1,at_.2.1,at_.2.2.1,writes at_.2.2.2⟩
  | closing => simp only [point] at at_ ⊢; exact ⟨at_.1,at_.2.1,written at_.2.2⟩
  | finished => simp only [point] at at_ ⊢; exact ⟨at_.1,at_.2.1,written at_.2.2⟩
  | failing message httpStatus => simp only [point] at at_

theorem Playing.reread (playing : Playing identity target events parent input s) (index : Nat) {reader : Reader}
    (at_ : ReaderAt events s.run.passed.length reader) :
    Playing identity target events parent input {s with readers := s.readers.set index reader} := by
  refine {playing with readers := ?_}
  intro other member
  rcases List.mem_or_eq_of_mem_set member with old | rfl
  · exact playing.readers other old
  · exact at_

theorem move_playing (playing : Playing identity target events parent input s) (script : Script target events)
    {taken : Move} (calm : undisturbed events s taken = true) {t : Streaming}
    (moved : move identity target s taken = some t) : Playing identity target events parent input t := by
  cases taken with
  | error message httpStatus => cases calm
  | undispatched => cases calm
  | abandon => cases calm
  | call call => cases calm
  | advance index stale now => cases calm
  | delete => cases calm
  | drop => cases calm
  | outage failed => cases calm
  | item event =>
      simp only [move] at moved
      split at moved
      · rename_i point
        split at moved
        · cases moved
          exact playing.takes script (by simpa [undisturbed] using calm) point
        · cases moved
      · cases moved
  | ends error =>
      have quiet : error = none ∧ s.run.passed = events := by
        simpa [undisturbed] using calm
      obtain ⟨rfl,all⟩ := quiet
      simp only [move] at moved
      split at moved
      · rename_i point
        cases moved
        refine ⟨playing.valid,playing.passed,?_,playing.readers⟩
        have at_ := playing.run
        simp only [RunAt,point] at at_
        rcases at_ with ⟨early,_⟩ | rest
        · rw [all] at early; exact absurd early (Nat.lt_irrefl _)
        · exact rest
      · cases moved
  | run now => exact playing.runs script moved
  | append now =>
      simp only [move] at moved
      split at moved
      · cases moved
      · rename_i event rest queue
        cases moved
        exact playing.appends script queue now
  | tail after =>
      cases moved
      have bounds : -1 ≤ after ∧ after + 1 < events.length := by
        simpa [undisturbed] using calm
      refine {playing with readers := ?_}
      intro reader member
      rcases List.mem_append.mp member with old | new
      · exact playing.readers reader old
      · rw [List.mem_singleton.mp new]
        refine ⟨(after + 1).toNat,by simp; omega,by omega,(after + 1).toNat,?_,Nat.le_refl _,by omega,?_⟩
        · simp; omega
        · simp
  | read index stale now =>
      have alive : stale = false := by simpa [undisturbed] using calm
      subst alive
      simp only [move] at moved
      split at moved
      · cases moved
      · rename_i reader found
        obtain ⟨⟨base,after⟩,stepped,rfl⟩ := Option.map_eq_some_iff.mp moved
        obtain ⟨rfl,_,at_⟩ := playing.tails script (List.mem_of_getElem? found) stepped
        exact playing.reread index at_
  | write call now =>
      obtain ⟨base,stepped,rfl⟩ := Option.map_eq_some_iff.mp moved
      exact playing.writes stepped
  | other action =>
      obtain ⟨base,stepped,rfl⟩ := Option.map_eq_some_iff.mp moved
      obtain ⟨valid,_⟩ := step_valid playing.valid (fun response other => by cases other) stepped
      obtain ⟨held,writers⟩ := other_record playing.valid stepped
      exact playing.rebase valid (step_stream playing.valid stepped) held writers

-- How many steps of its own a reader still has to make once the run is over.
def left (reader : Reader) : Nat :=
  match reader.point with
  | .yielding more => 5 + more.length
  | .polling => 4
  | .reading => 3
  | .announcing _ => if reader.after < 0 then 2 else 1
  | .writing _ _ | .discarding _ | .rereading _ | .finished => 0

theorem Playing.steps (playing : Playing identity target events parent input s) (script : Script target events)
    (ended : s.run.point = .finished) {reader : Reader} (member : reader ∈ s.readers)
    (going : reader.point ≠ .finished) (now : Int) :
    ∃ after, advanceReader identity target false now s.base reader = some (s.base,after) ∧ left after < left reader := by
  have at_ := playing.run
  simp only [RunAt,ended] at at_
  obtain ⟨_,⟨log,_⟩,_,position,ended⟩ := at_
  obtain ⟨start,_,_,shape⟩ := playing.readers reader member
  unfold advanceReader left
  cases point : reader.point with
  | finished => exact absurd point going
  | writing response call => rw [point] at shape; exact shape.elim
  | discarding response => rw [point] at shape; exact shape.elim
  | rereading response => rw [point] at shape; exact shape.elim
  | polling =>
      simp only [readStream_timeless playing.valid.safe.timeless,log,List.filter_nil,List.map_nil,List.filterMap_nil]
      exact ⟨_,rfl,by simp⟩
  | yielding more =>
      cases more with
      | nil => exact ⟨_,rfl,by simp⟩
      | cons event rest =>
          refine ⟨_,rfl,?_⟩
          by_cases last : rest = []
          · cases ofType terminalEventOrFailed event <;> simp [last]
          · simp [last]
  | reading =>
      rcases playing.reads now with ⟨placeholder,origin,given,_,_,held⟩ | ⟨place,read,_⟩
      · rw [ended] at held; cases held
      · simp only [read,Bool.and_false,Bool.false_eq_true,if_false]
        refine ⟨_,rfl,?_⟩
        simp only [settle,Record.response,final_terminal script,if_true]
        split <;> omega
  | announcing response =>
      simp only
      split
      · rename_i nothing
        refine ⟨_,rfl,?_⟩
        simp
      · exact ⟨_,rfl,by simp⟩

-- Once the run is over every reader ends, by its own steps alone.
theorem Playing.ends (playing : Playing identity target events parent input s) (script : Script target events)
    (ended : s.run.point = .finished) {index : Nat} {reader : Reader} (found : s.readers[index]? = some reader) (now : Int) :
    ∃ count t after, execute (move identity target) s (List.replicate count (.read index false now)) = some t ∧
      t.readers[index]? = some after ∧ after.point = .finished := by
  induction remaining : left reader using Nat.strong_induction_on generalizing s reader with
  | h remaining ih =>
      by_cases done : reader.point = .finished
      · exact ⟨0,s,reader,rfl,found,done⟩
      · have member := List.mem_of_getElem? found
        obtain ⟨after,stepped,fewer⟩ := playing.steps script ended member done now
        obtain ⟨_,_,at_⟩ := playing.tails script member stepped
        have moved : move identity target s (.read index false now) =
            some {s with readers := s.readers.set index after} := by
          simp only [move,found,stepped,Option.map_some]
        have there : (s.readers.set index after)[index]? = some after :=
          List.getElem?_set_self (List.getElem?_eq_some_iff.mp found).1
        obtain ⟨count,t,final,ran,last,finished⟩ :=
          ih (left after) (remaining ▸ fewer) (playing.reread index at_) ended there rfl
        exact ⟨count + 1,t,final,execute_cons.mpr ⟨_,moved,ran⟩,last,finished⟩

-- What a reader has been given is, at every moment, the beginning of what it ends with.
theorem ReaderAt.beginning (script : Script target events) {passed : Nat} {reader : Reader}
    (at_ : ReaderAt events passed reader) :
    ∃ start : Nat, reader.cursor + 1 = start ∧ start < events.length ∧
      (∃ rest, Tail events start (reader.yielded ++ rest)) ∧
      (reader.point = .finished → Tail events start reader.yielded) := by
  obtain ⟨start,cursor,first,shape⟩ := at_
  refine ⟨start,cursor,first,?_⟩
  have going : ∀ {seen}, Seen events reader start seen → ∃ rest, Tail events start (reader.yielded ++ rest) := by
    intro seen ahead
    refine ⟨events.drop seen,.inl ?_⟩
    have bound : start ≤ (events.take seen).length := by
      rw [List.length_take]
      have := ahead.order
      have := ahead.open_
      omega
    rw [ahead.yielded,← List.drop_append_of_le_length bound,List.take_append_drop]
  cases point : reader.point <;> rw [point] at shape
  case polling => obtain ⟨seen,ahead⟩ := shape; exact ⟨going ahead,fun other => by cases other⟩
  case reading => obtain ⟨seen,ahead⟩ := shape; exact ⟨going ahead,fun other => by cases other⟩
  case yielding more => obtain ⟨seen,stop,ahead,_⟩ := shape; exact ⟨going ahead,fun other => by cases other⟩
  case writing => exact shape.elim
  case discarding => exact shape.elim
  case rereading => exact shape.elim
  case finished => exact ⟨⟨[],by simpa using shape⟩,fun _ => shape⟩
  case announcing response =>
    refine ⟨?_,fun other => by cases other⟩
    obtain ⟨rfl,⟨seen,ahead⟩ | ⟨zero,_,yielded⟩⟩ := shape
    · exact going ahead
    · subst zero
      obtain ⟨ending,made,told⟩ := ending_announced script 0
      exact ⟨[ending],.inr ⟨0,ending,Nat.le_refl _,first,by simp only [if_true,made],told,by simp [yielded]⟩⟩

theorem launched_playing (identity target requestId : String) {clock sweepInterval : Int} (now : Int)
    {earlier : List Action} {base : Conversations}
    (reached : execute (next identity) (start clock sweepInterval) earlier = some base)
    (fresh : ∀ written ∈ base.turns, written.id ≠ target) (uuids : Nat → String) {placeholder : Json}
    (queued : placeholder.get "status" = .str "queued") (parent : Option Position) (input : List Json)
    (script : Script target events) :
    Playing identity target events parent (withIds uuids input)
      (streaming requestId (launched identity target now uuids placeholder parent input base)) := by
  refine ⟨launched_valid (runs_valid reached) fresh now uuids placeholder parent input _,by simp [streaming],?_,?_⟩
  · refine .inl ⟨List.length_pos_iff.mpr script.nonempty,⟨0,Nat.le_refl _,?_,rfl⟩,⟨rfl,placeholder,parent,withIds uuids input,?_,?_⟩,rfl⟩
    · exact launched_stream reached now uuids placeholder parent input
    · have cell := (MemoryStoreActor.set_timeless (runs_valid reached).timeless (key identity target)
        (.record (.background placeholder parent (withIds uuids input))) now).2 (key identity target)
      rw [if_pos rfl] at cell
      exact cell
    · simp [isTerminal,queued,terminalStatuses]
  · intro reader member; cases member

-- A reader of an undisturbed run misses nothing it sees the start of: it is given the
-- run's events behind its cursor, each once and in order, up to some point, and then
-- the run's own end or, where the buffer was dropped first, the one the record tells.
theorem background_replay (identity target requestId : String) (clock sweepInterval now : Int) {earlier : List Action}
    {base : Conversations} (reached : execute (next identity) (start clock sweepInterval) earlier = some base)
    (fresh : ∀ written ∈ base.turns, written.id ≠ target) (uuids : Nat → String) {placeholder : Json}
    (queued : placeholder.get "status" = .str "queued") (parent : Option Position) (input : List Json)
    {events : List Json} (script : Script target events) {moves : List Move} {s : Streaming}
    (calm : Meets (move identity target) (fun s taken => undisturbed events s taken = true)
      (streaming requestId (launched identity target now uuids placeholder parent input base)) moves)
    (ran : execute (move identity target)
      (streaming requestId (launched identity target now uuids placeholder parent input base)) moves = some s)
    {index : Nat} {reader : Reader} (found : s.readers[index]? = some reader) (later : Int) :
    (∃ start : Nat, reader.cursor + 1 = start ∧ start < events.length ∧
      (∃ rest, Tail events start (reader.yielded ++ rest)) ∧
      (reader.point = .finished → Tail events start reader.yielded)) ∧
    (s.run.point = .finished → ∃ count t after,
      execute (move identity target) s (List.replicate count (.read index false later)) = some t ∧
      t.readers[index]? = some after ∧ after.point = .finished) := by
  have playing := meets_invariant (fun s action t playing calm moved => move_playing playing script calm moved)
    (launched_playing identity target requestId now reached fresh uuids queued parent input script) calm ran
  refine ⟨(playing.readers reader (List.mem_of_getElem? found)).beginning script,?_⟩
  intro ended
  exact playing.ends script ended found later

def piece (number : Int) : Json := .obj [("type",.str "response.output_text.delta"),("sequence_number",.num number)]
def ended (number : Int) : Json :=
  .obj [("type",.str "response.completed"),("sequence_number",.num number),
    ("response",.obj [("id",.str "bg"),("status",.str "completed"),("output",.arr [])])]
def three : List Json := [piece 0,piece 1,ended 2]
def placeholder : Json := .obj [("id",.str "bg"),("status",.str "queued"),("background",.bool true)]
def opening : Streaming := streaming "req" (launched "u" "bg" 1 (fun _ => "0") placeholder none [] (start 0 1))

theorem three_script : Script "bg" three := by
  refine ⟨by decide,by decide,?_,?_⟩
  · intro i event found
    match i with
    | 0 | 1 | 2 => cases found; rfl
    | n + 3 => cases found
  · intro i event found
    match i with
    | 0 | 1 | 2 => cases found; decide
    | n + 3 => cases found

-- A reader resumed behind event 0 while the run goes on.
def resumed : List Move :=
  [.item (piece 0),.append 2,.tail 0,.item (piece 1),.append 3,.read 0 false 4,.read 0 false 4,
   .item (ended 2),.write 0 5,.write 0 5,.run 6,.append 6,.read 0 false 7,.read 0 false 7]

theorem background_replay_resumed :
    ∃ s reader, execute (move "u" "bg") opening resumed = some s ∧ s.readers[0]? = some reader ∧
      reader.point = .finished ∧ reader.yielded = [piece 1,ended 2] ∧ Tail three 1 reader.yielded := by
  obtain ⟨s,reader,ran,found,finished,yielded,cursor⟩ : ∃ s reader,
      execute (move "u" "bg") opening resumed = some s ∧ s.readers[0]? = some reader ∧
      reader.point = .finished ∧ reader.yielded = [piece 1,ended 2] ∧ reader.cursor = 0 :=
    ⟨_,_,rfl,rfl,rfl,rfl,rfl⟩
  have reached : execute (next "u") (start 0 1) [] = some (start 0 1) := rfl
  have calm : Meets (move "u" "bg") (fun s taken => undisturbed three s taken = true) opening resumed := by decide
  obtain ⟨⟨start,counted,_,_,tail⟩,_⟩ := background_replay "u" "bg" "req" 0 1 1 reached
    (fun written member => by cases member) (fun _ => "0") rfl none [] three_script calm ran found 0
  have one : start = 1 := by rw [cursor] at counted; omega
  exact ⟨s,reader,ran,found,finished,yielded,one ▸ tail finished⟩

-- A reader that polls only after the buffer was dropped is given two events, not the
-- run's three.
def belated : List Move :=
  [.item (piece 0),.item (piece 1),.item (ended 2),.write 0 2,.write 0 3,.run 4,.append 5,.append 6,.append 7,.run 8,
   .ends none,.run 9,.run 9,.tail (-1),.read 0 false 10,.read 0 false 10,.read 0 false 10,.read 0 false 10]

theorem replay_incomplete :
    ¬ ∀ moves s, Meets (move "u" "bg") (fun s taken => undisturbed three s taken = true) opening moves →
      execute (move "u" "bg") opening moves = some s → ∀ reader ∈ s.readers, reader.point = .finished →
      reader.yielded = three.drop (reader.cursor + 1).toNat := by
  intro always
  obtain ⟨s,reader,ran,member,finished,cursor,count⟩ : ∃ s reader,
      execute (move "u" "bg") opening belated = some s ∧ s.readers = [reader] ∧ reader.point = .finished ∧
      reader.cursor = -1 ∧ reader.yielded.length = 2 := ⟨_,_,rfl,rfl,rfl,rfl,rfl⟩
  have calm : Meets (move "u" "bg") (fun s taken => undisturbed three s taken = true) opening belated := by decide
  have whole := always belated s calm ran reader (by rw [member]; exact List.mem_cons_self) finished
  rw [whole,cursor] at count
  exact absurd count (by decide)

end Modelship.BackgroundReplay

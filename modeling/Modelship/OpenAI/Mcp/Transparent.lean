import Modelship.OpenAI.Brackets
import Modelship.OpenAI.Mcp.Limit

namespace Modelship.Mcp
open Foundation Responses

-- A turn none of whose calls is for an MCP server, as the outer stream shows it.

def numberedFrom (seq : Nat) : List Event → List (Nat × Event)
  | [] => []
  | event :: rest => (seq,event) :: numberedFrom (seq + 1) rest

theorem numberedFrom_append (seq : Nat) (earlier later : List Event) :
    numberedFrom seq (earlier ++ later) = numberedFrom seq earlier ++ numberedFrom (seq + earlier.length) later := by
  induction earlier generalizing seq with
  | nil => rfl
  | cons event rest ih =>
      rw [List.cons_append,numberedFrom,ih,numberedFrom,List.cons_append,List.length_cons,Nat.add_right_comm,Nat.add_assoc]

-- Whether a call was opened before its name was known.
def opensUnnamed (id : String) : Event → Bool
  | .added _ (.functionCall other _ name _ _) => other == id && name == ""
  | _ => false

def late (events : List Event) (id : String) : Bool := events.any (opensUnnamed id)

def isDone : Event → Bool
  | .done _ _ => true
  | _ => false

-- The events that stand in an event's place: those of a late call all stand where it is done.
def spread (events : List Event) (event : Event) : List Event :=
  match event.itemId with
  | none => [event]
  | some id => if late events id then (if isDone event then eventsOf id events else []) else [event]

def regrouped (events : List Event) : List Event := events.flatMap (spread events)

inductive ArgumentsPart (id : String) : Event → Prop where
  | delta (index : Nat) (text : String) : ArgumentsPart id (.part .argumentsDelta id index text)
  | done (index : Nat) (text : String) : ArgumentsPart id (.part .argumentsDone id index text)

-- The events of a call that no server has: it is opened, perhaps without its name, then fed and done.
inductive ClientCall (toolIndex : ToolIndex) (id : String) : List Event → Prop where
  | mk (index last : Nat) (callId first arguments : String) (status : Status) (parts : List Event)
      (doneId name told : String) (ended : Status) (fed : ∀ part ∈ parts, ArgumentsPart id part)
      (opened : first = "" ∨ toolIndex.get? first = none) (named : toolIndex.get? name = none) :
      ClientCall toolIndex id (.added index (.functionCall id callId first arguments status) :: parts ++
        [.done last (.functionCall id doneId name told ended)])

-- Every event passes through, or is one of such a call.
def ClientTurn (toolIndex : ToolIndex) (events : List Event) : Prop :=
  ∀ event ∈ events, Stitcher.through event = true ∨
    ∃ id, event.itemId = some id ∧ ClientCall toolIndex id (eventsOf id events)

section
variable {toolIndex : ToolIndex} {id : String} {events : List Event}

theorem part_unthrough {event : Event} (part : ArgumentsPart id event) : Stitcher.through event = false := by
  cases part <;> rfl

theorem ClientCall.unthrough (call : ClientCall toolIndex id events) : ∀ event ∈ events, Stitcher.through event = false := by
  cases call with
  | mk index last callId first arguments status parts doneId name told ended fed opened named =>
      intro event there
      rcases List.mem_append.mp there with before | here
      · rcases List.mem_cons.mp before with rfl | part
        · rfl
        · exact part_unthrough (fed event part)
      · rw [List.mem_singleton.mp here]
        rfl

theorem ClientCall.begun (call : ClientCall toolIndex id events) : events ≠ [] := by
  cases call with
  | mk => exact List.cons_ne_nil _ _

theorem mem_eventsOf {event : Event} (there : event ∈ events) (mentions : event.itemId = some id) :
    event ∈ eventsOf id events := List.mem_filter.mpr ⟨there,by simpa using mentions⟩

theorem late_opened (is_late : late events id = true) :
    ∃ event ∈ eventsOf id events, opensUnnamed id event = true := by
  obtain ⟨event,there,opens⟩ := List.any_eq_true.mp is_late
  refine ⟨event,mem_eventsOf there ?_,opens⟩
  unfold opensUnnamed at opens
  split at opens
  · rw [Bool.and_eq_true,beq_iff_eq] at opens
    rw [← opens.1]
    rfl
  · cases opens

theorem late_of_opened {event : Event} (there : event ∈ eventsOf id events) (opens : opensUnnamed id event = true) :
    late events id = true := List.any_eq_true.mpr ⟨event,(List.mem_filter.mp there).1,opens⟩

theorem unnamed_unthrough {event : Event} (opens : opensUnnamed id event = true) : Stitcher.through event = false := by
  unfold opensUnnamed at opens
  split at opens
  · rfl
  · cases opens

theorem spread_through (turn : ClientTurn toolIndex events) {event : Event} (there : event ∈ events)
    (passes : Stitcher.through event = true) : spread events event = [event] := by
  unfold spread
  split
  · rfl
  · rename_i id mentions
    rw [if_neg]
    intro is_late
    obtain ⟨opening,opened,unnamed⟩ := late_opened is_late
    obtain ⟨present,same⟩ := List.mem_filter.mp opened
    rcases turn opening present with through_ | ⟨other,also,call⟩
    · rw [unnamed_unthrough unnamed] at through_
      cases through_
    · have equal : some id = some other := (of_decide_eq_true same).symm.trans also
      cases equal
      have blocked := call.unthrough event (mem_eventsOf there mentions)
      rw [passes] at blocked
      cases blocked

-- Where an event of a call stands among the call's events.
inductive Stands (toolIndex : ToolIndex) (id : String) (events before : List Event) (event : Event) : Prop where
  | opens (index : Nat) (callId first arguments : String) (status : Status) (nothing : before = [])
      (is : event = .added index (.functionCall id callId first arguments status))
      (opened : first = "" ∨ toolIndex.get? first = none) (known : late events id = true ↔ first = "")
      (unfinished : before ++ [event] ≠ eventsOf id events)
  | feeds (begun : before ≠ []) (part : ArgumentsPart id event) (unfinished : before ++ [event] ≠ eventsOf id events)
  | ends (last : Nat) (doneId name told : String) (ended : Status) (begun : before ≠ [])
      (is : event = .done last (.functionCall id doneId name told ended)) (named : toolIndex.get? name = none)
      (whole : before ++ [event] = eventsOf id events)

theorem ClientCall.late_iff {index last : Nat} {callId first arguments : String} {status : Status} {parts : List Event}
    {doneId name told : String} {ended : Status} (fed : ∀ part ∈ parts, ArgumentsPart id part)
    (shape : eventsOf id events = .added index (.functionCall id callId first arguments status) :: parts ++
      [.done last (.functionCall id doneId name told ended)]) : late events id = true ↔ first = "" := by
  constructor
  · intro is_late
    obtain ⟨opening,opened,unnamed⟩ := late_opened is_late
    rw [shape] at opened
    rcases List.mem_append.mp opened with before | here
    · rcases List.mem_cons.mp before with rfl | part
      · simpa [opensUnnamed] using unnamed
      · cases fed opening part <;> cases unnamed
    · rw [List.mem_singleton.mp here] at unnamed
      cases unnamed
  · intro empty
    have opening : Event.added index (.functionCall id callId first arguments status) ∈ eventsOf id events := by
      rw [shape]
      exact List.mem_append_left _ List.mem_cons_self
    exact late_of_opened opening (by simp [opensUnnamed,empty])

theorem ClientCall.stands (call : ClientCall toolIndex id (eventsOf id events)) {before after : List Event} {event : Event}
    (split_ : eventsOf id events = before ++ event :: after) : Stands toolIndex id events before event := by
  generalize whole : eventsOf id events = all at call split_
  cases call with
  | mk index last callId first arguments status parts doneId name told ended fed opened named =>
      have known := ClientCall.late_iff fed whole
      cases before with
      | nil =>
          have same := (List.cons.inj split_).1
          refine .opens index callId first arguments status rfl same.symm opened known ?_
          intro only
          rw [whole] at only
          have lengths := congrArg List.length only
          simp at lengths
      | cons head earlier =>
          have rest : parts ++ [.done last (.functionCall id doneId name told ended)] = earlier ++ event :: after :=
            (List.cons.inj split_).2
          cases after with
          | nil =>
              obtain ⟨_,same⟩ := List.append_inj' rest rfl
              exact .ends last doneId name told ended (List.cons_ne_nil _ _) (List.cons.inj same).1.symm named
                (by rw [whole,split_])
          | cons next later =>
              refine .feeds (List.cons_ne_nil _ _) (fed event ?_) ?_
              · have cut := congrArg List.dropLast rest
                rw [List.dropLast_concat] at cut
                rw [cut,List.dropLast_append_of_ne_nil (List.cons_ne_nil _ _)]
                exact List.mem_append_right _ List.mem_cons_self
              · intro same
                rw [whole,split_] at same
                have lengths := congrArg List.length same
                simp at lengths

end

namespace Stitcher
section
variable (uuids : Uuids) {toolIndex : ToolIndex} {events before : List Event}
  {buffers : Dict String BufferedCall}

-- A stitcher that has passed events on, with the calls it buffers.
def relayed (start : Stitcher) (events : List Event) (buffers : Dict String BufferedCall) : Stitcher :=
  {start with
    seq := start.seq + events.length
    out := start.out ++ numberedFrom start.seq (events.map (shifted start.offset))
    buffers}

theorem relayed_stamp (start : Stitcher) (events : List Event) (buffers : Dict String BufferedCall) (event : Event) :
    (relayed start events buffers).stamp event = relayed start (events ++ [event]) buffers := by
  unfold relayed stamp emit
  simp [numberedFrom_append,numberedFrom,Nat.add_assoc]

theorem relayed_stamps (start : Stitcher) (events more : List Event) (buffers : Dict String BufferedCall) :
    more.foldl stamp (relayed start events buffers) = relayed start (events ++ more) buffers := by
  induction more generalizing events with
  | nil => rw [List.foldl_nil,List.append_nil]
  | cons event rest ih => rw [List.foldl_cons,relayed_stamp,ih,List.append_assoc,List.singleton_append]

-- What a buffer holds of a call: all its events, while it is late and not done, else nothing.
def Keeps (events before : List Event) (id : String) (buf : BufferedCall) : Prop :=
  if late events id = true ∧ eventsOf id before ≠ eventsOf id events then
    buf.classification = none ∧ buf.name = "" ∧ buf.rawEvents = eventsOf id before
  else buf.classification = some .client

def Buffered (toolIndex : ToolIndex) (events before : List Event) (buffers : Dict String BufferedCall) : Prop :=
  ∀ id, ClientCall toolIndex id (eventsOf id events) → eventsOf id before ≠ [] →
    ∃ buf, buffers.get? id = some buf ∧ Keeps events before id buf

theorem Buffered.nothing (events : List Event) (buffers : Dict String BufferedCall) : Buffered toolIndex events [] buffers := by
  intro id _ begun
  exact absurd rfl begun

-- An event of one call leaves the others' buffers.
theorem Buffered.sets {id : String} {event : Event} {now : Dict String BufferedCall} {buf : BufferedCall}
    (buffered : Buffered toolIndex events before buffers) (mentions : event.itemId = some id)
    (others : ∀ other, other ≠ id → now.get? other = buffers.get? other) (here : now.get? id = some buf)
    (keeps : Keeps events (before ++ [event]) id buf) : Buffered toolIndex events (before ++ [event]) now := by
  intro other call begun
  by_cases same : other = id
  · exact ⟨buf,same ▸ here,same ▸ keeps⟩
  · have apart : eventsOf other [event] = [] := by
      apply eventsOf_other
      intro one there also
      rw [List.mem_singleton.mp there,mentions] at also
      exact same (Option.some.inj also).symm
    have still : eventsOf other (before ++ [event]) = eventsOf other before := by
      rw [eventsOf_append,apart,List.append_nil]
    rw [still] at begun
    obtain ⟨kept,stored,held⟩ := buffered other call begun
    refine ⟨kept,(others other same).trans stored,?_⟩
    unfold Keeps at held ⊢
    rw [still]
    exact held

-- Nothing is buffered of an event that passes through.
theorem Buffered.passes {event : Event} (buffered : Buffered toolIndex events before buffers) (there : event ∈ events)
    (passes : through event = true) : Buffered toolIndex events (before ++ [event]) buffers := by
  intro id call begun
  have apart : eventsOf id [event] = [] := by
    apply eventsOf_other
    intro one only mentions
    rw [List.mem_singleton.mp only] at mentions
    have blocked := call.unthrough event (mem_eventsOf there mentions)
    rw [passes] at blocked
    cases blocked
  have still : eventsOf id (before ++ [event]) = eventsOf id before := by
    rw [eventsOf_append,apart,List.append_nil]
  rw [still] at begun
  obtain ⟨kept,stored,held⟩ := buffered id call begun
  refine ⟨kept,stored,?_⟩
  unfold Keeps at held ⊢
  rw [still]
  exact held

theorem flush_client {s : Stitcher} {buf : BufferedCall} (named : toolIndex.get? buf.name = none) :
    s.flush uuids toolIndex buf =
      .ok (buf.rawEvents.foldl stamp s,{buf with classification := some .client,spec := none,rawEvents := []}) := by
  unfold flush classify
  rw [named]

-- A call that opens: under its name it is known at once, without it it waits.
theorem added_steps (toolIndex : ToolIndex) {s : Stitcher} (running : s.innerFailedResponse = none) (index : Nat)
    (id callId first arguments : String) (status : Status) :
    (first = "" → s.step uuids toolIndex (.added index (.functionCall id callId first arguments status)) = .ok {s with
      buffers := s.buffers.set id ⟨none,[.added index (.functionCall id callId first arguments status)],none,"",first,"",none⟩}) ∧
    (first ≠ "" → toolIndex.get? first = none → ∃ buf, buf.classification = some .client ∧
      s.step uuids toolIndex (.added index (.functionCall id callId first arguments status)) =
        .ok {(s.stamp (.added index (.functionCall id callId first arguments status))) with
          buffers := s.buffers.set id buf}) := by
  rw [step_running running]
  simp only [read]
  refine ⟨?_,?_⟩
  · intro unnamed
    rw [if_pos unnamed]
  · intro called named
    rw [if_neg called,flush_client uuids named]
    exact ⟨_,rfl,rfl⟩

-- A part of a call: it goes out where the call is known, else it waits with the others.
theorem part_steps (toolIndex : ToolIndex) {s : Stitcher} {id : String} {event : Event} {buf : BufferedCall} (running : s.innerFailedResponse = none)
    (part : ArgumentsPart id event) (stored : s.buffers.get? id = some buf) :
    (buf.classification = some .client → s.step uuids toolIndex event = .ok (s.stamp event)) ∧
    (buf.classification = none → s.step uuids toolIndex event =
      .ok {s with buffers := s.buffers.set id {buf with rawEvents := buf.rawEvents ++ [event]}}) := by
  rw [step_running running]
  cases part with
  | delta index text | done index text =>
      refine ⟨?_,?_⟩
      · intro client
        simp only [read,stored,client]
      · intro waiting
        simp only [read,stored,waiting]

-- The event that ends a client's call goes out after all that still waits.
theorem done_steps {s : Stitcher} {id name : String} {buf : BufferedCall} (running : s.innerFailedResponse = none)
    (stored : s.buffers.get? id = some buf) (named : toolIndex.get? name = none) (last : Nat) (doneId told : String)
    (ended : Status) :
    (buf.classification = some .client → ∃ closed, closed.classification = some .client ∧
      s.step uuids toolIndex (.done last (.functionCall id doneId name told ended)) =
        .ok ({s with buffers := s.buffers.set id closed}.stamp (.done last (.functionCall id doneId name told ended)))) ∧
    (buf.classification = none → buf.name = "" → ∃ closed, closed.classification = some .client ∧
      s.step uuids toolIndex (.done last (.functionCall id doneId name told ended)) =
        .ok ({(buf.rawEvents.foldl stamp s) with buffers := (buf.rawEvents.foldl stamp s).buffers.set id closed}.stamp
          (.done last (.functionCall id doneId name told ended)))) := by
  rw [step_running running]
  simp only [read,stored]
  generalize renamed : (if name = "" then buf else {buf with name}) = now
  have fields : now.classification = buf.classification ∧ now.rawEvents = buf.rawEvents := by
    rw [← renamed]
    split <;> exact ⟨rfl,rfl⟩
  refine ⟨?_,?_⟩
  · intro client
    refine ⟨{now with arguments := told},fields.1.trans client,?_⟩
    rw [if_neg (by rw [fields.1,client]; exact Option.some_ne_none _)]
    simp only [fields.1,client,if_true]
  · intro waiting unnamed
    have called : now.name = name := by
      rw [← renamed]
      split
      · rename_i empty
        rw [unnamed,empty]
      · rfl
    refine ⟨{now with classification := some .client,spec := none,rawEvents := [],arguments := told},rfl,?_⟩
    rw [if_pos (fields.1.trans waiting),flush_client uuids (called.symm ▸ named)]
    simp only [fields.2,if_true]

-- One event more: what stands in its place has gone out.
theorem relayed_step {start : Stitcher} {event : Event} {after : List Event} (running : start.innerFailedResponse = none)
    (turn : ClientTurn toolIndex events) (split_ : events = before ++ event :: after)
    (buffered : Buffered toolIndex events before buffers) :
    ∃ now, (relayed start (before.flatMap (spread events)) buffers).step uuids toolIndex event =
      .ok (relayed start ((before ++ [event]).flatMap (spread events)) now) ∧
      Buffered toolIndex events (before ++ [event]) now := by
  have there : event ∈ events := by
    rw [split_]
    exact List.mem_append_right _ List.mem_cons_self
  have whole : (before ++ [event]).flatMap (spread events) = before.flatMap (spread events) ++ spread events event := by
    rw [List.flatMap_append,List.flatMap_cons,List.flatMap_nil,List.append_nil]
  rw [whole]
  have going : (relayed start (before.flatMap (spread events)) buffers).innerFailedResponse = none := running
  rcases turn event there with passes | ⟨id,mentions,call⟩
  · refine ⟨buffers,?_,buffered.passes there passes⟩
    rw [step_through going passes,relayed_stamp,spread_through turn there passes]
  · have told : eventsOf id events = eventsOf id before ++ event :: eventsOf id after := by
      conv_lhs => rw [split_]
      rw [eventsOf_append]
      unfold eventsOf
      rw [List.filter_cons_of_pos (by simpa using mentions)]
    have short : eventsOf id before ≠ eventsOf id events := by
      intro same
      have lengths := congrArg List.length (same.trans told)
      simp at lengths
    have next : eventsOf id (before ++ [event]) = eventsOf id before ++ [event] := by
      rw [eventsOf_append]
      unfold eventsOf
      rw [List.filter_cons_of_pos (by simpa using mentions),List.filter_nil]
    have placed : spread events event =
        if late events id then (if isDone event then eventsOf id events else []) else [event] := by
      unfold spread
      rw [mentions]
    have sets : ∀ buf, Keeps events (before ++ [event]) id buf →
        Buffered toolIndex events (before ++ [event]) (buffers.set id buf) := by
      intro buf keeps
      refine buffered.sets mentions ?_ (Dict.get_set_self _ _ _) keeps
      intro other apart
      rw [Dict.get_set,if_neg (fun same => apart same.symm)]
    cases call.stands told with
    | opens index callId first arguments status nothing is opened known unfinished =>
        subst is
        obtain ⟨waits,goes⟩ := added_steps uuids toolIndex going index id callId first arguments status
        by_cases unnamed : first = ""
        · rw [if_pos (known.mpr unnamed)] at placed
          refine ⟨_,?_,sets ⟨none,[.added index (.functionCall id callId first arguments status)],none,"",first,"",none⟩ ?_⟩
          · rw [waits unnamed,placed]
            exact congrArg (fun more => Except.ok (relayed start more _)) (List.append_nil _).symm
          · unfold Keeps
            rw [if_pos ⟨known.mpr unnamed,next ▸ unfinished⟩,next,nothing]
            exact ⟨rfl,unnamed,rfl⟩
        · obtain ⟨buf,client,went⟩ := goes unnamed (opened.resolve_left unnamed)
          rw [if_neg (fun is_late => unnamed (known.mp is_late))] at placed
          refine ⟨_,?_,sets buf ?_⟩
          · rw [went,relayed_stamp,placed]
            rfl
          · unfold Keeps
            rw [if_neg (fun both => unnamed (known.mp both.1))]
            exact client
    | feeds begun part unfinished =>
        obtain ⟨buf,stored,held⟩ := buffered id call begun
        obtain ⟨goes,waits⟩ := part_steps uuids toolIndex going part stored
        have open_ : isDone event = false := by cases part <;> rfl
        unfold Keeps at held
        by_cases is_late : late events id = true
        · rw [if_pos ⟨is_late,short⟩] at held
          obtain ⟨waiting,unnamed,raw⟩ := held
          rw [if_pos is_late,open_] at placed
          refine ⟨_,?_,sets {buf with rawEvents := buf.rawEvents ++ [event]} ?_⟩
          · rw [waits waiting,placed]
            exact congrArg (fun more => Except.ok (relayed start more _)) (List.append_nil _).symm
          · unfold Keeps
            rw [if_pos ⟨is_late,next ▸ unfinished⟩,next,← raw]
            exact ⟨waiting,unnamed,rfl⟩
        · rw [if_neg (fun both => is_late both.1)] at held
          rw [if_neg is_late] at placed
          refine ⟨buffers,?_,?_⟩
          · rw [goes held,relayed_stamp,placed]
          · refine buffered.sets mentions (fun _ _ => rfl) stored ?_
            unfold Keeps
            rw [if_neg (fun both => is_late both.1)]
            exact held
    | ends last doneId name told_ ended begun is named all =>
        obtain ⟨buf,stored,held⟩ := buffered id call begun
        subst is
        obtain ⟨goes,waits⟩ := done_steps uuids going stored named last doneId told_ ended
        have client_keeps : ∀ closed : BufferedCall, closed.classification = some .client →
            Keeps events (before ++ [.done last (.functionCall id doneId name told_ ended)]) id closed := by
          intro closed client
          unfold Keeps
          rw [if_neg (fun both => both.2 (next.trans all))]
          exact client
        unfold Keeps at held
        by_cases is_late : late events id = true
        · rw [if_pos ⟨is_late,short⟩] at held
          obtain ⟨waiting,unnamed,raw⟩ := held
          obtain ⟨closed,client,went⟩ := waits waiting unnamed
          rw [if_pos is_late,if_pos (show isDone (.done last (.functionCall id doneId name told_ ended)) = true from rfl)] at placed
          refine ⟨_,?_,sets closed (client_keeps closed client)⟩
          rw [went,raw,relayed_stamps,placed,← all,← List.append_assoc]
          exact congrArg Except.ok (relayed_stamp start _ _ _)
        · rw [if_neg (fun both => is_late both.1)] at held
          rw [if_neg is_late] at placed
          obtain ⟨closed,client,went⟩ := goes held
          refine ⟨_,?_,sets closed (client_keeps closed client)⟩
          rw [went,placed]
          exact congrArg Except.ok (relayed_stamp start _ _ _)

-- A whole turn: every call is known to be the client's, and all its events have gone out.
theorem relayed_steps {start : Stitcher} (running : start.innerFailedResponse = none) (turn : ClientTurn toolIndex events) :
    ∃ now, steps uuids toolIndex events start = .ok (relayed start (regrouped events) now) ∧
      Buffered toolIndex events events now := by
  have from_ : ∀ (after before : List Event) (buffers : Dict String BufferedCall), events = before ++ after →
      Buffered toolIndex events before buffers →
      ∃ now, steps uuids toolIndex after (relayed start (before.flatMap (spread events)) buffers) =
        .ok (relayed start (regrouped events) now) ∧ Buffered toolIndex events events now := by
    intro after
    induction after with
    | nil =>
        intro before buffers split_ buffered
        rw [List.append_nil] at split_
        subst split_
        exact ⟨buffers,rfl,buffered⟩
    | cons event rest ih =>
        intro before buffers split_ buffered
        obtain ⟨now,stepped,kept⟩ := relayed_step uuids running turn split_ buffered
        obtain ⟨last,ran,all⟩ := ih (before ++ [event]) now (by rw [split_,List.append_assoc,List.singleton_append]) kept
        refine ⟨last,?_,all⟩
        simp only [steps,stepped]
        exact ran
  have begins : start = relayed start [] start.buffers := by
    unfold relayed
    simp [numberedFrom]
  obtain ⟨now,ran,all⟩ := from_ events [] start.buffers rfl (.nothing events _)
  refine ⟨now,?_,all⟩
  conv_lhs => rw [begins]
  exact ran

end
end Stitcher

section
variable {inner : Uuids} {toolIndex : ToolIndex}

-- After its two opening events a stream tells of its items alone.
def Opens (t : Translator) : Prop :=
  ∃ one two said, t.events = .envelope .created one :: .envelope .inProgress two :: said ∧
    ∀ event ∈ said, event.itemId ≠ none

theorem Opens.grows {t u : Translator} {new : List Event} (opens : Opens t) (told : u.events = t.events ++ new)
    (mention : ∀ event ∈ new, event.itemId ≠ none) : Opens u := by
  obtain ⟨one,two,said,events,items⟩ := opens
  refine ⟨one,two,said ++ new,by rw [told,events]; rfl,?_⟩
  intro event there
  rcases List.mem_append.mp there with before | added
  · exact items event before
  · exact mention event added

theorem translate_opens (inner : Uuids) (responseId : String) (chunks : List Chunk) :
    Opens (Translator.translate inner responseId chunks) := by
  refine @Translator.translate_traced inner (fun _ t => Opens t) ?_ ?_ responseId ?_ chunks
  · intro pieces t piece opens
    have speaks : ∀ (item : OpenTool) (event : Event), event ∈ piece.said.toList.map (piece.channel.delta item) →
        event.itemId ≠ none := by
      intro item event there
      obtain ⟨text,_,rfl⟩ := List.mem_map.mp there
      rw [Brackets.delta_id]
      nofun
    cases t.onPiece_takes piece with
    | opens drawn item absent later minted id index next name silent now told =>
        apply opens.grows told
        intro event there
        rcases List.mem_append.mp there with first | said
        · rw [Brackets.opening_ids _ _ event first]
          nofun
        · exact speaks item event said
    | feeds item found minted next now told => exact opens.grows told (speaks item)
  · intro pieces t usage finishReason opens
    exact opens
  · exact ⟨_,_,[],rfl,fun _ there => absurd there List.not_mem_nil⟩

-- The events of an item that is no call pass through.
theorem channel_through {channel : Channel} (first item : OpenTool) (texts : List String)
    (other : ∀ index, channel ≠ .tool index) : ∀ event ∈ channel.opening first ++ texts.map (channel.delta item) ++
      channel.closing item, Stitcher.through event = true := by
  cases channel with
  | reasoning | content =>
      simp only [List.forall_mem_append,Channel.opening,Channel.closing,Channel.opened,Channel.ended]
      refine ⟨⟨by simp [Stitcher.through,Stitcher.isFunctionCall],?_⟩,by simp [Stitcher.through],
        by simp [Stitcher.through,Stitcher.isFunctionCall]⟩
      intro event there
      obtain ⟨text,_,rfl⟩ := List.mem_map.mp there
      rfl
  | tool index => exact absurd rfl (other index)

theorem statusFor_cases (finishReason : Option String) :
    Translator.statusFor finishReason = (.completed,none) ∨ (Translator.statusFor finishReason).1 = .incomplete := by
  unfold Translator.statusFor
  split
  · exact .inr rfl
  · exact .inr rfl
  · exact .inl rfl

-- `response.completed` tells of a response that is whole.
theorem finish_told (t : Translator) : ∃ kind told, (kind = Envelope.completed ∨ kind = Envelope.incomplete) ∧
    (kind = .completed → told.status = .completed ∧ told.incomplete = none) ∧ told.output = t.collectOutput ∧
    t.finish.out.map (·.2) =
      t.out.map (·.2) ++ (t.closingTexts ++ t.sorted.flatMap Translator.closingTool) ++ [.envelope kind told] := by
  have events : t.finish.out.map (·.2) = t.out.map (·.2) ++ (t.closingTexts ++ t.sorted.flatMap Translator.closingTool) ++
      [.envelope (if (Translator.statusFor t.finishReason).1 = .incomplete then .incomplete else .completed)
        ⟨t.closeAll.responseId,(Translator.statusFor t.finishReason).1,t.collectOutput,t.usage,
          (Translator.statusFor t.finishReason).2,none⟩] := by
    rw [← Translator.closeAll_events]
    unfold Translator.finish Translator.envelope Translator.event
    simp only [List.map_append,List.map_cons,List.map_nil]
  rcases statusFor_cases t.finishReason with whole | cut
  · rw [whole] at events
    exact ⟨.completed,_,.inl rfl,fun _ => ⟨rfl,rfl⟩,rfl,events⟩
  · rw [if_pos cut] at events
    exact ⟨.incomplete,_,.inr rfl,nofun,rfl,events⟩

-- A finished stream whose calls are all the client's, between its envelopes.
theorem finish_client {responseId : String} {chunks : List Chunk}
    (client : ∀ tool ∈ (Translator.translate inner responseId chunks).sorted, toolIndex.get? tool.name = none) :
    ∃ one two middle kind told, (Translator.translate inner responseId chunks).finish.out.map (·.2) =
      .envelope .created one :: .envelope .inProgress two :: middle ++ [.envelope kind told] ∧
      (kind = .completed ∨ kind = .incomplete) ∧ (kind = .completed → told.status = .completed ∧ told.incomplete = none) ∧
      told.output = (Translator.translate inner responseId chunks).collectOutput ∧ ClientTurn toolIndex middle ∧
      ∀ tool ∈ (Translator.translate inner responseId chunks).sorted, ClientCall toolIndex tool.id (eventsOf tool.id middle) := by
  have brackets := translate_brackets inner responseId chunks
  have announced := translate_announced inner responseId chunks
  obtain ⟨one,two,said,opening,items⟩ := translate_opens inner responseId chunks
  generalize Translator.translate inner responseId chunks = t at *
  generalize chunks.flatMap Chunk.pieces = pieces at brackets
  obtain ⟨kind,told,terminal,whole_,output,events⟩ := finish_told t
  rw [t.closing_open] at events
  -- all that the stream has of an item
  have whole : ∀ channel item, t.view channel = some item → ∃ first : OpenTool, first.id = item.id ∧
      (∀ event ∈ channel.opening first, event ∈ t.events) ∧
      eventsOf item.id (said ++ t.openItems.flatMap fun entry => entry.1.closing entry.2) =
        channel.opening first ++ (heard channel pieces).map (channel.delta item) ++ channel.closing item := by
    intro channel item found
    obtain ⟨first,id,_,_,before⟩ := (brackets.opened channel item found).told
    have same : eventsOf item.id said = eventsOf item.id t.events := by
      rw [opening]
      rfl
    refine ⟨first,id,?_,?_⟩
    · intro event there
      have present : event ∈ eventsOf item.id t.events := by
        rw [before]
        exact List.mem_append_left _ there
      exact (List.mem_filter.mp present).1
    · rw [eventsOf_append,same,before,eventsOf_closing brackets.distinct_ids (t.mem_openItems.mpr found)]
  have calls : ∀ key item, t.view (.tool key) = some item → ClientCall toolIndex item.id
      (eventsOf item.id (said ++ t.openItems.flatMap fun entry => entry.1.closing entry.2)) := by
    intro key item found
    obtain ⟨first,id,present,shape⟩ := whole (.tool key) item found
    have listed : item ∈ t.sorted := Translator.mem_sorted.mpr ⟨key,Dict.get_some_mem found⟩
    have opened : first.name = "" ∨ toolIndex.get? first.name = none := by
      by_cases empty : first.name = ""
      · exact .inl empty
      · obtain ⟨entry,there,same⟩ := announced _ (present _ List.mem_cons_self) empty
        right
        rw [← same]
        exact client entry.2 (Translator.mem_sorted.mpr ⟨entry.1,there⟩)
    have called : eventsOf item.id (said ++ t.openItems.flatMap fun entry => entry.1.closing entry.2) =
        .added first.index (.functionCall item.id first.callId first.name "" .inProgress) ::
          ((heard (.tool key) pieces).map ((Channel.tool key).delta item) ++
            [.part .argumentsDone item.id item.index item.arguments]) ++
          [.done item.index (.functionCall item.id item.callId item.name item.arguments .completed)] := by
      rw [shape]
      simp [Channel.opening,Channel.opened,Channel.closing,Channel.ended,id]
    rw [called]
    refine .mk _ _ _ _ _ _ _ _ _ _ _ ?_ opened (client item listed)
    intro part there
    rcases List.mem_append.mp there with delta | last
    · obtain ⟨text,_,rfl⟩ := List.mem_map.mp delta
      exact .delta _ _
    · rw [List.mem_singleton.mp last]
      exact .done _ _
  have mentioned : ∀ event ∈ said ++ t.openItems.flatMap fun entry => entry.1.closing entry.2,
      ∃ channel item, t.view channel = some item ∧ event.itemId = some item.id := by
    intro event there
    rcases List.mem_append.mp there with before | closing
    · cases mentions : event.itemId with
      | none => exact absurd mentions (items event before)
      | some id =>
          have present : event ∈ t.events := by
            rw [opening]
            exact List.mem_cons_of_mem _ (List.mem_cons_of_mem _ before)
          obtain ⟨channel,item,found,rfl⟩ := brackets.mentioned event present id mentions
          exact ⟨channel,item,found,rfl⟩
    · obtain ⟨entry,open_,closes⟩ := List.mem_flatMap.mp closing
      exact ⟨entry.1,entry.2,t.mem_openItems.mp open_,entry.1.closing_ids entry.2 event closes⟩
  refine ⟨one,two,said ++ t.openItems.flatMap fun entry => entry.1.closing entry.2,kind,told,?_,terminal,whole_,output,?_,?_⟩
  · rw [events,show t.out.map (·.2) = _ from opening]
    simp only [List.cons_append,List.append_assoc]
  · intro event there
    obtain ⟨channel,item,found,mentions⟩ := mentioned event there
    by_cases tool : ∃ key, channel = .tool key
    · obtain ⟨key,rfl⟩ := tool
      exact .inr ⟨item.id,mentions,calls key item found⟩
    · left
      obtain ⟨first,_,_,shape⟩ := whole channel item found
      have listed := mem_eventsOf there mentions
      rw [shape] at listed
      exact channel_through first item _ (fun key same => tool ⟨key,same⟩) event listed
  · intro tool listed
    obtain ⟨key,there⟩ := Translator.mem_sorted.mp listed
    exact calls key tool (Dict.mem_get_some there)

-- What such a turn leaves: its events have gone out, and it reports its whole output.
structure Passed (start : Stitcher) (sent : List Event) (told : Response) (s : Stitcher) : Prop where
  pending : s.pendingMcpCalls = []
  failed : s.innerFailedResponse = none
  output : s.turnOutput = (told.output.zipIdx start.offset).map fun (item,index) => (index,item)
  usage : s.usageTotal = sumUsage start.usageTotal told.usage
  seq : s.seq = start.seq + sent.length
  out : s.out = start.out ++ numberedFrom start.seq (sent.map (Stitcher.shifted start.offset))

theorem finish_passed (uuids : Uuids) {responseId : String} {chunks : List Chunk} (start : Stitcher)
    (client : ∀ tool ∈ (Translator.translate inner responseId chunks).sorted, toolIndex.get? tool.name = none) :
    ∃ one two middle kind told s, (Translator.translate inner responseId chunks).finish.out.map (·.2) =
      .envelope .created one :: .envelope .inProgress two :: middle ++ [.envelope kind told] ∧
      (kind = .completed → told.status = .completed ∧ told.incomplete = none) ∧
      start.runTurn uuids toolIndex ((Translator.translate inner responseId chunks).finish.out.map (·.2)) = .ok s ∧
      Passed start (regrouped middle) told s := by
  obtain ⟨one,two,middle,kind,told,events,terminal,whole,output,turn,calls⟩ := finish_client client
  obtain ⟨now,ran,buffered⟩ := Stitcher.relayed_steps uuids (show (fresh start).innerFailedResponse = none from rfl) turn
  have own_ : ∀ item ∈ told.output, Stitcher.plain now item = true := by
    intro item there
    rw [output] at there
    unfold Translator.collectOutput at there
    rcases List.mem_append.mp there with text | call
    · rcases List.mem_append.mp text with thought | said
      · obtain ⟨_,_,rfl⟩ := List.mem_map.mp thought
        rfl
      · obtain ⟨_,_,rfl⟩ := List.mem_map.mp said
        rfl
    · obtain ⟨tool,listed,rfl⟩ := List.mem_map.mp call
      have known := calls tool listed
      obtain ⟨buf,stored,held⟩ := buffered tool.id known known.begun
      unfold Stitcher.Keeps at held
      rw [if_neg (fun both => both.2 rfl)] at held
      simp only [Stitcher.plain,Translator.closedTool,stored,held,decide_true]
  have ended : ((fresh start).relayed (regrouped middle) now).step uuids toolIndex (.envelope kind told) =
      .ok (((fresh start).relayed (regrouped middle) now).absorb told) := by
    rw [Stitcher.step_running rfl]
    rcases terminal with rfl | rfl <;> rfl
  have absorbed : Passed start (regrouped middle) told (((fresh start).relayed (regrouped middle) now).absorb told) := by
    have kept : told.output.zipIdx start.offset =
        (told.output.zipIdx start.offset).filter fun (item,_) => Stitcher.plain now item := by
      refine (List.filter_eq_self.mpr ?_).symm
      intro entry there
      exact own_ entry.1 ((List.mem_zipIdx there).2.2 ▸ List.getElem_mem _)
    refine ⟨rfl,rfl,?_,rfl,rfl,rfl⟩
    rw [kept]
    rfl
  refine ⟨one,two,middle,kind,told,_,events,whole,?_,absorbed⟩
  rw [events]
  exact Stitcher.steps_append.mpr ⟨_,ran,Stitcher.steps_single.mpr ended⟩

theorem fill_next (slots : List (Option Item)) (output : List Item) :
    fill (slots ++ List.replicate output.length none) ((output.zipIdx slots.length).map fun (item,index) => (index,item)) =
      slots ++ output.map some := by
  induction output generalizing slots with
  | nil => rfl
  | cons item rest ih =>
      have first : (slots ++ List.replicate (rest.length + 1) none).set slots.length (some item) =
          (slots ++ [some item]) ++ List.replicate rest.length none := by
        rw [List.replicate_succ,List.set_append_right _ _ (Nat.le_refl _),Nat.sub_self,List.set_cons_zero,List.append_assoc,
          List.singleton_append]
      have later := ih (slots ++ [some item])
      rw [List.length_append,List.length_singleton] at later
      rw [List.zipIdx_cons,List.map_cons,List.length_cons]
      unfold fill at later ⊢
      rw [List.foldl_cons,first,later,List.append_assoc]
      rfl

end

-- Where every call is opened under its name, nothing is moved.
theorem regrouped_prompt {events : List Event} (prompt : ∀ id, late events id = false) : regrouped events = events := by
  unfold regrouped
  have alone : spread events = fun event => [event] := by
    funext event
    unfold spread
    split
    · rfl
    · rename_i id _
      rw [prompt id]
      rfl
  rw [alone,List.flatMap_singleton']

section
variable {env : Environment}

theorem resume_none {specs : List McpToolSpec} {found : Found} {items rest : List Json} {r : Run}
    (none_ : rest.any approvalResponse = false) : resume env specs found items r rest = .inl r := by
  induction rest with
  | nil => rfl
  | cons item rest ih =>
      rw [List.any_cons,Bool.or_eq_false_iff] at none_
      rw [resume,if_pos none_.1]
      exact ih none_.2

-- An input with no approval goes straight to the turns, as long as its requests can be indexed.
theorem resumeAll_none {specs : List McpToolSpec} {found : Found} {items : List Json} {r : Run}
    (indexed : indexable items = true) (none_ : items.any approvalResponse = false) :
    resumeAll env specs found items r = .inl r := by
  unfold resumeAll
  rw [if_pos indexed]
  exact resume_none none_

-- Discovery adds nothing to the usage, and numbers its events.
theorem discover_usage {r u : Run} {spec : McpToolSpec} {tools : List ListedTool}
    (found : discover env r spec = .inl (u,tools)) : u.stitcher.usageTotal = r.stitcher.usageTotal := by
  unfold discover at found
  dsimp only at found
  split at found
  · cases found
  · split at found
    · cases found
    · cases found
      rfl

theorem discoverAll_usage {specs : List McpToolSpec} {r u : Run} {before after : Found}
    (found : discoverAll env r before specs = .inl (u,after)) : u.stitcher.usageTotal = r.stitcher.usageTotal := by
  induction specs generalizing r before with
  | nil =>
      cases found
      rfl
  | cons spec rest ih =>
      unfold discoverAll at found
      split at found
      · cases found
      · exact ih found
      · split at found
        · cases found
        · rename_i asked
          exact (ih found).trans (discover_usage asked)

-- Where the turns start: the slots are those of the discovery items, and the events are numbered.
theorem discovered_items {request : Request} {specs : List McpToolSpec} {r : Run} {found : Found}
    (discovered : discoverAll env (started env) ⟨[],.empty⟩ specs = .inl (r,found))
    (none_ : request.input.any approvalResponse = false) :
    ∃ items, Agrees r items ∧ r.stitcher.offset = items.length ∧ r.stitcher.seq = r.stitcher.out.length ∧
      r.stitcher.usageTotal = none := by
  obtain ⟨level,_,items,agrees⟩ := before_turns discovered (resume_none none_)
  have slots : ∀ (r : Run) (item : Item) (u : Run), r.stitcher.out.map (·.1) = List.range r.stitcher.seq → Slotted r item u →
      u.stitcher.out.map (·.1) = List.range u.stitcher.seq := fun r item u counted slotted => slotted.counted counted
  have counted := discoverAll_keeps slots (show (started env).stitcher.out.map (·.1) = List.range 2 from rfl) discovered
  refine ⟨items,agrees,?_,?_,discoverAll_usage discovered⟩
  · rw [← level.length,agrees.built,List.length_map]
  · have length := congrArg List.length counted
    rw [List.length_map,List.length_range] at length
    exact length.symm

-- A turn with no call for a server ends the loop, with its items behind those before.
theorem turn_client {toolIndex : ToolIndex} {inner : Uuids} {responseId : String} {chunks : List Chunk} {r : Run}
    {items : List Item} (maxToolCalls : Option Int) (count : Nat) (first : env.inner 0 = .stream inner responseId chunks .finished)
    (client : ∀ tool ∈ (Translator.translate inner responseId chunks).sorted, toolIndex.get? tool.name = none)
    (built : r.accumulator = items.map some) (offset : r.stitcher.offset = items.length) :
    ∃ one two middle kind told u, (Translator.translate inner responseId chunks).finish.out.map (·.2) =
      .envelope .created one :: .envelope .inProgress two :: middle ++ [.envelope kind told] ∧
      (kind = .completed → told.status = .completed ∧ told.incomplete = none) ∧
      turn env toolIndex maxToolCalls 0 count r = .inl (u,.reached .completed none) ∧
      u.accumulator = (items ++ told.output).map some ∧ Passed r.stitcher (regrouped middle) told u.stitcher := by
  obtain ⟨one,two,middle,kind,told,s,events,whole,ran,passed⟩ := finish_passed env.uuids r.stitcher client
  have taken : takeOver env {r with stitcher := s} =
      {r with
        stitcher := s
        accumulator := (items ++ told.output).map some
        placed := r.placed ++ s.turnOutput
        turns := r.turns + 1} := by
    have length : s.turnOutput.length = told.output.length := by rw [passed.output,List.length_map,List.length_zipIdx]
    have slots : r.stitcher.offset = r.accumulator.length := by rw [offset,built,List.length_map]
    unfold takeOver
    simp only [places_carried,passed.pending,List.foldl_nil,List.length_nil,Nat.add_zero,length]
    rw [passed.output,slots,fill_next,built,← List.map_append]
  refine ⟨one,two,middle,kind,told,takeOver env {r with stitcher := s},events,whole,?_,?_,?_⟩
  · unfold turn
    rw [first]
    simp only [streamed,ran,passed.failed,passed.pending,List.isEmpty_nil,Bool.or_true,if_true]
  · rw [taken]
  · rw [taken]
    exact passed

-- The outer stream of a response whose first turn calls no discovered tool: after the discovery
-- events, the inner events with those of each call opened without its name gathered where it is
-- done, their indices moved behind the discovery items; then the terminal event.
theorem client_turn_passes {request : Request} {specs : List McpToolSpec} {otherTools : List Json} {r : Run} {found : Found}
    {inner : Uuids} {responseId : String} {chunks : List Chunk} (checked : preChecks env request = .ok (specs,otherTools))
    (discovered : discoverAll env (started env) ⟨[],.empty⟩ specs = .inl (r,found))
    (apart : checkCollisions specs found.discovered otherTools = .ok ())
    (none_ : request.input.any approvalResponse = false) (indexed : indexable request.input = true)
    (first : env.inner 0 = .stream inner responseId chunks .finished)
    (client : ∀ name ∈ calledNames ((Translator.translate inner responseId chunks).finish.out.map (·.2)),
      found.toolIndex.get? name = none) :
    ∃ items one two middle kind told u terminal status incomplete, Agrees r items ∧
      (Translator.translate inner responseId chunks).finish.out.map (·.2) =
        .envelope .created one :: .envelope .inProgress two :: middle ++ [.envelope kind told] ∧
      events env request = (u,.reached status incomplete) ∧
      u.stitcher.out = r.stitcher.out ++ numberedFrom r.stitcher.out.length
        ((regrouped middle).map (Stitcher.shifted items.length) ++
          [.envelope terminal ⟨env.responseId,status,items ++ told.output,told.usage,incomplete,none⟩]) ∧
      (kind = .completed → terminal = kind ∧ status = told.status ∧ incomplete = told.incomplete) := by
  obtain ⟨items,agrees,offset,seq,usage⟩ := discovered_items discovered none_
  have called : ∀ tool ∈ (Translator.translate inner responseId chunks).sorted, found.toolIndex.get? tool.name = none := by
    intro tool listed
    apply client
    rw [translate_calledNames]
    exact List.mem_map.mpr ⟨tool,listed,rfl⟩
  obtain ⟨one,two,middle,kind,told,u,opened,whole,ended,built,passed⟩ :=
    turn_client request.maxToolCalls 0 first called agrees.built offset
  have driven : drive env request = (u,.reached .completed none) := by
    unfold drive
    simp only [checked,discovered,apart,resumeAll_none indexed none_]
    unfold defaultTurnCap
    rw [turnLoop,show defaultTurnCap - (9 + 1) = 0 from rfl,ended]
  refine ⟨items,one,two,middle,kind,told,u.emit (.envelope .completed (response env u .completed (items ++ told.output) none none)),
    .completed,.completed,none,agrees,opened,?_,?_,?_⟩
  · unfold events
    rw [driven]
    simp only [built,mapM_some,if_true]
  · have last : (response env u .completed (items ++ told.output) none none) =
        ⟨env.responseId,.completed,items ++ told.output,told.usage,none,none⟩ := by
      unfold response
      rw [passed.usage,usage]
      rfl
    rw [last,numberedFrom_append,← seq,← offset,List.length_map]
    simp only [Run.emit,Stitcher.emit,passed.out,passed.seq,List.append_assoc]
    rfl
  · intro completed
    obtain ⟨status,incomplete⟩ := whole completed
    exact ⟨completed.symm,status.symm,incomplete.symm⟩

end

-- A client's call that is opened without its name, and a message before the name comes.
def lateChunks : List Chunk :=
  [⟨none,[⟨⟨none,none,[⟨0,some "call_1",none,some "1"⟩]⟩,none⟩]⟩,saying "one moment",
    ⟨none,[⟨⟨none,none,[⟨0,none,some "lookup",none⟩]⟩,none⟩]⟩]

def lateCall (_ : Nat) : Inner := .stream sampleUuids "inner" lateChunks .finished

def docsSpec : McpToolSpec := ⟨"docs","https://docs",none,none,.null,.str "never"⟩
def docsFound : Found := (⟨[],.empty⟩ : Found).add docsSpec [sampleTool]

-- The server's tools are asked for: discovery puts out an item.
def unlisted (inner : Nat → Inner) : Environment := {sampleEnvironment inner with listings := fun _ => none}

theorem client_turn_passes_late : ∃ r items one two middle kind told u terminal status incomplete,
    discoverAll (unlisted lateCall) (started (unlisted lateCall)) ⟨[],.empty⟩ [docsSpec] = .inl (r,docsFound) ∧
    Agrees r items ∧ items.length = 1 ∧
    (Translator.translate sampleUuids "inner" lateChunks).finish.out.map (·.2) =
      .envelope .created one :: .envelope .inProgress two :: middle ++ [.envelope kind told] ∧
    events (unlisted lateCall) (sampleRequest "never" [] none) = (u,.reached status incomplete) ∧
    u.stitcher.out = r.stitcher.out ++ numberedFrom r.stitcher.out.length
      ((regrouped middle).map (Stitcher.shifted items.length) ++
        [.envelope terminal ⟨"resp",status,items ++ told.output,told.usage,incomplete,none⟩]) ∧
    (kind = .completed → terminal = kind ∧ status = told.status ∧ incomplete = told.incomplete) := by
  have checked : preChecks (unlisted lateCall) (sampleRequest "never" [] none) = .ok ([docsSpec],[]) := rfl
  obtain ⟨r,discovered,slots⟩ : ∃ r, discoverAll (unlisted lateCall) (started (unlisted lateCall)) ⟨[],.empty⟩ [docsSpec] =
      .inl (r,docsFound) ∧ r.accumulator.length = 1 := ⟨_,rfl,rfl⟩
  obtain ⟨items,one,two,middle,kind,told,u,terminal,status,incomplete,agrees,rest⟩ :=
    client_turn_passes checked discovered rfl rfl rfl rfl (by decide +kernel)
  have single : items.length = 1 := by rw [← slots,agrees.built,List.length_map]
  exact ⟨r,items,one,two,middle,kind,told,u,terminal,status,incomplete,discovered,agrees,single,rest⟩

-- Its events stand behind the message's on the outer stream, not where the inner stream has them.
theorem late_call_moves :
    preChecks (sampleEnvironment lateCall) (sampleRequest "never" [] none) = .ok ([docsSpec],[]) ∧
    discoverAll (sampleEnvironment lateCall) (started (sampleEnvironment lateCall)) ⟨[],.empty⟩ [docsSpec] =
      .inl (started (sampleEnvironment lateCall),docsFound) ∧
    checkCollisions [docsSpec] docsFound.discovered [] = .ok () ∧
    (∀ name ∈ calledNames ((Translator.translate sampleUuids "inner" lateChunks).finish.out.map (·.2)),
      docsFound.toolIndex.get? name = none) ∧
    (events (sampleEnvironment lateCall) (sampleRequest "never" [] none)).2 = .reached .completed none ∧
    (((events (sampleEnvironment lateCall) (sampleRequest "never" [] none)).1.stitcher.out.drop 2).dropLast.map (·.2) ≠
      ((((Translator.translate sampleUuids "inner" lateChunks).finish.out.map (·.2)).drop 2).dropLast).map
        (Stitcher.shifted 0)) := by
  refine ⟨rfl,rfl,rfl,?_,?_,?_⟩
  · decide +kernel
  · decide +kernel
  · decide +kernel

end Modelship.Mcp

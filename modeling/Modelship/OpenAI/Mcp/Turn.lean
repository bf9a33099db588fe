import Modelship.OpenAI.Mcp.Loop

namespace Modelship.Mcp
open Foundation Responses

-- The item an event opens, by its id, and the one it closes, with their output index.
def opens : Event → List (Nat × String)
  | .added index item => [(index,item.id)]
  | _ => []

def closes : Event → List (Nat × Item)
  | .done index item => [(index,item)]
  | _ => []

def envelopes : Event → List Envelope
  | .envelope kind _ => [kind]
  | _ => []

-- What a stream has of one kind of thing.
def gathered {Thing : Type} (things : Event → List Thing) (out : List (Nat × Event)) : List Thing :=
  out.flatMap fun entry => things entry.2

-- The items whose `response.output_item.added` or `.done` is in a stream.
abbrev addeds : List (Nat × Event) → List (Nat × String) := gathered opens
abbrev dones : List (Nat × Event) → List (Nat × Item) := gathered closes

def isPart : Event → Bool
  | .part _ _ _ _ => true
  | _ => false

theorem part_silent {event : Event} (part : isPart event = true) :
    opens event = [] ∧ closes event = [] ∧ envelopes event = [] := by
  cases event with
  | part => exact ⟨rfl,rfl,rfl⟩
  | envelope | added | done => cases part

-- What a turn that begins afresh starts from.
def fresh (s : Stitcher) : Stitcher :=
  {s with
    buffers := .empty
    pendingMcpCalls := []
    hadClientFunctionCall := false
    turnOutput := []
    innerFailedResponse := none}

namespace Stitcher

-- Nothing a turn reports has changed; numbered events went out, none of them an envelope,
-- with these items added and these done.
structure Sent (s : Stitcher) (opened : List (Nat × String)) (items : List (Nat × Item)) (t : Stitcher) : Prop where
  offset : t.offset = s.offset
  pending : t.pendingMcpCalls = s.pendingMcpCalls
  output : t.turnOutput = s.turnOutput
  client : t.hadClientFunctionCall = s.hadClientFunctionCall
  failed : t.innerFailedResponse = s.innerFailedResponse
  added : addeds t.out = addeds s.out ++ opened
  done : dones t.out = dones s.out ++ items
  calm : gathered envelopes t.out = gathered envelopes s.out
  counted : s.out.map (·.1) = List.range s.seq → t.out.map (·.1) = List.range t.seq

theorem Sent.refl (s : Stitcher) : Sent s [] [] s := by
  constructor
  case added => exact (List.append_nil _).symm
  case done => exact (List.append_nil _).symm
  case counted => exact id
  all_goals rfl

theorem Sent.trans {s t u : Stitcher} {one two : List (Nat × String)} {three four : List (Nat × Item)}
    (first : Sent s one three t) (second : Sent t two four u) : Sent s (one ++ two) (three ++ four) u := by
  constructor
  · rw [second.offset,first.offset]
  · rw [second.pending,first.pending]
  · rw [second.output,first.output]
  · rw [second.client,first.client]
  · rw [second.failed,first.failed]
  · rw [second.added,first.added,List.append_assoc]
  · rw [second.done,first.done,List.append_assoc]
  · rw [second.calm,first.calm]
  · intro begins
    exact second.counted (first.counted begins)

theorem emit_counted {s : Stitcher} (counted : s.out.map (·.1) = List.range s.seq) (event : Event) :
    (s.emit event).out.map (·.1) = List.range (s.emit event).seq := by
  simp only [emit,List.map_append,counted,List.map_cons,List.map_nil]
  exact List.range_succ.symm

@[simp] theorem gathered_emit {Thing : Type} (things : Event → List Thing) (s : Stitcher) (event : Event) :
    gathered things (s.emit event).out = gathered things s.out ++ things event := by
  simp [gathered,emit]

theorem emit_sent (s : Stitcher) (event : Event) (calm : envelopes event = []) :
    Sent s (opens event) (closes event) (s.emit event) := by
  constructor
  case added => exact gathered_emit opens s event
  case done => exact gathered_emit closes s event
  case calm => rw [gathered_emit,calm,List.append_nil]
  case counted => exact fun counted => emit_counted counted event
  all_goals rfl

theorem emit_quiet (s : Stitcher) {event : Event} (part : isPart event = true) : Sent s [] [] (s.emit event) := by
  obtain ⟨opened,closed,calm⟩ := part_silent part
  have sent := emit_sent s event calm
  rw [opened,closed] at sent
  exact sent

section
variable {uuids : Uuids} {toolIndex : ToolIndex}

theorem steps_append {earlier later : List Event} {s t : Stitcher} :
    steps uuids toolIndex (earlier ++ later) s = .ok t ↔
      ∃ middle, steps uuids toolIndex earlier s = .ok middle ∧ steps uuids toolIndex later middle = .ok t := by
  induction earlier generalizing s with
  | nil => simp [steps]
  | cons event rest ih =>
      simp only [List.cons_append,steps]
      cases s.step uuids toolIndex event with
      | error raised => simp
      | ok middle => exact ih

theorem steps_single {event : Event} {s t : Stitcher} :
    steps uuids toolIndex [event] s = .ok t ↔ s.step uuids toolIndex event = .ok t := by
  simp only [steps]
  cases s.step uuids toolIndex event <;> simp

theorem step_running {s : Stitcher} {event : Event} (running : s.innerFailedResponse = none) :
    s.step uuids toolIndex event = s.read uuids toolIndex event := by
  simp [step,running]

theorem stamps_sent (events : List Event) (calm : ∀ event ∈ events, envelopes event = []) (s : Stitcher) :
    Sent s (events.flatMap fun event => opens (shifted s.offset event))
      (events.flatMap fun event => closes (shifted s.offset event)) (events.foldl stamp s) ∧
      (events.foldl stamp s).buffers = s.buffers := by
  induction events generalizing s with
  | nil => exact ⟨.refl s,rfl⟩
  | cons event rest ih =>
      have still : envelopes (shifted s.offset event) = [] := by
        have none := calm event List.mem_cons_self
        cases event with
        | envelope => cases none
        | added | done | part => rfl
      obtain ⟨later,buffers⟩ := ih (fun other present => calm other (List.mem_cons_of_mem _ present)) (s.stamp event)
      exact ⟨(emit_sent s _ still).trans later,buffers⟩

-- Rewriting arguments events leaves all of a call but its arguments.
theorem rewriteAll_parts {events : List Event} (parts : ∀ event ∈ events, isPart event = true)
    (s : Stitcher) (buf : BufferedCall) :
    Sent s [] [] (rewriteAll events s buf).1 ∧ (rewriteAll events s buf).1.buffers = s.buffers ∧
      ∃ arguments, (rewriteAll events s buf).2 = {buf with arguments} := by
  induction events generalizing s buf with
  | nil => exact ⟨.refl s,rfl,buf.arguments,rfl⟩
  | cons event rest ih =>
      have part := parts event List.mem_cons_self
      have others : ∀ event ∈ rest, isPart event = true :=
        fun other there => parts other (List.mem_cons_of_mem _ there)
      have here : Sent s [] [] (s.rewrite buf event).1 ∧ (s.rewrite buf event).1.buffers = s.buffers ∧
          ∃ arguments, (s.rewrite buf event).2 = {buf with arguments} := by
        cases event with
        | part kind itemId index text =>
            cases kind with
            | argumentsDelta => exact ⟨emit_quiet s rfl,rfl,buf.arguments,rfl⟩
            | argumentsDone => exact ⟨emit_quiet s rfl,rfl,text,rfl⟩
            | reasoningPartAdded | reasoningDelta | reasoningDone | reasoningPartDone | contentPartAdded | textDelta
            | textDone | contentPartDone | mcpArgumentsDelta | mcpArgumentsDone | mcpListToolsInProgress
            | mcpListToolsCompleted | mcpListToolsFailed | mcpCallInProgress | mcpCallCompleted | mcpCallFailed =>
                exact ⟨.refl s,rfl,buf.arguments,rfl⟩
        | envelope | added | done => cases part
      obtain ⟨first,buffers,arguments,after⟩ := here
      obtain ⟨second,kept,final,last⟩ := ih others (s.rewrite buf event).1 (s.rewrite buf event).2
      refine ⟨first.trans second,kept.trans buffers,final,?_⟩
      rw [rewriteAll,last,after]

theorem rewriteAll_added {events parts : List Event} {index : Nat} {item : Item}
    (raw : events = .added index item :: parts) (only : ∀ event ∈ parts, isPart event = true) (s : Stitcher)
    (buf : BufferedCall) :
    Sent s [(index + s.offset,buf.outerId)] [] (rewriteAll events s buf).1 ∧
      (rewriteAll events s buf).1.buffers = s.buffers ∧
      ∃ arguments, (rewriteAll events s buf).2 = {buf with index := some (index + s.offset),arguments} := by
  subst raw
  have first : Sent s [(index + s.offset,buf.outerId)] [] (s.rewrite buf (.added index item)).1 :=
    emit_sent s (.added (index + s.offset) (.mcpCall buf.outerId buf.name "" _ none none none .inProgress)) rfl
  obtain ⟨later,buffers,arguments,last⟩ :=
    rewriteAll_parts only (s.rewrite buf (.added index item)).1 (s.rewrite buf (.added index item)).2
  exact ⟨first.trans later,buffers,arguments,last⟩

-- A call that is classified by its name; one for an MCP server has its slot.
structure Told (toolIndex : ToolIndex) (base : Nat) (tool : OpenTool) (buf : BufferedCall) : Prop where
  name : buf.name = tool.name
  slot : ∃ classification, classify toolIndex tool.name = .ok (classification,buf.spec) ∧
    buf.classification = some classification ∧ (classification ≠ .client → buf.index = some (tool.index + base))

-- The id under which a call is on the outer stream; a call that waits for approval is not.
def outward (tool : OpenTool) (buf : BufferedCall) : Option String :=
  match buf.classification with
  | some .client => some tool.id
  | some .mcp => some buf.outerId
  | some .mcpApproval | none => none

def shown (base : Nat) (tool : OpenTool) (buf : BufferedCall) : List (Nat × String) :=
  (outward tool buf).toList.map fun id => (tool.index + base,id)

-- The `added` event of a call is buffered first, then only its arguments.
theorem raw_sent {events parts : List Event} {index : Nat} {item : Item} (raw : events = .added index item :: parts)
    (only : ∀ event ∈ parts, isPart event = true) (s : Stitcher) :
    Sent s [(index + s.offset,item.id)] [] (events.foldl stamp s) ∧ (events.foldl stamp s).buffers = s.buffers := by
  subst raw
  obtain ⟨sent,buffers⟩ := stamps_sent parts (fun event present => (part_silent (only event present)).2.2)
    (s.stamp (.added index item))
  have silent : ∀ event ∈ parts, opens (shifted s.offset event) = [] ∧ closes (shifted s.offset event) = [] := by
    intro event present
    have part := only event present
    cases event with
    | part => exact ⟨rfl,rfl⟩
    | envelope | added | done => cases part
  have opened : parts.flatMap (fun event => opens (shifted s.offset event)) = [] :=
    List.flatMap_eq_nil_iff.mpr fun event present => (silent event present).1
  have closed : parts.flatMap (fun event => closes (shifted s.offset event)) = [] :=
    List.flatMap_eq_nil_iff.mpr fun event present => (silent event present).2
  change Sent _ (parts.flatMap fun event => opens (shifted s.offset event))
    (parts.flatMap fun event => closes (shifted s.offset event)) _ at sent
  rw [opened,closed] at sent
  exact ⟨(emit_sent s (.added (index + s.offset) item) rfl).trans sent,buffers⟩

theorem flush_told {s t : Stitcher} {tool : OpenTool} {buf after : BufferedCall} {item : Item} {parts : List Event}
    (raw : buf.rawEvents = .added tool.index item :: parts) (only : ∀ event ∈ parts, isPart event = true)
    (id : item.id = tool.id) (name : buf.name = tool.name) (flushed : s.flush uuids toolIndex buf = .ok (t,after)) :
    Sent s (shown s.offset tool after) [] t ∧ t.buffers = s.buffers ∧ Told toolIndex s.offset tool after := by
  unfold flush at flushed
  cases told : classify toolIndex buf.name with
  | error raised => simp [told] at flushed
  | ok pair =>
      obtain ⟨classification,spec⟩ := pair
      rw [told] at flushed
      rw [name] at told
      cases classification with
      | client =>
          cases flushed
          obtain ⟨sent,buffers⟩ := raw_sent raw only s
          rw [id] at sent
          exact ⟨sent,buffers,name,.client,told,rfl,by simp⟩
      | mcpApproval =>
          cases flushed
          exact ⟨.refl s,rfl,name,.mcpApproval,told,rfl,fun _ => by simp [raw,addedIndex]⟩
      | mcp =>
          have minted : Sent s [] [] {s with minted := s.minted + 1} := by
            constructor
            case added => exact (List.append_nil _).symm
            case done => exact (List.append_nil _).symm
            case counted => exact fun counted => counted
            all_goals rfl
          obtain ⟨sent,buffers,arguments,last⟩ := rewriteAll_added raw only {s with minted := s.minted + 1}
            {buf with classification := some .mcp,spec,outerId := "mcp_" ++ uuids.draw s.minted}
          simp only [Except.ok.injEq,Prod.mk.injEq] at flushed
          obtain ⟨rfl,rfl⟩ := flushed
          rw [last]
          exact ⟨minted.trans sent,buffers,name,.mcp,told,rfl,fun _ => rfl⟩

-- An open call of the inner stream: it waits for its name with the events so far, or it
-- is classified.
inductive Holds (toolIndex : ToolIndex) (base : Nat) (tool : OpenTool) (buf : BufferedCall) : Prop where
  | waits (item : Item) (parts : List Event) (unclassified : buf.classification = none) (unnamed : buf.name = "")
      (raw : buf.rawEvents = .added tool.index item :: parts) (only : ∀ event ∈ parts, isPart event = true)
      (id : item.id = tool.id)
  | known (named : tool.name ≠ "") (told : Told toolIndex base tool buf)

-- What is open does not depend on a call's arguments, nor on a name that comes late.
theorem Holds.grows {base : Nat} {tool grown : OpenTool} {buf : BufferedCall} (holds : Holds toolIndex base tool buf)
    (same_ : grown.id = tool.id) (index : grown.index = tool.index) (name : tool.name = "" ∨ grown.name = tool.name) :
    Holds toolIndex base grown buf := by
  cases holds with
  | waits item parts unclassified unnamed raw only id =>
      exact .waits item parts unclassified unnamed (index ▸ raw) only (id.trans same_.symm)
  | known named told =>
      have same : grown.name = tool.name := name.resolve_left named
      obtain ⟨classification,classified,set_,slot⟩ := told.slot
      refine .known (same ▸ named) ⟨told.name.trans same.symm,classification,?_,set_,?_⟩
      · rw [same]
        exact classified
      · rw [index]
        exact slot

-- One call's buffer is written, the others are left. What the call had on the outer
-- stream it still has, and nothing else is added there.
structure Writes (toolIndex : ToolIndex) (s : Stitcher) (old : Option BufferedCall) (tool : OpenTool) (t : Stitcher) :
    Prop where
  here : ∃ opened buf, Sent s opened [] t ∧ t.buffers.get? tool.id = some buf ∧ Holds toolIndex s.offset tool buf ∧
    opened ⊆ shown s.offset tool buf ∧ ∀ before ∈ old, shown s.offset tool before = shown s.offset tool buf
  others : ∀ id, id ≠ tool.id → t.buffers.get? id = s.buffers.get? id

theorem set_writes {s t : Stitcher} {opened : List (Nat × String)} {tool : OpenTool} {old : Option BufferedCall}
    {buf : BufferedCall} (sent : Sent s opened [] t) (buffers : t.buffers = s.buffers)
    (holds : Holds toolIndex s.offset tool buf) (covered : opened ⊆ shown s.offset tool buf)
    (kept : ∀ before ∈ old, shown s.offset tool before = shown s.offset tool buf) :
    Writes toolIndex s old tool {t with buffers := t.buffers.set tool.id buf} := by
  constructor
  · have still : Sent s opened [] {t with buffers := t.buffers.set tool.id buf} :=
      ⟨sent.offset,sent.pending,sent.output,sent.client,sent.failed,sent.added,sent.done,sent.calm,sent.counted⟩
    exact ⟨opened,buf,still,by simp,holds,covered,kept⟩
  · intro id apart
    simp [buffers,apart.symm]

theorem added_writes {s t : Stitcher} {tool : OpenTool} (running : s.innerFailedResponse = none)
    (stepped : s.step uuids toolIndex
      (.added tool.index (.functionCall tool.id tool.callId tool.name "" .inProgress)) = .ok t) :
    Writes toolIndex s none tool t := by
  rw [step_running running] at stepped
  simp only [read] at stepped
  split at stepped
  · rename_i unnamed
    cases stepped
    apply set_writes (.refl s) rfl
    · exact .waits _ [] rfl unnamed rfl (by simp) rfl
    · exact List.nil_subset _
    · simp
  · rename_i named
    split at stepped
    · cases stepped
    · rename_i u buf flushed
      cases stepped
      obtain ⟨sent,buffers,told⟩ := flush_told rfl (by simp) rfl rfl flushed
      exact set_writes sent buffers (.known named told) (List.Subset.refl _) (by simp)

-- Arguments, a part of them or all, leave an open call as it is.
theorem arguments_writes {s t : Stitcher} {tool : OpenTool} {buf : BufferedCall} {kind : Part} {text : String}
    (running : s.innerFailedResponse = none) (found : s.buffers.get? tool.id = some buf)
    (holds : Holds toolIndex s.offset tool buf) (arguments : kind = .argumentsDelta ∨ kind = .argumentsDone)
    (stepped : s.step uuids toolIndex (.part kind tool.id tool.index text) = .ok t) :
    Writes toolIndex s (some buf) tool t := by
  rw [step_running running] at stepped
  have passed : ∀ {event : Event}, isPart event = true → Writes toolIndex s (some buf) tool (s.emit event) := fun part =>
    ⟨⟨[],buf,emit_quiet s part,found,holds,List.nil_subset _,by simp⟩,fun _ _ => rfl⟩
  -- The step matches on the classification, so the record is taken apart first.
  obtain ⟨state,events,index,outerId,name,earlier,spec⟩ := buf
  cases holds with
  | waits item parts unclassified unnamed raw only id =>
      have more : ∀ event ∈ parts ++ [Event.part kind tool.id tool.index text], isPart event = true := by
        intro event present
        rcases List.mem_append.mp present with before | last
        · exact only event before
        · rw [List.mem_singleton.mp last]
          rfl
      cases unclassified
      cases raw
      have written : Writes toolIndex s (some ⟨none,.added tool.index item :: parts,index,outerId,name,earlier,spec⟩) tool
          {s with buffers := (s.buffers.set tool.id
            ⟨none,.added tool.index item :: parts ++ [.part kind tool.id tool.index text],index,outerId,name,earlier,
              spec⟩)} := by
        apply set_writes (.refl s) rfl
        · exact .waits item _ rfl unnamed rfl more id
        · exact List.nil_subset _
        · simp [shown,outward]
      rcases arguments with rfl | rfl
      · simp only [read,found] at stepped
        cases stepped
        exact written
      · simp only [read,found] at stepped
        cases stepped
        exact written
  | known named told =>
      have rewritten : Writes toolIndex s (some ⟨state,events,index,outerId,name,earlier,spec⟩) tool
          {s with buffers := s.buffers.set tool.id ⟨state,events,index,outerId,name,text,spec⟩} := by
        apply set_writes (.refl s) rfl
        · exact .known named ⟨told.name,told.slot⟩
        · exact List.nil_subset _
        · simp [shown,outward]
      obtain ⟨classification,_,classified,_⟩ := told.slot
      cases classified
      rcases arguments with rfl | rfl
      · simp only [read,found] at stepped
        cases classification with
        | client | mcp =>
            cases stepped
            exact passed rfl
        | mcpApproval =>
            cases stepped
            exact ⟨⟨[],_,.refl s,found,.known named told,List.nil_subset _,by simp⟩,fun _ _ => rfl⟩
      · simp only [read,found] at stepped
        cases classification with
        | client =>
            cases stepped
            exact passed rfl
        | mcp =>
            cases stepped
            obtain ⟨opened,buf,sent,stored,holds,covered,kept⟩ := rewritten.here
            refine ⟨⟨opened ++ [],buf,sent.trans (emit_quiet _ rfl),stored,holds,?_,kept⟩,rewritten.others⟩
            rw [List.append_nil]
            exact covered
        | mcpApproval =>
            cases stepped
            exact rewritten

-- The events of reasoning and messages, which only get their index offset.
def through : Event → Bool
  | .added _ item | .done _ item => !isFunctionCall item
  | .part kind _ _ _ => kind != .argumentsDelta && kind != .argumentsDone
  | .envelope _ _ => false

theorem step_through {s : Stitcher} {event : Event} (running : s.innerFailedResponse = none)
    (passes : through event = true) : s.step uuids toolIndex event = .ok (s.stamp event) := by
  rw [step_running running]
  cases event with
  | envelope => cases passes
  | added index item =>
      cases item with
      | functionCall => cases passes
      | reasoning | message | mcpListTools | mcpCall | mcpApprovalRequest => rfl
  | done index item =>
      cases item with
      | functionCall => cases passes
      | reasoning | message | mcpListTools | mcpCall | mcpApprovalRequest => rfl
  | part kind itemId index text =>
      cases kind with
      | argumentsDelta | argumentsDone => cases passes
      | reasoningPartAdded | reasoningDelta | reasoningDone | reasoningPartDone | contentPartAdded | textDelta
      | textDone | contentPartDone | mcpArgumentsDelta | mcpArgumentsDone | mcpListToolsInProgress
      | mcpListToolsCompleted | mcpListToolsFailed | mcpCallInProgress | mcpCallCompleted | mcpCallFailed => rfl

theorem steps_through {events : List Event} (passes : ∀ event ∈ events, through event = true) {s t : Stitcher}
    (running : s.innerFailedResponse = none) (ran : steps uuids toolIndex events s = .ok t) :
    Sent s (events.flatMap fun event => opens (shifted s.offset event))
      (events.flatMap fun event => closes (shifted s.offset event)) t ∧ t.buffers = s.buffers := by
  have stamped : steps uuids toolIndex events s = .ok (events.foldl stamp s) := by
    clear ran
    induction events generalizing s with
    | nil => rfl
    | cons event rest ih =>
        simp only [steps,step_through running (passes event List.mem_cons_self),List.foldl_cons]
        exact ih (fun other later => passes other (List.mem_cons_of_mem _ later)) running
  rw [stamped] at ran
  cases ran
  apply stamps_sent
  intro event present
  have passed := passes event present
  cases event with
  | envelope => cases passed
  | added | done | part => rfl

-- The open texts, by index and id.
def texts (t : Translator) : List (Nat × String) :=
  t.reasoning.toList.map (fun item => (item.index,item.id)) ++ t.message.toList.map fun item => (item.index,item.id)

-- What the outer stream has of a translator's open items.
def Visible (base : Nat) (t : Translator) (s : Stitcher) (one : Nat × String) : Prop :=
  (∃ text ∈ texts t, one = (text.1 + base,text.2)) ∨
    ∃ entry ∈ t.tools.entries, ∃ buf, s.buffers.get? entry.2.id = some buf ∧ one ∈ shown base entry.2 buf

-- The stitcher has read a translator's events: nothing is reported yet, and each open
-- call is in its buffer.
structure Tracks (toolIndex : ToolIndex) (start : Stitcher) (t : Translator) (s : Stitcher) : Prop where
  sent : ∃ opened, Sent start opened [] s ∧ ∀ one ∈ opened, Visible start.offset t s one
  held : ∀ entry ∈ t.tools.entries, ∃ buf, s.buffers.get? entry.2.id = some buf ∧
    Holds toolIndex start.offset entry.2 buf

theorem Tracks.running {start s : Stitcher} {t : Translator} (tracks : Tracks toolIndex start t s)
    (running : start.innerFailedResponse = none) : s.innerFailedResponse = none := by
  obtain ⟨_,sent,_⟩ := tracks.sent
  exact sent.failed.trans running

theorem Tracks.offset {start s : Stitcher} {t : Translator} (tracks : Tracks toolIndex start t s) :
    s.offset = start.offset := by
  obtain ⟨_,sent,_⟩ := tracks.sent
  exact sent.offset

def Followed (uuids : Uuids) (toolIndex : ToolIndex) (start : Stitcher) (t : Translator) : Prop :=
  ∀ s, steps uuids toolIndex (t.out.map (·.2)) start = .ok s → Tracks toolIndex start t s

theorem opens_shifted (base : Nat) (event : Event) :
    opens (shifted base event) = (opens event).map fun one => (one.1 + base,one.2) := by
  cases event <;> rfl

theorem Followed.through {start : Stitcher} {t u : Translator} {events : List Event}
    (followed : Followed uuids toolIndex start t) (running : start.innerFailedResponse = none)
    (out : u.out.map (·.2) = t.out.map (·.2) ++ events) (passes : ∀ event ∈ events, through event = true)
    (quiet : events.flatMap (fun event => closes (shifted start.offset event)) = []) (tools : u.tools = t.tools)
    (kept : texts t ⊆ texts u) (opened : ∀ event ∈ events, opens event ⊆ texts u) :
    Followed uuids toolIndex start u := by
  intro s ran
  rw [out] at ran
  obtain ⟨middle,first,rest⟩ := steps_append.mp ran
  have tracks := followed middle first
  obtain ⟨sent,buffers⟩ := steps_through passes (tracks.running running) rest
  obtain ⟨before,earlier,visible⟩ := tracks.sent
  rw [earlier.offset,quiet] at sent
  constructor
  · refine ⟨_,earlier.trans sent,?_⟩
    intro one present
    rcases List.mem_append.mp present with old | new
    · rcases visible one old with ⟨text,open_,same⟩ | ⟨entry,there,buf,stored,showing⟩
      · exact .inl ⟨text,kept open_,same⟩
      · exact .inr ⟨entry,tools ▸ there,buf,buffers ▸ stored,showing⟩
    · obtain ⟨event,there,mem⟩ := List.mem_flatMap.mp new
      rw [opens_shifted] at mem
      obtain ⟨text,open_,same⟩ := List.mem_map.mp mem
      exact .inl ⟨text,opened event there open_,same.symm⟩
  · rw [tools,buffers]
    exact tracks.held

-- An event that writes one call's buffer, after which that call is the translator's.
theorem Followed.writes {start : Stitcher} {t u : Translator} {event : Event} {key : Int} {tool : OpenTool}
    (followed : Followed uuids toolIndex start t) (out : u.out.map (·.2) = t.out.map (·.2) ++ [event])
    (tools : u.tools = t.tools.set key tool) (same : texts u = texts t)
    (apart : ∀ entry ∈ t.tools.entries, entry.1 ≠ key → entry.2.id ≠ tool.id)
    (here : ∀ entry ∈ t.tools.entries, entry.1 = key → entry.2.id = tool.id ∧ entry.2.index = tool.index)
    (writes : ∀ s after, Tracks toolIndex start t s → s.step uuids toolIndex event = .ok after →
      ∃ old, Writes toolIndex s old tool after ∧
        ∀ entry ∈ t.tools.entries, entry.1 = key → s.buffers.get? tool.id = old) :
    Followed uuids toolIndex start u := by
  intro s ran
  rw [out] at ran
  obtain ⟨middle,first,rest⟩ := steps_append.mp ran
  have tracks := followed middle first
  obtain ⟨before,earlier,visible⟩ := tracks.sent
  obtain ⟨old,written,was⟩ := writes middle s tracks (steps_single.mp rest)
  obtain ⟨opened,buf,sent,stored,holds,covered,kept⟩ := written.here
  rw [earlier.offset] at holds covered kept
  have mine : (key,tool) ∈ u.tools.entries := by
    rw [tools]
    exact Dict.get_some_mem (by simp)
  have others : ∀ entry ∈ t.tools.entries, entry.1 ≠ key → entry ∈ u.tools.entries := by
    intro entry there differs
    rw [tools]
    apply Dict.get_some_mem
    rw [Dict.get_set,if_neg (fun equal => differs equal.symm)]
    exact Dict.mem_get_some there
  constructor
  · refine ⟨_,earlier.trans sent,?_⟩
    intro one present
    rcases List.mem_append.mp present with earlier_ | new
    · rcases visible one earlier_ with ⟨text,open_,equal⟩ | ⟨entry,there,prior,held,showing⟩
      · exact .inl ⟨text,same ▸ open_,equal⟩
      · by_cases equal : entry.1 = key
        · obtain ⟨id,index⟩ := here entry there equal
          have showing_ : one ∈ shown start.offset tool prior := by
            simpa only [shown,outward,id,index] using showing
          rw [id,was entry there equal] at held
          rw [kept prior held] at showing_
          exact .inr ⟨(key,tool),mine,buf,stored,showing_⟩
        · rw [← written.others _ (apart entry there equal)] at held
          exact .inr ⟨entry,others entry there equal,prior,held,showing⟩
    · exact .inr ⟨(key,tool),mine,buf,stored,covered new⟩
  · intro entry present
    rw [tools] at present
    have now := Dict.mem_get_some present
    rw [Dict.get_set] at now
    split at now
    · cases now
      exact ⟨buf,stored,holds⟩
    · rename_i differs
      have there := Dict.get_some_mem now
      rw [written.others _ (apart _ there (fun equal => differs equal.symm))]
      exact tracks.held _ there

theorem Followed.renames {start : Stitcher} {t : Translator} {key : Int} {tool : OpenTool}
    (followed : Followed uuids toolIndex start t) (found : t.tools.get? key = some tool) (unnamed : tool.name = "")
    (name : String) : Followed uuids toolIndex start {t with tools := t.tools.set key {tool with name}} := by
  intro s ran
  have tracks := followed s ran
  obtain ⟨opened,sent,visible⟩ := tracks.sent
  constructor
  · refine ⟨opened,sent,?_⟩
    intro one present
    rcases visible one present with text | ⟨entry,there,buf,stored,showing⟩
    · exact .inl text
    · right
      by_cases equal : entry.1 = key
      · have same : entry.2 = tool := by
          have got := Dict.mem_get_some there
          rw [equal,found] at got
          exact (Option.some.inj got).symm
        rw [same] at stored showing
        exact ⟨(key,{tool with name}),Dict.get_some_mem (by simp),buf,stored,showing⟩
      · refine ⟨entry,Dict.get_some_mem ?_,buf,stored,showing⟩
        rw [Dict.get_set,if_neg (fun same => equal same.symm)]
        exact Dict.mem_get_some there
  · intro entry present
    rcases Dict.mem_put present with ⟨_,same⟩ | before
    · obtain ⟨buf,stored,holds⟩ := tracks.held _ (Dict.get_some_mem found)
      rw [same]
      exact ⟨buf,stored,holds.grows rfl rfl (.inl unnamed)⟩
    · exact tracks.held entry before

theorem followed_steady (inner : Uuids) {start : Stitcher} (running : start.innerFailedResponse = none) :
    Translator.Steady inner fun t => t.Numbered inner ∧ Followed uuids toolIndex start t := by
  have numbered := Translator.numbered_steady inner
  constructor
  · intro t text ⟨number,followed⟩
    refine ⟨numbered.reasoning t text number,?_⟩
    cases opened : t.reasoning with
    | none =>
        apply followed.through running (by simp [Translator.onReasoning,opened,Translator.event]; rfl)
        · simp [through,isFunctionCall]
        · rfl
        · simp [Translator.onReasoning,opened,Translator.event]
        · simp [texts,Translator.onReasoning,opened,Translator.event]
        · simp [texts,Translator.onReasoning,opened,Translator.event,opens,Item.id]
    | some item =>
        apply followed.through running (by simp [Translator.onReasoning,opened,Translator.event]; rfl)
        · simp [through]
        · rfl
        · simp [Translator.onReasoning,opened,Translator.event]
        · simp [texts,Translator.onReasoning,opened,Translator.event]
        · simp [opens]
  · intro t text ⟨number,followed⟩
    refine ⟨numbered.content t text number,?_⟩
    cases opened : t.message with
    | none =>
        apply followed.through running (by simp [Translator.onContent,opened,Translator.event]; rfl)
        · simp [through,isFunctionCall]
        · rfl
        · simp [Translator.onContent,opened,Translator.event]
        · simp [texts,Translator.onContent,opened,Translator.event]
        · simp [texts,Translator.onContent,opened,Translator.event,opens,Item.id]
    | some item =>
        apply followed.through running (by simp [Translator.onContent,opened,Translator.event]; rfl)
        · simp [through]
        · rfl
        · simp [Translator.onContent,opened,Translator.event]
        · simp [texts,Translator.onContent,opened,Translator.event]
        · simp [opens]
  · intro t key drawn tool absent later id index ⟨number,followed⟩
    refine ⟨numbered.opens t key drawn tool absent later id index number,?_⟩
    have missing : ∀ entry ∈ t.tools.entries, entry.1 ≠ key := by
      intro entry present same
      rw [← same,Dict.mem_get_some present] at absent
      cases absent
    apply followed.writes (by simp [Translator.event]; rfl) rfl
    · rfl
    · intro entry present _ same
      apply Translator.fresh_id number later
      rw [← id,← same]
      exact List.mem_map.mpr ⟨entry,present,rfl⟩
    · intro entry present same
      exact absurd same (missing entry present)
    · intro s after tracks stepped
      exact ⟨none,added_writes (tracks.running running) stepped,fun entry present same =>
        absurd same (missing entry present)⟩
  · intro t key tool name found unnamed ⟨number,followed⟩
    exact ⟨numbered.renames t key tool name found unnamed number,followed.renames found unnamed name⟩
  · intro t key tool text found ⟨number,followed⟩
    refine ⟨numbered.feeds t key tool text found number,?_⟩
    have present := Dict.get_some_mem found
    apply followed.writes (by simp [Translator.event]; rfl) rfl
    · rfl
    · intro entry there apart same
      have equal := List.inj_on_of_nodup_map number.ids there present same
      exact apart (congrArg Prod.fst equal)
    · rintro ⟨other,held⟩ there rfl
      have got := Dict.mem_get_some there
      rw [found] at got
      cases got
      exact ⟨rfl,rfl⟩
    · intro s after tracks stepped
      obtain ⟨buf,stored,holds⟩ := tracks.held _ present
      rw [← tracks.offset] at holds
      have grown : Holds toolIndex s.offset {tool with arguments := tool.arguments ++ text} buf :=
        holds.grows rfl rfl (.inr rfl)
      exact ⟨some buf,arguments_writes (tracks.running running) stored grown (.inl rfl) stepped,fun _ _ _ => stored⟩
  · intro t usage finishReason ⟨number,followed⟩
    exact ⟨numbered.notes t usage finishReason number,fun s ran => ⟨(followed s ran).sent,(followed s ran).held⟩⟩

theorem translate_followed (inner : Uuids) (responseId : String) (chunks : List Chunk) {start : Stitcher}
    (running : start.innerFailedResponse = none) :
    Followed uuids toolIndex start (Translator.translate inner responseId chunks) := by
  have begins : Followed uuids toolIndex start (Translator.begin responseId).start := by
    intro s ran
    simp only [Translator.start,Translator.begin,Translator.envelope,Translator.event,List.nil_append,
      List.map_cons,List.map_nil,List.cons_append,steps,step_running running,read] at ran
    cases ran
    exact ⟨⟨[],.refl start,by simp⟩,fun entry present => by cases present⟩
  have number : Translator.Numbered inner (Translator.begin responseId) := Translator.begin_numbered responseId
  exact ((followed_steady inner running).translate ⟨⟨number.indices,number.ids,number.drawn⟩,begins⟩ chunks).2

theorem fresh_followed (inner : Uuids) (responseId : String) (chunks : List Chunk) (start : Stitcher) :
    Followed uuids toolIndex (fresh start) (Translator.translate inner responseId chunks) :=
  translate_followed inner responseId chunks rfl

-- A stream that was cut off has closed nothing.
theorem cut_sent {inner : Uuids} {responseId : String} {chunks : List Chunk} {start s : Stitcher}
    (ran : start.runTurn uuids toolIndex ((Translator.translate inner responseId chunks).out.map (·.2)) = .ok s) :
    ∃ opened, Sent (fresh start) opened [] s := by
  obtain ⟨opened,sent,_⟩ := (fresh_followed inner responseId chunks start s ran).sent
  exact ⟨opened,sent⟩

def forServer (toolIndex : ToolIndex) (tool : OpenTool) : Bool := (toolIndex.get? tool.name).isSome

-- The items of a turn that are not calls for an MCP server.
def own (toolIndex : ToolIndex) : Item → Bool
  | .functionCall _ _ name _ _ => (toolIndex.get? name).isNone
  | _ => true

-- A name that no server has is the client's; for another, its server's policy decides.
theorem classify_cases {name : String} {classification : Classification} {spec : Option McpToolSpec}
    (classified : classify toolIndex name = .ok (classification,spec)) :
    classification = .client ∧ toolIndex.get? name = none ∧ spec = none ∨
      ∃ server tool, toolIndex.get? name = some (server,tool) ∧ spec = some server ∧
        (classification = .mcpApproval ∧ requiresApproval server tool = .ok true ∨
          classification = .mcp ∧ requiresApproval server tool = .ok false) := by
  unfold classify at classified
  cases found : toolIndex.get? name with
  | none =>
      rw [found] at classified
      cases classified
      exact .inl ⟨rfl,rfl,rfl⟩
  | some entry =>
      obtain ⟨server,tool⟩ := entry
      rw [found] at classified
      simp only at classified
      right
      refine ⟨server,tool,rfl,?_⟩
      split at classified
      · cases classified
      · rename_i needed
        cases classified
        exact ⟨rfl,.inl ⟨rfl,needed⟩⟩
      · rename_i needed
        cases classified
        exact ⟨rfl,.inr ⟨rfl,needed⟩⟩

theorem classify_client {name : String} {classification : Classification} {spec : Option McpToolSpec}
    (classified : classify toolIndex name = .ok (classification,spec)) :
    classification = .client ↔ toolIndex.get? name = none := by
  rcases classify_cases classified with ⟨rfl,absent,_⟩ | ⟨server,tool,found,_,⟨rfl,_⟩ | ⟨rfl,_⟩⟩
  · simp [absent]
  · simp [found]
  · simp [found]

theorem Told.client {base : Nat} {tool : OpenTool} {buf : BufferedCall} (told : Told toolIndex base tool buf) :
    buf.classification = some .client ↔ forServer toolIndex tool = false := by
  obtain ⟨classification,classified,set_,_⟩ := told.slot
  have client := classify_client classified
  simp only [set_,Option.some.injEq,client,forServer,Option.isSome_eq_false_iff,Option.isNone_iff_eq_none]

-- A call whose `done` event came.
structure Closed (toolIndex : ToolIndex) (base : Nat) (tool : OpenTool) (buf : BufferedCall) : Prop where
  told : Told toolIndex base tool buf
  arguments : buf.arguments = tool.arguments

-- A call's buffer once it is closed. What it had on the outer stream it still has.
structure Shut (toolIndex : ToolIndex) (s : Stitcher) (tool : OpenTool) (t : Stitcher) (buf : BufferedCall) : Prop where
  stored : t.buffers.get? tool.id = some buf
  told : Told toolIndex s.offset tool buf
  listed : forServer toolIndex tool = true → buf ∈ t.pendingMcpCalls
  kept : ∀ old, s.buffers.get? tool.id = some old → shown s.offset tool old ⊆ shown s.offset tool buf

-- Calls were closed: those of the client are done, those for MCP servers pending.
structure Settles (toolIndex : ToolIndex) (s : Stitcher) (tools : List OpenTool) (t : Stitcher) : Prop where
  offset : t.offset = s.offset
  output : t.turnOutput = s.turnOutput
  failed : t.innerFailedResponse = s.innerFailedResponse
  calm : gathered envelopes t.out = gathered envelopes s.out
  counted : s.out.map (·.1) = List.range s.seq → t.out.map (·.1) = List.range t.seq
  done : dones t.out = dones s.out ++ (tools.filter fun tool => !forServer toolIndex tool).map fun tool =>
    (tool.index + s.offset,Translator.closedTool tool)
  pending : ∃ bufs, t.pendingMcpCalls = s.pendingMcpCalls ++ bufs ∧
    List.Forall₂ (Closed toolIndex s.offset) (tools.filter (forServer toolIndex)) bufs
  shut : ∀ tool ∈ tools, ∃ buf, Shut toolIndex s tool t buf
  added : ∃ opened, addeds t.out = addeds s.out ++ opened ∧
    ∀ one ∈ opened, ∃ tool ∈ tools, ∃ buf, Shut toolIndex s tool t buf ∧ one ∈ shown s.offset tool buf
  others : ∀ id, id ∉ tools.map (·.id) → t.buffers.get? id = s.buffers.get? id

-- Whether or not its name was known before, a call is told by it in the end.
theorem Holds.closing {s t : Stitcher} {tool : OpenTool} {buf named after : BufferedCall}
    (holds : Holds toolIndex s.offset tool buf)
    (renamed : named = if tool.name = "" then buf else {buf with name := tool.name})
    (flushed : (if named.classification = none then s.flush uuids toolIndex named else .ok (s,named)) = .ok (t,after)) :
    ∃ opened, Sent s opened [] t ∧ t.buffers = s.buffers ∧ Told toolIndex s.offset tool after ∧
      opened ⊆ shown s.offset tool after ∧ shown s.offset tool buf ⊆ shown s.offset tool after := by
  cases holds with
  | waits item parts unclassified unnamed raw only id =>
      have name : named.name = tool.name := by
        rw [renamed]
        split
        · rename_i empty
          rw [unnamed,empty]
        · rfl
      have waiting : named.classification = none ∧ named.rawEvents = buf.rawEvents := by
        rw [renamed]
        split
        · exact ⟨unclassified,rfl⟩
        · exact ⟨unclassified,rfl⟩
      rw [if_pos waiting.1] at flushed
      obtain ⟨sent,buffers,told⟩ := flush_told (waiting.2.trans raw) only id name flushed
      refine ⟨_,sent,buffers,told,List.Subset.refl _,?_⟩
      simp [shown,outward,unclassified]
  | known called told =>
      rw [if_neg called] at renamed
      obtain ⟨classification,classified,set_,slot⟩ := told.slot
      subst renamed
      rw [if_neg (by simp [set_])] at flushed
      cases flushed
      exact ⟨[],.refl s,rfl,⟨rfl,classification,classified,set_,slot⟩,List.nil_subset _,List.Subset.refl _⟩

theorem done_settles {s t : Stitcher} {tool : OpenTool} {buf : BufferedCall} (running : s.innerFailedResponse = none)
    (found : s.buffers.get? tool.id = some buf) (holds : Holds toolIndex s.offset tool buf)
    (stepped : s.step uuids toolIndex (.done tool.index (Translator.closedTool tool)) = .ok t) :
    Settles toolIndex s [tool] t := by
  rw [step_running running] at stepped
  simp only [read,Translator.closedTool,found] at stepped
  split at stepped
  · cases stepped
  · rename_i u after flushed
    obtain ⟨opened,sent,buffers,told,covered,kept⟩ := holds.closing rfl flushed
    have filled : Told toolIndex s.offset tool {after with arguments := tool.arguments} := ⟨told.name,told.slot⟩
    have shut : ∀ v : Stitcher, v.buffers = u.buffers.set tool.id {after with arguments := tool.arguments} →
        (forServer toolIndex tool = true → {after with arguments := tool.arguments} ∈ v.pendingMcpCalls) →
        Shut toolIndex s tool v {after with arguments := tool.arguments} := by
      intro v same listed
      refine ⟨by simp [same],filled,listed,?_⟩
      intro old stored
      rw [found] at stored
      cases stored
      exact kept
    have others : ∀ id, id ∉ [tool].map (·.id) →
        (u.buffers.set tool.id {after with arguments := tool.arguments}).get? id = s.buffers.get? id := by
      intro id apart
      have differs : tool.id ≠ id := fun equal => apart (by simp [equal])
      simp [buffers,differs]
    split at stepped
    · rename_i client
      cases stepped
      have ours : forServer toolIndex tool = false := told.client.mp client
      have here := shut (stamp {u with buffers := u.buffers.set tool.id {after with arguments := tool.arguments}}
        (.done tool.index (.functionCall tool.id tool.callId tool.name tool.arguments .completed))) rfl
        (fun theirs => by rw [ours] at theirs; cases theirs)
      constructor
      · exact sent.offset
      · exact sent.output
      · exact sent.failed
      · exact (gathered_emit envelopes _ _).trans (by simp [shifted,envelopes,sent.calm])
      · exact fun counted => emit_counted (sent.counted counted) _
      · apply (gathered_emit closes _ _).trans
        simp [shifted,closes,sent.done,sent.offset,ours,Translator.closedTool]
      · exact ⟨[],by simpa [stamp,emit] using sent.pending,by simp [ours]⟩
      · intro one present
        rw [List.mem_singleton.mp present]
        exact ⟨_,here⟩
      · refine ⟨opened,?_,?_⟩
        · exact (gathered_emit opens _ _).trans (by simp [shifted,opens,sent.added])
        · intro one present
          exact ⟨tool,List.mem_singleton_self tool,_,here,covered present⟩
      · exact others
    · rename_i client
      cases stepped
      have theirs : forServer toolIndex tool = true := by
        by_contra ours
        exact client (told.client.mpr (by simpa using ours))
      have here := shut {u with
        buffers := u.buffers.set tool.id {after with arguments := tool.arguments}
        pendingMcpCalls := u.pendingMcpCalls ++ [{after with arguments := tool.arguments}]} rfl (fun _ => by simp)
      constructor
      · exact sent.offset
      · exact sent.output
      · exact sent.failed
      · exact sent.calm
      · exact sent.counted
      · simp [sent.done,theirs]
      · exact ⟨[{after with arguments := tool.arguments}],by simp [sent.pending],by
          simpa [theirs] using Closed.mk filled rfl⟩
      · intro one present
        rw [List.mem_singleton.mp present]
        exact ⟨_,here⟩
      · exact ⟨opened,sent.added,fun one present => ⟨tool,List.mem_singleton_self tool,_,here,covered present⟩⟩
      · exact others

theorem Settles.cons {s t u : Stitcher} {tool : OpenTool} {tools : List OpenTool}
    (first : Settles toolIndex s [tool] t) (rest : Settles toolIndex t tools u) (fresh : tool.id ∉ tools.map (·.id)) :
    Settles toolIndex s (tool :: tools) u := by
  obtain ⟨one,pends,closed⟩ := first.pending
  obtain ⟨more,later,others⟩ := rest.pending
  rw [first.offset] at others
  have head : ∀ {buf}, Shut toolIndex s tool t buf → Shut toolIndex s tool u buf := fun shut =>
    ⟨(rest.others _ fresh).trans shut.stored,shut.told,fun theirs => by
      rw [later]
      exact List.mem_append_left _ (shut.listed theirs),shut.kept⟩
  have tail : ∀ {one buf}, one ∈ tools → Shut toolIndex t one u buf → Shut toolIndex s one u buf := by
    intro one buf present shut
    have apart : one.id ∉ [tool].map (·.id) := by
      intro same
      rw [List.map_singleton,List.mem_singleton] at same
      exact fresh (List.mem_map.mpr ⟨one,present,same⟩)
    obtain ⟨stored,told,listed,kept⟩ := shut
    rw [first.offset] at told kept
    rw [first.others _ apart] at kept
    exact ⟨stored,told,listed,kept⟩
  constructor
  · rw [rest.offset,first.offset]
  · rw [rest.output,first.output]
  · rw [rest.failed,first.failed]
  · rw [rest.calm,first.calm]
  · exact fun counted => rest.counted (first.counted counted)
  · rw [rest.done,first.done,first.offset,List.append_assoc,← List.map_append,← List.filter_append]
    rfl
  · refine ⟨one ++ more,?_,?_⟩
    · rw [later,pends,List.append_assoc]
    · have together : List.Forall₂ (Closed toolIndex s.offset)
          ([tool].filter (forServer toolIndex) ++ tools.filter (forServer toolIndex)) (one ++ more) :=
        List.rel_append closed others
      rw [← List.filter_append] at together
      exact together
  · intro one present
    rcases List.mem_cons.mp present with rfl | there
    · obtain ⟨buf,shut⟩ := first.shut one (List.mem_singleton_self one)
      exact ⟨buf,head shut⟩
    · obtain ⟨buf,shut⟩ := rest.shut one there
      exact ⟨buf,tail there shut⟩
  · obtain ⟨opened,sent,covered⟩ := first.added
    obtain ⟨further,sent_,covered_⟩ := rest.added
    refine ⟨opened ++ further,by rw [sent_,sent,List.append_assoc],?_⟩
    intro one present
    rcases List.mem_append.mp present with before | after
    · obtain ⟨same,single,buf,shut,showing⟩ := covered one before
      rw [List.mem_singleton.mp single] at shut showing
      exact ⟨tool,List.mem_cons_self,buf,head shut,showing⟩
    · obtain ⟨other,there,buf,shut,showing⟩ := covered_ one after
      rw [first.offset] at showing
      exact ⟨other,List.mem_cons_of_mem _ there,buf,tail there shut,showing⟩
  · intro id apart
    rw [List.map_cons,List.mem_cons,not_or] at apart
    rw [rest.others id apart.2,first.others id (by simpa using apart.1)]

theorem Writes.settles {s t u : Stitcher} {tool : OpenTool} (written : Writes toolIndex s (s.buffers.get? tool.id) tool t)
    (settled : Settles toolIndex t [tool] u) : Settles toolIndex s [tool] u := by
  obtain ⟨opened,buf,sent,stored,holds,covered,kept⟩ := written.here
  obtain ⟨bufs,pends,closed⟩ := settled.pending
  rw [sent.offset] at closed
  have shut : ∀ {after}, Shut toolIndex t tool u after → Shut toolIndex s tool u after := by
    intro after shut
    have grown := shut.kept buf stored
    rw [sent.offset] at grown
    refine ⟨shut.stored,sent.offset ▸ shut.told,shut.listed,?_⟩
    intro old before
    rw [kept old before]
    exact grown
  constructor
  · rw [settled.offset,sent.offset]
  · rw [settled.output,sent.output]
  · rw [settled.failed,sent.failed]
  · rw [settled.calm,sent.calm]
  · exact fun counted => settled.counted (sent.counted counted)
  · rw [settled.done,sent.done,sent.offset,List.append_nil]
  · exact ⟨bufs,by rw [pends,sent.pending],closed⟩
  · intro one present
    rw [List.mem_singleton.mp present]
    obtain ⟨after,here⟩ := settled.shut tool (List.mem_singleton_self tool)
    exact ⟨after,shut here⟩
  · obtain ⟨further,sent_,covered_⟩ := settled.added
    obtain ⟨after,here⟩ := settled.shut tool (List.mem_singleton_self tool)
    refine ⟨opened ++ further,by rw [sent_,sent.added,List.append_assoc],?_⟩
    intro one present
    rcases List.mem_append.mp present with before | later
    · have grown := here.kept buf stored
      rw [sent.offset] at grown
      exact ⟨tool,List.mem_singleton_self tool,after,shut here,grown (covered before)⟩
    · obtain ⟨same,single,after,here,showing⟩ := covered_ one later
      rw [List.mem_singleton.mp single] at here showing
      rw [sent.offset] at showing
      exact ⟨tool,List.mem_singleton_self tool,after,shut here,showing⟩
  · intro id apart
    rw [settled.others id apart,written.others id (by simpa using apart)]

theorem closeTool_settles {tool : OpenTool} {s t : Stitcher} (running : s.innerFailedResponse = none)
    (held : ∃ buf, s.buffers.get? tool.id = some buf ∧ Holds toolIndex s.offset tool buf)
    (ran : steps uuids toolIndex (Translator.closingTool tool) s = .ok t) : Settles toolIndex s [tool] t := by
  obtain ⟨u,part,done⟩ := steps_append.mp (show steps uuids toolIndex
    ([.part .argumentsDone tool.id tool.index tool.arguments] ++ [.done tool.index (Translator.closedTool tool)]) s =
      .ok t from ran)
  obtain ⟨buf,stored,holds⟩ := held
  have written := arguments_writes running stored holds (.inr rfl) (steps_single.mp part)
  rw [← stored] at written
  obtain ⟨opened,after,sent,now,still,_,_⟩ := written.here
  rw [← sent.offset] at still
  exact written.settles (done_settles (sent.failed.trans running) now still (steps_single.mp done))

-- The tools that follow are still held as they were.
theorem Settles.leaves {s t : Stitcher} {tool : OpenTool} {rest : List OpenTool} (settled : Settles toolIndex s [tool] t)
    (fresh : tool.id ∉ rest.map (·.id))
    (held : ∀ other ∈ tool :: rest, ∃ buf, s.buffers.get? other.id = some buf ∧ Holds toolIndex s.offset other buf) :
    ∀ other ∈ rest, ∃ buf, t.buffers.get? other.id = some buf ∧ Holds toolIndex t.offset other buf := by
  intro other present
  have apart : other.id ∉ [tool].map (·.id) := by
    intro same
    rw [List.map_singleton,List.mem_singleton] at same
    exact fresh (List.mem_map.mpr ⟨other,present,same⟩)
  rw [settled.others _ apart,settled.offset]
  exact held other (List.mem_cons_of_mem _ present)

theorem closeTools_settles {tools : List OpenTool} {s t : Stitcher} (running : s.innerFailedResponse = none)
    (ids : (tools.map (·.id)).Nodup)
    (held : ∀ tool ∈ tools, ∃ buf, s.buffers.get? tool.id = some buf ∧ Holds toolIndex s.offset tool buf)
    (ran : steps uuids toolIndex (tools.flatMap Translator.closingTool) s = .ok t) :
    Settles toolIndex s tools t := by
  induction tools generalizing s with
  | nil =>
      cases ran
      constructor
      case done => simp
      case pending => exact ⟨[],by simp,.nil⟩
      case shut => simp
      case added => exact ⟨[],by simp,by simp⟩
      case counted => exact id
      case others => exact fun _ _ => rfl
      all_goals rfl
  | cons tool rest ih =>
      obtain ⟨fresh,others⟩ := List.nodup_cons.mp ids
      obtain ⟨middle,first,later⟩ := steps_append.mp ran
      have settled := closeTool_settles running (held tool List.mem_cons_self) first
      apply settled.cons _ fresh
      exact ih (settled.failed.trans running) others (settled.leaves fresh held) later

-- The items of a turn, with their positions in its terminal output offset.
def positioned (toolIndex : ToolIndex) (base : Nat) (t : Translator) : List (Nat × Item) :=
  ((t.collectOutput.zipIdx base).filter fun entry => own toolIndex entry.1).map fun entry => (entry.2,entry.1)

-- The item of an `added` event: its `done` is in the stream, or it is a call that is
-- about to run.
def Answered (s : Stitcher) (one : Nat × String) : Prop :=
  (∃ item, (one.1,item) ∈ dones s.out ∧ item.id = one.2) ∨
    ∃ buf ∈ s.pendingMcpCalls, buf.classification = some .mcp ∧ buf.index = some one.1 ∧ buf.outerId = one.2

-- All that a translator opened is closed, and its terminal event not yet read.
structure Shuttered (toolIndex : ToolIndex) (start : Stitcher) (t : Translator) (s : Stitcher) : Prop where
  offset : s.offset = start.offset
  failed : s.innerFailedResponse = none
  output : s.turnOutput = []
  calm : gathered envelopes s.out = gathered envelopes start.out
  counted : start.out.map (·.1) = List.range start.seq → s.out.map (·.1) = List.range s.seq
  pending : List.Forall₂ (Closed toolIndex start.offset) (t.sorted.filter (forServer toolIndex)) s.pendingMcpCalls
  done : dones s.out = dones start.out ++ (t.closing.filter fun entry => own toolIndex entry.2).map fun entry =>
    (entry.1 + start.offset,entry.2)
  added : ∀ one ∈ addeds s.out, one ∈ addeds start.out ∨ Answered s one
  told : ∀ tool ∈ t.sorted, ∃ buf, s.buffers.get? tool.id = some buf ∧ Told toolIndex start.offset tool buf

-- What a turn reports once its stream has finished.
structure Turned (toolIndex : ToolIndex) (start : Stitcher) (t : Translator) (s : Stitcher) : Prop where
  offset : s.offset = start.offset + t.closing.length
  failed : s.innerFailedResponse = none
  output : s.turnOutput = positioned toolIndex start.offset t
  calm : gathered envelopes s.out = gathered envelopes start.out
  counted : start.out.map (·.1) = List.range start.seq → s.out.map (·.1) = List.range s.seq
  pending : List.Forall₂ (Closed toolIndex start.offset) (t.sorted.filter (forServer toolIndex)) s.pendingMcpCalls
  done : dones s.out = dones start.out ++ (t.closing.filter fun entry => own toolIndex entry.2).map fun entry =>
    (entry.1 + start.offset,entry.2)
  added : ∀ one ∈ addeds s.out, one ∈ addeds start.out ∨ Answered s one

theorem closingTexts_through (t : Translator) : ∀ event ∈ t.closingTexts, through event = true := by
  intro event present
  cases thought : t.reasoning <;> cases said : t.message <;>
    simp only [Translator.closingTexts,thought,said,Option.toList,List.flatMap_cons,List.flatMap_nil,List.append_nil,
      List.nil_append,List.cons_append,List.mem_cons,List.not_mem_nil,or_false] at present <;>
    aesop

theorem closingTexts_closes (t : Translator) (base : Nat) :
    t.closingTexts.flatMap (fun event => closes (shifted base event)) =
      (t.reasoning.toList.map fun item => (item.index + base,Translator.closedReasoning item)) ++
        t.message.toList.map fun item => (item.index + base,Translator.closedMessage item) := by
  cases thought : t.reasoning <;> cases said : t.message <;>
    simp [Translator.closingTexts,thought,said,closes,shifted]

theorem closingTexts_opens (t : Translator) (base : Nat) :
    t.closingTexts.flatMap (fun event => opens (shifted base event)) = [] := by
  cases thought : t.reasoning <;> cases said : t.message <;>
    simp [Translator.closingTexts,thought,said,opens,shifted]

-- The items of a turn that are its own, in the order of the output.
theorem own_closing (t : Translator) (base : Nat) :
    ((t.closing.filter fun entry => own toolIndex entry.2).map fun entry => (entry.1 + base,entry.2)) =
      (t.reasoning.toList.map fun item => (item.index + base,Translator.closedReasoning item)) ++
        (t.message.toList.map fun item => (item.index + base,Translator.closedMessage item)) ++
        (t.sorted.filter fun tool => !forServer toolIndex tool).map fun tool =>
          (tool.index + base,Translator.closedTool tool) := by
  have tools : (t.sorted.map fun tool => (tool.index,Translator.closedTool tool)).filter
      (fun entry => own toolIndex entry.2) = (t.sorted.filter fun tool => !forServer toolIndex tool).map fun tool =>
        (tool.index,Translator.closedTool tool) := by
    rw [List.filter_map]
    congr 1
    apply List.filter_congr
    intro tool _
    simp [own,forServer,Translator.closedTool]
  unfold Translator.closing
  rw [List.filter_append,tools,List.map_append,List.map_map]
  cases thought : t.reasoning <;> cases said : t.message <;>
    simp [own,Translator.closedReasoning,Translator.closedMessage]

theorem absorb_output {s : Stitcher} {t : Translator} {response : Response} (output : response.output = t.collectOutput)
    (told : ∀ tool ∈ t.sorted, ∃ buf, s.buffers.get? tool.id = some buf ∧
      (buf.classification = some .client ↔ forServer toolIndex tool = false)) :
    (s.absorb response).turnOutput = s.turnOutput ++ positioned toolIndex s.offset t := by
  unfold absorb positioned
  simp only [output]
  congr 2
  apply List.filter_congr
  rintro ⟨item,index⟩ present
  have there : item ∈ t.collectOutput := (List.mem_zipIdx present).2.2 ▸ List.getElem_mem _
  unfold Translator.collectOutput at there
  rcases List.mem_append.mp there with text | call
  · have kept : plain s.buffers item = true ∧ own toolIndex item = true := by
      rcases List.mem_append.mp text with thought | said
      · obtain ⟨_,_,rfl⟩ := List.mem_map.mp thought
        exact ⟨rfl,rfl⟩
      · obtain ⟨_,_,rfl⟩ := List.mem_map.mp said
        exact ⟨rfl,rfl⟩
    rw [kept.1,kept.2]
  · obtain ⟨tool,sorted,rfl⟩ := List.mem_map.mp call
    obtain ⟨buf,stored,client⟩ := told tool sorted
    simp only [plain,own,Translator.closedTool,stored,client,forServer]
    cases toolIndex.get? tool.name <;> rfl

theorem text_closing {t : Translator} {text : Nat × String} (open_ : text ∈ texts t) :
    ∃ item, (text.1,item) ∈ t.closing.filter (fun entry => own toolIndex entry.2) ∧ item.id = text.2 := by
  unfold texts at open_
  simp only [List.mem_filter,Translator.closing]
  rcases List.mem_append.mp open_ with thought | said
  · obtain ⟨item,there,rfl⟩ := List.mem_map.mp thought
    refine ⟨Translator.closedReasoning item,⟨?_,rfl⟩,rfl⟩
    exact List.mem_append_left _ (List.mem_append_left _ (List.mem_map.mpr ⟨item,there,rfl⟩))
  · obtain ⟨item,there,rfl⟩ := List.mem_map.mp said
    refine ⟨Translator.closedMessage item,⟨?_,rfl⟩,rfl⟩
    exact List.mem_append_left _ (List.mem_append_right _ (List.mem_map.mpr ⟨item,there,rfl⟩))

-- A call on the outer stream is the client's, and in the closing, or it is about to run.
theorem shown_closing {base : Nat} {t : Translator} {tool : OpenTool} {buf : BufferedCall} {one : Nat × String}
    (sorted : tool ∈ t.sorted) (told : Told toolIndex base tool buf) (showing : one ∈ shown base tool buf) :
    (∃ entry ∈ t.closing.filter (fun entry => own toolIndex entry.2), one = (entry.1 + base,entry.2.id)) ∨
      forServer toolIndex tool = true ∧ buf.classification = some .mcp ∧ buf.index = some one.1 ∧
        buf.outerId = one.2 := by
  obtain ⟨classification,classified,set_,slot⟩ := told.slot
  have client := told.client
  simp only [shown,outward,set_] at showing
  cases classification with
  | client =>
      have ours := client.mp set_
      left
      refine ⟨(tool.index,Translator.closedTool tool),?_,by simpa [Translator.closedTool,Item.id] using showing⟩
      simp only [List.mem_filter,Translator.closing]
      refine ⟨List.mem_append_right _ (List.mem_map.mpr ⟨tool,sorted,rfl⟩),?_⟩
      unfold forServer at ours
      simpa [own,Translator.closedTool] using ours
  | mcp =>
      right
      have same : one = (tool.index + base,buf.outerId) := by simpa using showing
      subst same
      refine ⟨?_,set_,slot (by simp),rfl⟩
      by_contra ours
      have told_ := client.mpr (by simpa using ours)
      rw [set_] at told_
      cases told_
  | mcpApproval => simp at showing

theorem closing_shuttered {inner : Uuids} {t : Translator} {start s : Stitcher} (numbered : t.Numbered inner)
    (followed : Followed uuids toolIndex (fresh start) t)
    (ran : steps uuids toolIndex
      (t.out.map (·.2) ++ (t.closingTexts ++ t.sorted.flatMap Translator.closingTool)) (fresh start) = .ok s) :
    Shuttered toolIndex start t s := by
  have running : (fresh start).innerFailedResponse = none := rfl
  obtain ⟨one,first,ran⟩ := steps_append.mp ran
  obtain ⟨two,second,third⟩ := steps_append.mp ran
  have tracks := followed one first
  obtain ⟨opened,earlier,visible⟩ := tracks.sent
  obtain ⟨sent,buffers⟩ := steps_through (closingTexts_through t) (tracks.running running) second
  rw [closingTexts_opens,closingTexts_closes,tracks.offset] at sent
  have all := earlier.trans sent
  have ids : (t.sorted.map (·.id)).Nodup := by
    have perm := t.sorted_perm.map (·.id)
    rw [List.map_map] at perm
    exact perm.nodup_iff.mpr numbered.ids
  have settled := closeTools_settles (all.failed.trans running) ids (by
    intro tool present
    obtain ⟨key,there⟩ := Translator.mem_sorted.mp present
    rw [buffers,all.offset]
    exact tracks.held _ there) third
  have base : two.offset = start.offset := all.offset
  obtain ⟨bufs,pends,closed⟩ := settled.pending
  have pending : s.pendingMcpCalls = bufs := by
    rw [pends,all.pending]
    exact List.nil_append _
  have done : dones s.out = dones start.out ++ (t.closing.filter fun entry => own toolIndex entry.2).map fun entry =>
      (entry.1 + start.offset,entry.2) := by
    have before : (fresh start).offset = start.offset := rfl
    have out : (fresh start).out = start.out := rfl
    rw [settled.done,all.done,own_closing,base,before,out]
    simp only [List.nil_append,List.append_assoc]
  have answered : ∀ {one}, (∃ entry ∈ t.closing.filter (fun entry => own toolIndex entry.2),
      one = (entry.1 + start.offset,entry.2.id)) → Answered s one := by
    rintro _ ⟨entry,there,rfl⟩
    left
    refine ⟨entry.2,?_,rfl⟩
    rw [done]
    exact List.mem_append_right _ (List.mem_map.mpr ⟨entry,there,rfl⟩)
  have shuts : ∀ {tool buf one}, tool ∈ t.sorted → Shut toolIndex two tool s buf → one ∈ shown two.offset tool buf →
      Answered s one := by
    intro tool buf one sorted shut showing
    rw [base] at showing
    rcases shown_closing sorted (base ▸ shut.told) showing with ours | ⟨theirs,classified,index,id⟩
    · exact answered ours
    · exact .inr ⟨buf,shut.listed theirs,classified,index,id⟩
  constructor
  · rw [settled.offset,base]
  · exact settled.failed.trans (all.failed.trans running)
  · exact settled.output.trans all.output
  · exact settled.calm.trans all.calm
  · intro counted
    exact settled.counted (all.counted counted)
  · rw [pending]
    rw [base] at closed
    exact closed
  · exact done
  · intro item present
    obtain ⟨further,sent_,covered⟩ := settled.added
    rw [sent_,all.added] at present
    rcases List.mem_append.mp present with before | later
    · rcases List.mem_append.mp before with prior | turn
      · exact .inl prior
      · right
        rw [List.append_nil] at turn
        rcases visible item turn with ⟨text,open_,same⟩ | ⟨entry,there,buf,stored,showing⟩
        · obtain ⟨closed_,there,id⟩ := text_closing open_
          apply answered
          refine ⟨_,there,?_⟩
          rw [same,id]
          rfl
        · have sorted : entry.2 ∈ t.sorted := Translator.mem_sorted.mpr ⟨entry.1,there⟩
          obtain ⟨after,shut⟩ := settled.shut entry.2 sorted
          have kept := shut.kept buf (buffers ▸ stored)
          rw [all.offset] at kept
          apply shuts sorted shut
          rw [all.offset]
          exact kept showing
    · obtain ⟨tool,sorted,buf,shut,showing⟩ := covered item later
      exact .inr (shuts sorted shut showing)
  · intro tool sorted
    obtain ⟨buf,shut⟩ := settled.shut tool sorted
    exact ⟨buf,shut.stored,base ▸ shut.told⟩

theorem finish_turned {inner : Uuids} {responseId : String} {chunks : List Chunk} {start s : Stitcher}
    (ran : start.runTurn uuids toolIndex ((Translator.translate inner responseId chunks).finish.out.map (·.2)) = .ok s) :
    Turned toolIndex start (Translator.translate inner responseId chunks) s := by
  have numbered := Translator.translate_numbered inner responseId chunks
  have followed : Followed uuids toolIndex (fresh start) _ := fresh_followed inner responseId chunks start
  change steps uuids toolIndex _ (fresh start) = .ok s at ran
  generalize Translator.translate inner responseId chunks = t at *
  obtain ⟨kind,response,terminal,output,events⟩ := t.finish_events
  rw [events] at ran
  obtain ⟨three,ran,last⟩ := steps_append.mp ran
  have shut := closing_shuttered numbered followed ran
  have absorbed : s = three.absorb response := by
    have stepped := steps_single.mp last
    rw [step_running shut.failed] at stepped
    rcases terminal with rfl | rfl <;> cases stepped <;> rfl
  subst absorbed
  constructor
  · have length : response.output.length = t.closing.length := by
      rw [output,← t.closing_output,List.length_map]
    simp only [absorb]
    rw [shut.offset,length]
  · exact shut.failed
  · rw [absorb_output output (fun tool present => by
      obtain ⟨buf,stored,told⟩ := shut.told tool present
      exact ⟨buf,stored,told.client⟩),shut.output,shut.offset]
    exact List.nil_append _
  · exact shut.calm
  · exact shut.counted
  · exact shut.pending
  · exact shut.done
  · exact shut.added

-- A stream that fails has closed its items; the turn then keeps the inner response only.
theorem fail_turned {inner : Uuids} {responseId message code : String} {chunks : List Chunk} {start s : Stitcher}
    (ran : start.runTurn uuids toolIndex
      (((Translator.translate inner responseId chunks).fail message code).out.map (·.2)) = .ok s) :
    ∃ t response, Shuttered toolIndex start (Translator.translate inner responseId chunks) t ∧
      response.output = (Translator.translate inner responseId chunks).collectOutput ∧
      s = {t with innerFailedResponse := some response} := by
  have numbered := Translator.translate_numbered inner responseId chunks
  have followed : Followed uuids toolIndex (fresh start) _ := fresh_followed inner responseId chunks start
  change steps uuids toolIndex _ (fresh start) = .ok s at ran
  generalize Translator.translate inner responseId chunks = t at *
  obtain ⟨response,output,events⟩ := t.fail_events message code
  rw [events] at ran
  obtain ⟨closed,ran,last⟩ := steps_append.mp ran
  have shut := closing_shuttered numbered followed ran
  have stepped := steps_single.mp last
  rw [step_running shut.failed] at stepped
  cases stepped
  exact ⟨closed,response,shut,output,rfl⟩

end
end Stitcher
end Modelship.Mcp

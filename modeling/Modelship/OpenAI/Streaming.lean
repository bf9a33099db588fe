import Mathlib.Data.List.Sort
import Modelship.Foundation.Dict
import Modelship.Foundation.Json

namespace Modelship.Responses
open Foundation

-- `random_uuid`: no two draws agree.
structure Uuids where
  draw : Nat → String
  distinct : Function.Injective draw

inductive Status where
  | inProgress
  | completed
  | incomplete
  | failed
  deriving DecidableEq

def Status.name : Status → String
  | .inProgress => "in_progress"
  | .completed => "completed"
  | .incomplete => "incomplete"
  | .failed => "failed"

-- A tool as an MCP server lists it.
structure ListedTool where
  name : String
  inputSchema : Json
  annotations : Option Json
  description : Option String
  deriving DecidableEq

inductive Item where
  | reasoning (id : String) (summary : List String)
  | message (id : String) (status : Status) (content : List String)
  | functionCall (id callId name arguments : String) (status : Status)
  | mcpListTools (id serverLabel : String) (tools : List ListedTool) (error : Option String)
  | mcpCall (id name arguments serverLabel : String) (approvalRequestId error output : Option String)
      (status : Status)
  | mcpApprovalRequest (id name arguments serverLabel : String)
  deriving DecidableEq

def Item.id : Item → String
  | .reasoning id _ | .message id _ _ | .functionCall id _ _ _ _ | .mcpListTools id _ _ _
  | .mcpCall id _ _ _ _ _ _ _ | .mcpApprovalRequest id _ _ _ => id

def optional (value : Option String) : Json :=
  match value with
  | some text => .str text
  | none => .null

def ListedTool.dump (tool : ListedTool) : Json :=
  .obj [("name",.str tool.name),("input_schema",tool.inputSchema),("annotations",tool.annotations.getD .null),
    ("description",optional tool.description)]

-- `model_dump`: how an output item reads once it is stored and comes back as input.
def Item.dump : Item → Json
  | .reasoning id summary =>
    .obj [("type",.str "reasoning"),("id",.str id),
      ("summary",.arr (summary.map fun text => .obj [("type",.str "summary_text"),("text",.str text)])),
      ("content",.arr [])]
  | .message id status content =>
    .obj [("type",.str "message"),("id",.str id),("role",.str "assistant"),("status",.str status.name),
      ("content",.arr (content.map fun text =>
        .obj [("type",.str "output_text"),("text",.str text),("annotations",.arr [])]))]
  | .functionCall id callId name arguments status =>
    .obj [("type",.str "function_call"),("id",.str id),("call_id",.str callId),("name",.str name),
      ("arguments",.str arguments),("status",.str status.name)]
  | .mcpListTools id serverLabel tools error =>
    .obj [("type",.str "mcp_list_tools"),("id",.str id),("server_label",.str serverLabel),
      ("tools",.arr (tools.map ListedTool.dump)),("error",optional error)]
  | .mcpCall id name arguments serverLabel approvalRequestId error output status =>
    .obj [("type",.str "mcp_call"),("id",.str id),("name",.str name),("arguments",.str arguments),
      ("server_label",.str serverLabel),("approval_request_id",optional approvalRequestId),("error",optional error),
      ("output",optional output),("status",.str status.name)]
  | .mcpApprovalRequest id name arguments serverLabel =>
    .obj [("type",.str "mcp_approval_request"),("id",.str id),("name",.str name),("arguments",.str arguments),
      ("server_label",.str serverLabel)]

structure Usage where
  inputTokens : Nat
  outputTokens : Nat
  totalTokens : Nat
  cachedTokens : Nat
  reasoningTokens : Nat
  deriving DecidableEq

-- What the two sides of the stream read of a response envelope.
structure Response where
  id : String
  status : Status
  output : List Item
  usage : Option Usage
  incomplete : Option String
  error : Option (String × String)
  deriving DecidableEq

inductive Envelope where
  | created
  | inProgress
  | completed
  | incomplete
  | failed
  deriving DecidableEq

-- The event types that carry an item id, an output index and a text, or less.
inductive Part where
  | reasoningPartAdded
  | reasoningDelta
  | reasoningDone
  | reasoningPartDone
  | contentPartAdded
  | textDelta
  | textDone
  | contentPartDone
  | argumentsDelta
  | argumentsDone
  | mcpArgumentsDelta
  | mcpArgumentsDone
  | mcpListToolsInProgress
  | mcpListToolsCompleted
  | mcpListToolsFailed
  | mcpCallInProgress
  | mcpCallCompleted
  | mcpCallFailed
  deriving DecidableEq

inductive Event where
  | envelope (kind : Envelope) (response : Response)
  | added (index : Nat) (item : Item)
  | done (index : Nat) (item : Item)
  | part (kind : Part) (itemId : String) (index : Nat) (text : String)
  deriving DecidableEq

-- Chat chunks, as the loaders feed them.
structure DeltaToolCall where
  index : Int
  id : Option String
  name : Option String
  arguments : Option String

structure Delta where
  reasoning : Option String
  content : Option String
  toolCalls : List DeltaToolCall

structure Choice where
  delta : Delta
  finishReason : Option String

structure Chunk where
  usage : Option Usage
  choices : List Choice

-- An open reasoning or message item.
structure OpenText where
  id : String
  index : Nat
  text : String
  deriving DecidableEq

structure OpenTool where
  id : String
  callId : String
  name : String
  arguments : String
  index : Nat
  deriving DecidableEq

structure Translator where
  responseId : String
  seq : Nat
  nextIndex : Nat
  minted : Nat
  usage : Option Usage
  finishReason : Option String
  reasoning : Option OpenText
  message : Option OpenText
  tools : Dict Int OpenTool
  out : List (Nat × Event)

def nonempty : Option String → Option String
  | some "" => none
  | text => text

namespace Translator
section
variable (uuids : Uuids)

def begin (responseId : String) : Translator := ⟨responseId,0,0,0,none,none,none,none,.empty,[]⟩

def event (t : Translator) (event : Event) : Translator := {t with seq := t.seq + 1,out := t.out ++ [(t.seq,event)]}

def envelope (t : Translator) (kind : Envelope) (status : Status) (output : List Item) (usage : Option Usage)
    (incomplete : Option String) (error : Option (String × String)) : Translator :=
  t.event (.envelope kind ⟨t.responseId,status,output,usage,incomplete,error⟩)

def start (t : Translator) : Translator :=
  (t.envelope .created .inProgress [] none none none).envelope .inProgress .inProgress [] none none none

def onReasoning (t : Translator) (text : String) : Translator :=
  match t.reasoning with
  | none =>
    let item : OpenText := ⟨"rs_" ++ uuids.draw t.minted,t.nextIndex,text⟩
    (({t with reasoning := some item,nextIndex := t.nextIndex + 1,minted := t.minted + 1}.event
      (.added item.index (.reasoning item.id []))).event
      (.part .reasoningPartAdded item.id item.index "")).event
      (.part .reasoningDelta item.id item.index text)
  | some item =>
    {t with reasoning := some {item with text := item.text ++ text}}.event
      (.part .reasoningDelta item.id item.index text)

def onContent (t : Translator) (text : String) : Translator :=
  match t.message with
  | none =>
    let item : OpenText := ⟨"msg_" ++ uuids.draw t.minted,t.nextIndex,text⟩
    (({t with message := some item,nextIndex := t.nextIndex + 1,minted := t.minted + 1}.event
      (.added item.index (.message item.id .inProgress []))).event
      (.part .contentPartAdded item.id item.index "")).event
      (.part .textDelta item.id item.index text)
  | some item =>
    {t with message := some {item with text := item.text ++ text}}.event
      (.part .textDelta item.id item.index text)

-- The first delta of a tool index opens its call; a later one may still bring the name.
def openTool (t : Translator) (call : DeltaToolCall) : Translator × OpenTool :=
  match t.tools.get? call.index with
  | none =>
    let (callId,minted) := match nonempty call.id with
      | some id => (id,t.minted)
      | none => ("call_" ++ uuids.draw t.minted,t.minted + 1)
    let tool : OpenTool := ⟨"fc_" ++ uuids.draw minted,callId,call.name.getD "","",t.nextIndex⟩
    ({t with tools := t.tools.set call.index tool,nextIndex := t.nextIndex + 1,minted := minted + 1}.event
      (.added tool.index (.functionCall tool.id tool.callId tool.name "" .inProgress)),tool)
  | some tool =>
    match nonempty call.name with
    | some name =>
      if tool.name = "" then
        let tool := {tool with name}
        ({t with tools := t.tools.set call.index tool},tool)
      else (t,tool)
    | none => (t,tool)

def onToolCall (t : Translator) (call : DeltaToolCall) : Translator :=
  let (t,tool) := t.openTool uuids call
  match nonempty call.arguments with
  | some text =>
    {t with tools := t.tools.set call.index {tool with arguments := tool.arguments ++ text}}.event
      (.part .argumentsDelta tool.id tool.index text)
  | none => t

def onDelta (t : Translator) (delta : Delta) : Translator :=
  let t := match nonempty delta.reasoning with
    | some text => t.onReasoning uuids text
    | none => t
  let t := match nonempty delta.content with
    | some text => t.onContent uuids text
    | none => t
  delta.toolCalls.foldl (fun t call => t.onToolCall uuids call) t

def onChoice (t : Translator) (choice : Choice) : Translator :=
  let t := t.onDelta uuids choice.delta
  {t with finishReason := choice.finishReason.or t.finishReason}

def process (t : Translator) (chunk : Chunk) : Translator :=
  chunk.choices.foldl (fun t choice => t.onChoice uuids choice) {t with usage := chunk.usage.or t.usage}

-- `sorted(self._tools)`.
def sorted (t : Translator) : List OpenTool :=
  (t.tools.entries.insertionSort fun one two => one.1 ≤ two.1).map (·.2)

def closedReasoning (item : OpenText) : Item := .reasoning item.id [item.text]
def closedMessage (item : OpenText) : Item := .message item.id .completed [item.text]
def closedTool (tool : OpenTool) : Item := .functionCall tool.id tool.callId tool.name tool.arguments .completed

def closeReasoning (t : Translator) : Translator :=
  match t.reasoning with
  | none => t
  | some item =>
    ((t.event (.part .reasoningDone item.id item.index item.text)).event
      (.part .reasoningPartDone item.id item.index item.text)).event
      (.done item.index (closedReasoning item))

def closeMessage (t : Translator) : Translator :=
  match t.message with
  | none => t
  | some item =>
    ((t.event (.part .textDone item.id item.index item.text)).event
      (.part .contentPartDone item.id item.index item.text)).event
      (.done item.index (closedMessage item))

def closeTool (t : Translator) (tool : OpenTool) : Translator :=
  (t.event (.part .argumentsDone tool.id tool.index tool.arguments)).event (.done tool.index (closedTool tool))

def closeTools (t : Translator) : Translator := t.sorted.foldl closeTool t

def closeAll (t : Translator) : Translator := t.closeReasoning.closeMessage.closeTools

def collectOutput (t : Translator) : List Item :=
  (t.reasoning.toList.map closedReasoning) ++ (t.message.toList.map closedMessage) ++ t.sorted.map closedTool

def statusFor (finishReason : Option String) : Status × Option String :=
  match finishReason with
  | some "length" => (.incomplete,some "max_output_tokens")
  | some "content_filter" => (.incomplete,some "content_filter")
  | _ => (.completed,none)

def finish (t : Translator) : Translator :=
  let (status,incomplete) := statusFor t.finishReason
  let kind := if status = .incomplete then .incomplete else .completed
  t.closeAll.envelope kind status t.collectOutput t.usage incomplete none

def fail (t : Translator) (message code : String) : Translator :=
  t.closeAll.envelope .failed .failed t.collectOutput none none (some (code,message))

def translate (responseId : String) (chunks : List Chunk) : Translator :=
  chunks.foldl (fun t chunk => t.process uuids chunk) (begin responseId).start

end

-- Each item with the output index it was opened under, in the order of the output.
def closing (t : Translator) : List (Nat × Item) :=
  t.reasoning.toList.map (fun item => (item.index,closedReasoning item)) ++
  t.message.toList.map (fun item => (item.index,closedMessage item)) ++
  t.sorted.map fun tool => (tool.index,closedTool tool)

theorem closing_output (t : Translator) : t.closing.map (·.2) = t.collectOutput := by
  simp [closing,collectOutput,Function.comp_def]

-- The events that close the texts, and those that close one call.
def closingTexts (t : Translator) : List Event :=
  t.reasoning.toList.flatMap (fun item =>
    [.part .reasoningDone item.id item.index item.text,.part .reasoningPartDone item.id item.index item.text,
      .done item.index (closedReasoning item)]) ++
  t.message.toList.flatMap fun item =>
    [.part .textDone item.id item.index item.text,.part .contentPartDone item.id item.index item.text,
      .done item.index (closedMessage item)]

def closingTool (tool : OpenTool) : List Event :=
  [.part .argumentsDone tool.id tool.index tool.arguments,.done tool.index (closedTool tool)]

theorem closeTool_events (tools : List OpenTool) (t : Translator) :
    (tools.foldl closeTool t).out.map (·.2) = t.out.map (·.2) ++ tools.flatMap closingTool := by
  induction tools generalizing t with
  | nil => simp
  | cons tool rest ih =>
      rw [List.foldl_cons,ih]
      simp [closeTool,event,closingTool]

theorem closeTexts_events (t : Translator) :
    t.closeReasoning.closeMessage.out.map (·.2) = t.out.map (·.2) ++ t.closingTexts ∧
      t.closeReasoning.closeMessage.sorted = t.sorted := by
  cases thought : t.reasoning <;> cases said : t.message <;>
    simp [closeReasoning,closeMessage,thought,said,event,closingTexts,sorted]

theorem closeAll_events (t : Translator) :
    t.closeAll.out.map (·.2) = t.out.map (·.2) ++ (t.closingTexts ++ t.sorted.flatMap closingTool) := by
  obtain ⟨texts,same⟩ := t.closeTexts_events
  rw [closeAll,closeTools,closeTool_events,texts,same,List.append_assoc]

theorem finish_events (t : Translator) : ∃ kind response,
    (kind = Envelope.completed ∨ kind = Envelope.incomplete) ∧ response.output = t.collectOutput ∧
      t.finish.out.map (·.2) =
        t.out.map (·.2) ++ (t.closingTexts ++ t.sorted.flatMap closingTool) ++ [.envelope kind response] := by
  let told := statusFor t.finishReason
  refine ⟨if told.1 = .incomplete then .incomplete else .completed,
    ⟨t.closeAll.responseId,told.1,t.collectOutput,t.usage,told.2,none⟩,?_,rfl,?_⟩
  · split
    · exact .inr rfl
    · exact .inl rfl
  · unfold finish envelope event
    simp only [List.map_append,closeAll_events,List.map_cons,List.map_nil,told]

theorem fail_events (t : Translator) (message code : String) : ∃ response, response.output = t.collectOutput ∧
    (t.fail message code).out.map (·.2) =
      t.out.map (·.2) ++ (t.closingTexts ++ t.sorted.flatMap closingTool) ++ [.envelope .failed response] := by
  refine ⟨⟨t.closeAll.responseId,.failed,t.collectOutput,none,none,some (code,message)⟩,rfl,?_⟩
  unfold fail envelope event
  simp only [List.map_append,closeAll_events,List.map_cons,List.map_nil]

theorem sorted_perm (t : Translator) : t.sorted.Perm (t.tools.entries.map (·.2)) :=
  (List.perm_insertionSort _ _).map _

theorem mem_sorted {t : Translator} {tool : OpenTool} :
    tool ∈ t.sorted ↔ ∃ key, (key,tool) ∈ t.tools.entries := by
  rw [t.sorted_perm.mem_iff]
  simp

def indices (t : Translator) : List Nat :=
  t.reasoning.toList.map (·.index) ++ t.message.toList.map (·.index) ++ t.tools.entries.map (·.2.index)

-- The items take the output indices one after the other, and no two calls share an id.
structure Numbered (uuids : Uuids) (t : Translator) : Prop where
  indices : t.indices.Perm (List.range t.nextIndex)
  ids : (t.tools.entries.map (·.2.id)).Nodup
  drawn : ∀ entry ∈ t.tools.entries, ∃ number < t.minted, entry.2.id = "fc_" ++ uuids.draw number

section
variable {uuids : Uuids} {t : Translator}

theorem begin_numbered (responseId : String) : Numbered uuids (begin responseId) := by
  constructor
  · exact List.Perm.nil
  · exact List.nodup_nil
  · intro entry present
    cases present

-- One more item takes the next index.
theorem next_index (earlier later : List Nat) {next : Nat} (taken : (earlier ++ later).Perm (List.range next)) :
    (earlier ++ next :: later).Perm (List.range (next + 1)) := by
  rw [List.range_succ]
  exact List.perm_middle.trans ((taken.cons next).trans (List.perm_append_singleton next _).symm)

theorem Numbered.mono {drawn : Nat} (numbered : Numbered uuids t) (more : t.minted ≤ drawn) :
    ∀ entry ∈ t.tools.entries, ∃ number < drawn, entry.2.id = "fc_" ++ uuids.draw number := by
  intro entry present
  obtain ⟨number,less,same⟩ := numbered.drawn entry present
  exact ⟨number,by omega,same⟩

theorem Numbered.onReasoning (numbered : Numbered uuids t) (text : String) :
    Numbered uuids (t.onReasoning uuids text) := by
  unfold Translator.onReasoning
  split
  · rename_i absent
    have taken := numbered.indices
    simp only [Translator.indices,absent,Option.toList_none,List.map_nil,List.nil_append] at taken
    constructor
    · have grown := next_index [] _ taken
      simpa [Translator.indices,Translator.event] using grown
    · exact numbered.ids
    · exact numbered.mono (Nat.le_succ _)
  · rename_i item open_
    have taken := numbered.indices
    simp only [Translator.indices,open_] at taken
    exact ⟨taken,numbered.ids,numbered.drawn⟩

theorem Numbered.onContent (numbered : Numbered uuids t) (text : String) :
    Numbered uuids (t.onContent uuids text) := by
  unfold Translator.onContent
  split
  · rename_i absent
    have taken := numbered.indices
    simp only [Translator.indices,absent,Option.toList_none,List.map_nil,List.append_nil] at taken
    constructor
    · have grown := next_index _ _ taken
      simpa [Translator.indices,Translator.event] using grown
    · exact numbered.ids
    · exact numbered.mono (Nat.le_succ _)
  · rename_i item open_
    have taken := numbered.indices
    simp only [Translator.indices,open_] at taken
    exact ⟨taken,numbered.ids,numbered.drawn⟩

-- A call that is open keeps its id and index whatever else of it changes.
theorem Numbered.resets (numbered : Numbered uuids t) {key : Int} {tool old : OpenTool}
    (found : t.tools.get? key = some old) (id : tool.id = old.id) (index : tool.index = old.index) :
    Numbered uuids {t with tools := t.tools.set key tool} := by
  have present := Dict.get_some_mem found
  constructor
  · have same := Dict.put_map (fun entry => entry.2.index) t.tools.distinct present index
    have taken := numbered.indices
    simp only [Translator.indices,Dict.set] at taken ⊢
    rw [same]
    exact taken
  · have same := Dict.put_map (fun entry => entry.2.id) t.tools.distinct present id
    simp only [Dict.set]
    rw [same]
    exact numbered.ids
  · rintro ⟨other,found⟩ there
    rcases Dict.mem_put there with ⟨rfl,rfl⟩ | before
    · obtain ⟨number,less,same⟩ := numbered.drawn _ present
      exact ⟨number,less,id.trans same⟩
    · exact numbered.drawn _ before

theorem fresh_id (numbered : Numbered uuids t) {drawn : Nat} (later : t.minted ≤ drawn) :
    "fc_" ++ uuids.draw drawn ∉ t.tools.entries.map (·.2.id) := by
  intro present
  obtain ⟨entry,there,same⟩ := List.mem_map.mp present
  obtain ⟨number,less,drawn_⟩ := numbered.drawn entry there
  have equal : "fc_" ++ uuids.draw number = "fc_" ++ uuids.draw drawn := by rw [← drawn_,same]
  have number_ := uuids.distinct (String.append_right_inj _ |>.mp equal)
  omega

theorem Numbered.opens (numbered : Numbered uuids t) {key : Int} (absent : t.tools.get? key = none)
    {drawn : Nat} (later : t.minted ≤ drawn) {tool : OpenTool} (id : tool.id = "fc_" ++ uuids.draw drawn)
    (index : tool.index = t.nextIndex) : Numbered uuids
      {t with tools := t.tools.set key tool,nextIndex := t.nextIndex + 1,minted := drawn + 1} := by
  have missing : key ∉ t.tools.entries.map Prod.fst := by
    intro present
    obtain ⟨entry,there,rfl⟩ := List.mem_map.mp present
    rw [Dict.mem_get_some there] at absent
    cases absent
  constructor
  · have grown := next_index t.indices [] (by simpa using numbered.indices)
    simpa [Translator.indices,Dict.set,Dict.put_absent _ missing,index] using grown
  · have fresh := fresh_id numbered later
    simp only [Dict.set,Dict.put_absent _ missing,List.map_append,List.map_cons,List.map_nil,id]
    exact List.nodup_append.mpr ⟨numbered.ids,List.nodup_singleton _,by
      intro one first two second equal
      rw [List.mem_singleton.mp second] at equal
      exact fresh (equal ▸ first)⟩
  · intro entry there
    simp only [Dict.set,Dict.put_absent _ missing,List.mem_append,List.mem_singleton] at there
    rcases there with before | rfl
    · exact numbered.mono (Nat.le_succ_of_le later) entry before
    · exact ⟨drawn,Nat.lt_succ_self drawn,id⟩

end

-- What each way a chunk changes the translator keeps.
structure Steady (uuids : Uuids) (Keeps : Translator → Prop) : Prop where
  reasoning : ∀ t text, Keeps t → Keeps (t.onReasoning uuids text)
  content : ∀ t text, Keeps t → Keeps (t.onContent uuids text)
  opens : ∀ t key drawn (tool : OpenTool), t.tools.get? key = none → t.minted ≤ drawn →
    tool.id = "fc_" ++ uuids.draw drawn → tool.index = t.nextIndex → Keeps t →
    Keeps ({t with tools := t.tools.set key tool,nextIndex := t.nextIndex + 1,minted := drawn + 1}.event
      (.added tool.index (.functionCall tool.id tool.callId tool.name "" .inProgress)))
  renames : ∀ t key (tool : OpenTool) name, t.tools.get? key = some tool → tool.name = "" → Keeps t →
    Keeps {t with tools := t.tools.set key {tool with name}}
  feeds : ∀ t key (tool : OpenTool) text, t.tools.get? key = some tool → Keeps t →
    Keeps ({t with tools := t.tools.set key {tool with arguments := tool.arguments ++ text}}.event
      (.part .argumentsDelta tool.id tool.index text))
  notes : ∀ t usage finishReason, Keeps t → Keeps {t with usage,finishReason}

section
variable {uuids : Uuids} {Keeps : Translator → Prop}

theorem Steady.openTool (steady : Steady uuids Keeps) {t : Translator} (kept : Keeps t) (call : DeltaToolCall) :
    Keeps (t.openTool uuids call).1 ∧
      (t.openTool uuids call).1.tools.get? call.index = some (t.openTool uuids call).2 := by
  unfold Translator.openTool
  split
  · rename_i absent
    cases nonempty call.id with
    | some id => exact ⟨steady.opens t call.index t.minted _ absent (Nat.le_refl _) rfl rfl kept,by simp [event]⟩
    | none => exact ⟨steady.opens t call.index (t.minted + 1) _ absent (Nat.le_succ _) rfl rfl kept,by simp [event]⟩
  · rename_i tool found
    split
    · rename_i name _
      split
      · rename_i unnamed
        exact ⟨steady.renames t call.index tool name found unnamed kept,by simp⟩
      · exact ⟨kept,found⟩
    · exact ⟨kept,found⟩

theorem Steady.onToolCall (steady : Steady uuids Keeps) {t : Translator} (kept : Keeps t) (call : DeltaToolCall) :
    Keeps (t.onToolCall uuids call) := by
  obtain ⟨opened,found⟩ := steady.openTool kept call
  unfold Translator.onToolCall
  cases nonempty call.arguments with
  | some text => exact steady.feeds _ call.index _ text found opened
  | none => exact opened

theorem Steady.onChoice (steady : Steady uuids Keeps) {t : Translator} (kept : Keeps t) (choice : Choice) :
    Keeps (t.onChoice uuids choice) := by
  have calls : ∀ (calls : List DeltaToolCall) t, Keeps t →
      Keeps (calls.foldl (fun t call => t.onToolCall uuids call) t) := by
    intro calls
    induction calls with
    | nil => exact fun t kept => kept
    | cons call rest ih => exact fun t kept => ih _ (steady.onToolCall kept call)
  unfold Translator.onChoice Translator.onDelta
  apply steady.notes
  apply calls
  cases nonempty choice.delta.reasoning with
  | none =>
      cases nonempty choice.delta.content with
      | none => exact kept
      | some text => exact steady.content _ text kept
  | some thought =>
      cases nonempty choice.delta.content with
      | none => exact steady.reasoning _ thought kept
      | some text => exact steady.content _ text (steady.reasoning _ thought kept)

theorem Steady.process (steady : Steady uuids Keeps) {t : Translator} (kept : Keeps t) (chunk : Chunk) :
    Keeps (t.process uuids chunk) := by
  have choices : ∀ (choices : List Choice) t, Keeps t →
      Keeps (choices.foldl (fun t choice => t.onChoice uuids choice) t) := by
    intro choices
    induction choices with
    | nil => exact fun t kept => kept
    | cons choice rest ih => exact fun t kept => ih _ (steady.onChoice kept choice)
  exact choices chunk.choices _ (steady.notes t _ _ kept)

theorem Steady.translate (steady : Steady uuids Keeps) {responseId : String}
    (begins : Keeps (begin responseId).start) (chunks : List Chunk) :
    Keeps (translate uuids responseId chunks) := by
  have all : ∀ (chunks : List Chunk) t, Keeps t → Keeps (chunks.foldl (fun t chunk => t.process uuids chunk) t) := by
    intro chunks
    induction chunks with
    | nil => exact fun t kept => kept
    | cons chunk rest ih => exact fun t kept => ih _ (steady.process kept chunk)
  exact all chunks _ begins

end

theorem numbered_steady (uuids : Uuids) : Steady uuids (Numbered uuids) := by
  constructor
  · intro _ text numbered
    exact numbered.onReasoning text
  · intro _ text numbered
    exact numbered.onContent text
  · intro _ _ _ _ absent later id index numbered
    have opened := numbered.opens absent later id index
    exact ⟨opened.indices,opened.ids,opened.drawn⟩
  · intro _ _ _ _ found _ numbered
    exact numbered.resets found rfl rfl
  · intro t key tool text found numbered
    have fed : Numbered uuids {t with tools := t.tools.set key {tool with arguments := tool.arguments ++ text}} :=
      numbered.resets found rfl rfl
    exact ⟨fed.indices,fed.ids,fed.drawn⟩
  · intro _ _ _ numbered
    exact ⟨numbered.indices,numbered.ids,numbered.drawn⟩

theorem translate_numbered (uuids : Uuids) (responseId : String) (chunks : List Chunk) :
    Numbered uuids (translate uuids responseId chunks) := by
  apply (numbered_steady uuids).translate
  have begins : Numbered uuids (begin responseId) := begin_numbered responseId
  exact ⟨begins.indices,begins.ids,begins.drawn⟩

-- Over the whole stream the items' indices are 0, 1, ... in some order.
theorem closing_perm {uuids : Uuids} {t : Translator} (numbered : Numbered uuids t) :
    (t.closing.map (·.1)).Perm (List.range t.closing.length) := by
  have tools : (t.sorted.map (·.index)).Perm (t.tools.entries.map (·.2.index)) := by
    simpa [Function.comp_def] using t.sorted_perm.map (·.index)
  have indices : (t.closing.map (·.1)).Perm t.indices := by
    simp only [closing,Translator.indices,List.map_append,List.map_map,Function.comp_def]
    exact tools.append_left _
  have taken := indices.trans numbered.indices
  have length : t.closing.length = t.nextIndex := by simpa using taken.length_eq
  rw [length]
  exact taken

end Translator

end Modelship.Responses

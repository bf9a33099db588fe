import Modelship.OpenAI.Mcp.Spec

namespace Modelship.Mcp
open Foundation Responses

def defaultTurnCap : Nat := 10

abbrev ToolIndex := Dict String (McpToolSpec × ListedTool)

inductive Classification where
  | client
  | mcp
  | mcpApproval
  deriving DecidableEq

-- `index` and `outerId` are set with the classification.
structure BufferedCall where
  classification : Option Classification
  rawEvents : List Event
  index : Option Nat
  outerId : String
  name : String
  arguments : String
  spec : Option McpToolSpec
  deriving DecidableEq

structure Stitcher where
  seq : Nat
  offset : Nat
  minted : Nat
  usageTotal : Option Usage
  buffers : Dict String BufferedCall
  pendingMcpCalls : List BufferedCall
  hadClientFunctionCall : Bool
  turnOutput : List (Nat × Item)
  innerFailedResponse : Option Response
  out : List (Nat × Event)

def sumUsage : Option Usage → Option Usage → Option Usage
  | none,b => b
  | a,none => a
  | some a,some b =>
    some ⟨a.inputTokens + b.inputTokens,a.outputTokens + b.outputTokens,a.totalTokens + b.totalTokens,
      a.cachedTokens + b.cachedTokens,a.reasoningTokens + b.reasoningTokens⟩

-- How a loader's stream ends: with the translator's `finish` or `fail`, cut off by a
-- client that is gone, or with an exception.
inductive StreamEnd where
  | finished
  | failed (message code : String)
  | cut
  | broken

inductive Inner where
  | error (response : ErrorResponse)
  | stream (uuids : Uuids) (responseId : String) (chunks : List Chunk) (ending : StreamEnd)

def streamed (t : Translator) : StreamEnd → Translator
  | .finished => t.finish
  | .failed message code => t.fail message code
  | .cut | .broken => t

namespace Stitcher
section
variable (uuids : Uuids) (toolIndex : ToolIndex)

def begin : Stitcher := ⟨0,0,0,none,.empty,[],false,[],none,[]⟩

def emit (s : Stitcher) (event : Event) : Stitcher := {s with seq := s.seq + 1,out := s.out ++ [(s.seq,event)]}

-- An inner event with its output index offset by the slots before the turn.
def shifted (offset : Nat) : Event → Event
  | .envelope kind response => .envelope kind response
  | .added index item => .added (index + offset) item
  | .done index item => .done (index + offset) item
  | .part kind itemId index text => .part kind itemId (index + offset) text

def stamp (s : Stitcher) (event : Event) : Stitcher := s.emit (shifted s.offset event)

def classify (name : String) : Except Raised (Classification × Option McpToolSpec) :=
  match toolIndex.get? name with
  | none => .ok (.client,none)
  | some (spec,tool) =>
    match requiresApproval spec tool with
    | .error response => .error (.api response)
    | .ok true => .ok (.mcpApproval,some spec)
    | .ok false => .ok (.mcp,some spec)

-- The first `added` event a call has buffered.
def addedIndex : List Event → Option Nat
  | [] => none
  | .added index _ :: _ => some index
  | _ :: rest => addedIndex rest

-- A buffered event of a call that turns out to be for an MCP server.
def rewrite (s : Stitcher) (buf : BufferedCall) : Event → Stitcher × BufferedCall
  | .added index _ =>
    let label := (buf.spec.map McpToolSpec.serverLabel).getD ""
    (s.emit (.added (index + s.offset) (.mcpCall buf.outerId buf.name "" label none none none .inProgress)),
      {buf with index := some (index + s.offset)})
  | .part .argumentsDelta _ _ text => (s.emit (.part .mcpArgumentsDelta buf.outerId (buf.index.getD 0) text),buf)
  | .part .argumentsDone _ _ text =>
    (s.emit (.part .mcpArgumentsDone buf.outerId (buf.index.getD 0) text),{buf with arguments := text})
  | _ => (s,buf)

def rewriteAll : List Event → Stitcher → BufferedCall → Stitcher × BufferedCall
  | [],s,buf => (s,buf)
  | event :: rest,s,buf => rewriteAll rest (s.rewrite buf event).1 (s.rewrite buf event).2

def flush (s : Stitcher) (buf : BufferedCall) : Except Raised (Stitcher × BufferedCall) :=
  match classify toolIndex buf.name with
  | .error raised => .error raised
  | .ok (.client,spec) =>
    .ok (buf.rawEvents.foldl stamp s,{buf with classification := some .client,spec,rawEvents := []})
  | .ok (.mcpApproval,spec) =>
    .ok (s,{buf with
      classification := some .mcpApproval,spec,rawEvents := []
      index := (addedIndex buf.rawEvents).map (· + s.offset)})
  | .ok (.mcp,spec) =>
    let outerId := "mcp_" ++ uuids.draw s.minted
    let (s,after) := rewriteAll buf.rawEvents {s with minted := s.minted + 1}
      {buf with classification := some .mcp,spec,outerId}
    .ok (s,{after with rawEvents := []})

-- Whether the turn's own output keeps an item: all but the calls for MCP servers.
def plain (buffers : Dict String BufferedCall) : Item → Bool
  | .functionCall id _ _ _ _ =>
    match buffers.get? id with
    | none => true
    | some buf => buf.classification = some .client
  | _ => true

def isFunctionCall : Item → Bool
  | .functionCall _ _ _ _ _ => true
  | _ => false

def absorb (s : Stitcher) (response : Response) : Stitcher :=
  let kept := (response.output.zipIdx s.offset).filter fun (item,_) => plain s.buffers item
  {s with
    usageTotal := sumUsage s.usageTotal response.usage
    turnOutput := s.turnOutput ++ kept.map fun (item,index) => (index,item)
    hadClientFunctionCall := s.hadClientFunctionCall || kept.any fun (item,_) => isFunctionCall item
    offset := s.offset + response.output.length}

-- `run_turn` on one event.
def read (s : Stitcher) (event : Event) : Except Raised Stitcher :=
  match event with
  | .envelope .created _ | .envelope .inProgress _ => .ok s
  | .envelope .failed response => .ok {s with innerFailedResponse := some response}
  | .envelope .completed response | .envelope .incomplete response => .ok (s.absorb response)
  | .added index (.functionCall id callId name arguments status) =>
    let event : Event := .added index (.functionCall id callId name arguments status)
    let buf : BufferedCall := ⟨none,[event],none,"",name,"",none⟩
    if name = "" then .ok {s with buffers := s.buffers.set id buf} else
    match s.flush uuids toolIndex buf with
    | .error raised => .error raised
    | .ok (s,buf) => .ok {s with buffers := s.buffers.set id buf}
  | .part .argumentsDelta id index text =>
    match s.buffers.get? id with
    | none => .ok s
    | some buf =>
      match buf.classification with
      | none =>
        let event : Event := .part .argumentsDelta id index text
        .ok {s with buffers := s.buffers.set id {buf with rawEvents := buf.rawEvents ++ [event]}}
      | some .client => .ok (s.stamp (.part .argumentsDelta id index text))
      | some .mcp => .ok (s.emit (.part .mcpArgumentsDelta buf.outerId (buf.index.getD 0) text))
      | some .mcpApproval => .ok s
  | .part .argumentsDone id index text =>
    match s.buffers.get? id with
    | none => .ok s
    | some buf =>
      match buf.classification with
      | none =>
        let event : Event := .part .argumentsDone id index text
        .ok {s with buffers := s.buffers.set id {buf with rawEvents := buf.rawEvents ++ [event]}}
      | some .client => .ok (s.stamp (.part .argumentsDone id index text))
      | some .mcp =>
        .ok ({s with buffers := s.buffers.set id {buf with arguments := text}}.emit
          (.part .mcpArgumentsDone buf.outerId (buf.index.getD 0) text))
      | some .mcpApproval => .ok {s with buffers := s.buffers.set id {buf with arguments := text}}
  | .done index (.functionCall id callId name arguments status) =>
    match s.buffers.get? id with
    | none => .error .lookup
    | some buf =>
      let buf := if name = "" then buf else {buf with name}
      match (if buf.classification = none then s.flush uuids toolIndex buf else .ok (s,buf)) with
      | .error raised => .error raised
      | .ok (s,buf) =>
        let buf := {buf with arguments}
        let s := {s with buffers := s.buffers.set id buf}
        if buf.classification = some .client then
          .ok (s.stamp (.done index (.functionCall id callId name arguments status)))
        else .ok {s with pendingMcpCalls := s.pendingMcpCalls ++ [buf]}
  | event => .ok (s.stamp event)

-- After `response.failed` it reads no more.
def step (s : Stitcher) (event : Event) : Except Raised Stitcher :=
  if s.innerFailedResponse.isSome then .ok s else s.read uuids toolIndex event

def steps : List Event → Stitcher → Except Raised Stitcher
  | [],s => .ok s
  | event :: rest,s =>
    match s.step uuids toolIndex event with
    | .error raised => .error raised
    | .ok s => steps rest s

def runTurn (s : Stitcher) (events : List Event) : Except Raised Stitcher :=
  steps uuids toolIndex events {s with
    buffers := .empty,pendingMcpCalls := [],hadClientFunctionCall := false,turnOutput := []
    innerFailedResponse := none}

end
end Stitcher

-- A `connections.call_tool` that was made.
structure Call where
  spec : McpToolSpec
  name : String
  arguments : String
  approvalRequestId : Option String
  deriving DecidableEq

-- `accumulator` has a hole where the code has an empty dict. `placed` lists what was
-- put into its slots, `calls` the tool calls made and `turns` counts the inner turns
-- taken over; these three only record.
structure Run where
  stitcher : Stitcher
  accumulator : List (Option Item)
  placed : List (Nat × Item)
  calls : List Call
  turns : Nat

-- How `_events` leaves off: with an error response, with `response.failed`, with an
-- exception, or at the terminal event it is about to build.
inductive Ending where
  | error (response : ErrorResponse)
  | failed
  | raised (exception : Raised)
  | reached (status : Status) (incomplete : Option String)
  deriving DecidableEq

-- The stored `mcp_list_tools` item of a server; no tools where one does not validate.
structure Listing where
  serverUrl : String
  allowedTools : Json
  tools : Option (List ListedTool)

structure Request where
  tools : List Json
  toolChoice : Json
  input : List Json
  previousResponseId : Option String
  maxToolCalls : Option Int

-- What lies outside: the ids drawn, the MCP servers, the loader and what is stored.
-- `callTool` and `inner` answer the calls of one response in their order.
structure Environment where
  uuids : Uuids
  responseId : String
  complaint : Json → String
  validateServerUrl : String → Except ErrorResponse Unit
  listings : String → Option Listing
  listTools : McpToolSpec → Except String (List ListedTool)
  callTool : Nat → Except String String
  inner : Nat → Inner

namespace Run

def begin : Run := ⟨.begin,[],[],[],0⟩

def emit (r : Run) (event : Event) : Run := {r with stitcher := r.stitcher.emit event}

def mint (r : Run) : Run := {r with stitcher := {r.stitcher with minted := r.stitcher.minted + 1}}

-- `accumulator.append`.
def append (r : Run) (item : Item) : Run :=
  {r with accumulator := r.accumulator ++ [some item],placed := r.placed ++ [(r.accumulator.length,item)]}

-- `accumulator[index] = item`.
def place (r : Run) (index : Nat) (item : Item) : Run :=
  {r with accumulator := r.accumulator.set index (some item),placed := r.placed ++ [(index,item)]}

def claimSlot (r : Run) : Run := {r with stitcher := {r.stitcher with offset := r.stitcher.offset + 1}}

end Run

section
variable (env : Environment)

def response (r : Run) (status : Status) (output : List Item) (incomplete : Option String)
    (error : Option (String × String)) : Response :=
  ⟨env.responseId,status,output,r.stitcher.usageTotal,incomplete,error⟩

-- `_failed_event`, whose output must have no holes.
def failedEvent (r : Run) (message code : String) : Run × Ending :=
  match r.accumulator.mapM id with
  | none => (r,.raised (.api ⟨"unsupported output item type None.","",400,none⟩))
  | some output => (r.emit (.envelope .failed (response env r .failed output none (some (code,message)))),.failed)

def executeMcpCall (r : Run) (outerId : String) (index : Nat) (name arguments : String) (spec : McpToolSpec)
    (approvalRequestId : Option String) : Run × Item :=
  let r := r.emit (.part .mcpCallInProgress outerId index "")
  let answer := env.callTool r.calls.length
  let call : Call := ⟨spec,name,arguments,approvalRequestId⟩
  let r : Run := {r with calls := r.calls ++ [call]}
  match answer with
  | .ok output =>
    let item : Item := .mcpCall outerId name arguments spec.serverLabel approvalRequestId none (some output) .completed
    ((r.emit (.part .mcpCallCompleted outerId index "")).emit (.done index item),item)
  | .error message =>
    let item : Item := .mcpCall outerId name arguments spec.serverLabel approvalRequestId (some message) none .failed
    ((r.emit (.part .mcpCallFailed outerId index "")).emit (.done index item),item)

def storedTools (spec : McpToolSpec) : Except Raised (Option (List ListedTool)) :=
  match env.listings spec.serverLabel with
  | none => .ok none
  | some listing =>
    if listing.serverUrl = spec.serverUrl ∧ listing.allowedTools = spec.allowedTools then
      match listing.tools with
      | none => .ok none
      | some tools =>
        match filterTools spec tools with
        | .ok tools => .ok (some tools)
        | .error response => .error (.api response)
    else .ok none

-- What discovery has found so far.
structure Found where
  discovered : Discovered
  toolIndex : ToolIndex

def Found.add (found : Found) (spec : McpToolSpec) (tools : List ListedTool) : Found :=
  ⟨found.discovered ++ [(spec.serverLabel,tools)],
    tools.foldl (fun toolIndex tool => toolIndex.set tool.name (spec,tool)) found.toolIndex⟩

-- One server asked for its tools, in a slot of the output.
def discover (r : Run) (spec : McpToolSpec) : (Run × List ListedTool) ⊕ (Run × Ending) :=
  let index := r.stitcher.offset
  let id := "mcpl_" ++ env.uuids.draw r.stitcher.minted
  let label := spec.serverLabel
  let r := ((r.claimSlot.mint.emit (.added index (.mcpListTools id label [] none))).emit
    (.part .mcpListToolsInProgress id index ""))
  match env.listTools spec with
  | .error message =>
    let item : Item := .mcpListTools id label [] (some message)
    let r := ((r.emit (.part .mcpListToolsFailed id index "")).emit (.done index item)).append item
    .inr (failedEvent env r ("mcp server " ++ quoted label ++ " discovery failed: " ++ message) "server_error")
  | .ok listed =>
    match filterTools spec listed with
    | .error response => .inr (r,.raised (.api response))
    | .ok tools =>
      let item : Item := .mcpListTools id label tools none
      .inl (((r.emit (.part .mcpListToolsCompleted id index "")).emit (.done index item)).append item,tools)

def discoverAll (r : Run) (found : Found) : List McpToolSpec → (Run × Found) ⊕ (Run × Ending)
  | [] => .inl (r,found)
  | spec :: rest =>
    match storedTools env spec with
    | .error raised => .inr (r,.raised raised)
    | .ok (some tools) => discoverAll r (found.add spec tools) rest
    | .ok none =>
      match discover env r spec with
      | .inr ended => .inr ended
      | .inl (r,tools) => discoverAll r (found.add spec tools) rest

end

def isDict : Json → Bool
  | .obj _ => true
  | _ => false

def approvalRequest (item : Json) : Bool := isDict item && item.get "type" = .str "mcp_approval_request"
def approvalResponse (item : Json) : Bool := isDict item && item.get "type" = .str "mcp_approval_response"

-- `approval_requests_by_id` can be built: the id of every request is a key.
def indexable (items : List Json) : Bool := items.all fun item => !approvalRequest item || hashable (item.get "id")

-- A lookup in it: of several items with one id the last one counts.
def requestFor (items : List Json) (id : Json) : Option Json :=
  (items.reverse.find? fun item => approvalRequest item && item.get "id" = id)

-- `req_item.get(name, "")` where it is a string, as `McpCallItem` asks.
def textField (item : Json) (name : String) : Option String := ((item.find? name).getD (.str "")).str?

def approvalId : Json → Option (Option String)
  | .str id => some (some id)
  | .null => some none
  | _ => none

section
variable (env : Environment) (specs : List McpToolSpec) (found : Found) (items : List Json)

def specFor (label : String) : Option McpToolSpec := specs.find? (·.serverLabel == label)

-- What an `mcp_approval_response` item resolves to: its request's name, server label
-- and arguments.
structure Resolved where
  id : Option String
  name : String
  label : String
  arguments : String

def resolve (item request : Json) : Option Resolved :=
  match approvalId (item.get "approval_request_id"),textField request "name",textField request "server_label",
    textField request "arguments" with
  | some id,some name,some label,some arguments => some ⟨id,name,label,arguments⟩
  | _,_,_,_ => none

-- The server of a resolved approval, where it is configured and has the tool.
def knownTool (resolved : Resolved) : Option McpToolSpec :=
  match specFor specs resolved.label with
  | none => none
  | some spec =>
    if (found.discovered.get resolved.label).any (·.name == resolved.name) then some spec else none

def rejection (item : Json) (resolved : Resolved) : String :=
  match specFor specs resolved.label with
  | none => "mcp server " ++ quoted resolved.label ++ " is not configured on this request."
  | some _ =>
    if (found.discovered.get resolved.label).any (·.name == resolved.name) then
      match (item.get "reason").str? with
      | some reason => if reason = "" then "Tool call was rejected." else "Tool call was rejected. " ++ reason
      | none => "Tool call was rejected."
    else "tool " ++ quoted resolved.name ++ " is not available on mcp server " ++ quoted resolved.label ++ "."

-- One approval response is carried out, or recorded as a call that failed.
def resumeOne (r : Run) (item : Json) (resolved : Resolved) : Run :=
  let outerId := "mcp_" ++ env.uuids.draw r.stitcher.minted
  let index := r.stitcher.offset
  let r := r.mint.claimSlot
  match (item.get "approve").truthy,knownTool specs found resolved with
  | true,some spec =>
    let r := r.emit (.added index (.mcpCall outerId resolved.name resolved.arguments resolved.label resolved.id none
      none .inProgress))
    let r := (r.emit (.part .mcpArgumentsDelta outerId index resolved.arguments)).emit
      (.part .mcpArgumentsDone outerId index resolved.arguments)
    let (r,item) := executeMcpCall env r outerId index resolved.name resolved.arguments spec resolved.id
    r.append item
  | _,_ =>
    let item : Item := .mcpCall outerId resolved.name resolved.arguments resolved.label resolved.id
      (some (rejection specs found item resolved)) none .failed
    let r := (r.emit (.added index item)).emit (.part .mcpCallInProgress outerId index "")
    ((r.emit (.part .mcpCallFailed outerId index "")).emit (.done index item)).append item

-- What an approval is refused with whose request is not in the input.
def unknownApproval (item : Json) : ErrorResponse :=
  let name := match item.get "approval_request_id" with
    | .str id => quoted id
    | _ => "None"
  ⟨"mcp_approval_response references unknown approval_request_id " ++ name ++ ".","invalid_request_error",400,none⟩

-- `items` is the whole input, the last argument what of it is still to scan.
def resume (r : Run) : List Json → Run ⊕ (Run × Ending)
  | [] => .inl r
  | item :: rest =>
    if approvalResponse item = false then resume r rest else
    if hashable (item.get "approval_request_id") = false then .inr (r,.raised .lookup) else
    match requestFor items (item.get "approval_request_id") with
    | none => .inr (r,.error (unknownApproval item))
    | some request =>
      match resolve item request with
      | none => .inr (r,.raised .validation)
      | some resolved => resume (resumeOne env specs found r item resolved) rest

def resumeAll (r : Run) : Run ⊕ (Run × Ending) :=
  if indexable items then resume env specs found items r items else .inr (r,.raised .lookup)

end

section
variable (env : Environment)

-- The calls of a turn for MCP servers, in their order: an approval request or the call.
def settleOne (r : Run) (buf : BufferedCall) : Run :=
  match buf.spec,buf.index with
  | some spec,some index =>
    if buf.classification = some .mcpApproval then
      let item : Item := .mcpApprovalRequest ("mcpr_" ++ env.uuids.draw r.stitcher.minted) buf.name buf.arguments
        spec.serverLabel
      ((r.mint.emit (.added index item)).emit (.done index item)).place index item
    else
      let (r,item) := executeMcpCall env r buf.outerId index buf.name buf.arguments spec none
      r.place index item
  | _,_ => r

-- A turn's items get their slots of the accumulator.
def takeOver (r : Run) : Run :=
  let s := r.stitcher
  let slots := List.replicate (s.turnOutput.length + s.pendingMcpCalls.length) none
  let r := {r with accumulator := r.accumulator ++ slots,turns := r.turns + 1}
  s.pendingMcpCalls.foldl (settleOne env) (s.turnOutput.foldl (fun r placed => r.place placed.1 placed.2) r)

def executed (s : Stitcher) : Nat := (s.pendingMcpCalls.filter (·.classification != some .mcpApproval)).length

-- One turn of the loop, after `count` calls: it ends the loop or leaves what the next
-- turn starts from.
def turn (toolIndex : ToolIndex) (maxToolCalls : Option Int) (number count : Nat) (r : Run) :
    (Run × Ending) ⊕ (Nat × Run) :=
  match env.inner number with
  | .error response => .inl (r,.error response)
  | .stream uuids responseId chunks ending =>
    let events := (streamed (Translator.translate uuids responseId chunks) ending).out.map (·.2)
    match r.stitcher.runTurn env.uuids toolIndex events with
    | .error raised => .inl (r,.raised raised)
    | .ok s =>
      let r := {r with stitcher := s}
      match ending,s.innerFailedResponse with
      | .broken,_ => .inl (r,.raised .loader)
      | _,some failed => .inl (r.emit (.envelope .failed {failed with id := env.responseId}),.failed)
      | _,none =>
        let approvals := s.pendingMcpCalls.any (·.classification == some .mcpApproval)
        let count := count + executed s
        let r := takeOver env r
        if approvals || s.hadClientFunctionCall || s.pendingMcpCalls.isEmpty then .inl (r,.reached .completed none) else
        match maxToolCalls with
        | some limit =>
          if limit ≤ count then .inl (r,.reached .incomplete (some "max_tool_calls")) else .inr (count,r)
        | none => .inr (count,r)

-- The turn loop with `left` turns to go.
def turnLoop (toolIndex : ToolIndex) (maxToolCalls : Option Int) : Nat → Nat → Run → Run × Ending
  | 0,_,r => (r,.reached .incomplete (some "max_tool_calls"))
  | left + 1,count,r =>
    match turn env toolIndex maxToolCalls (defaultTurnCap - (left + 1)) count r with
    | .inl ended => ended
    | .inr (count,r) => turnLoop toolIndex maxToolCalls left count r

-- The checks before any event.
def preChecks (request : Request) : Except ErrorResponse (List McpToolSpec × List Json) := do
  let (specs,otherTools) ← splitMcpTools env.complaint request.tools
  specs.forM fun spec => env.validateServerUrl spec.serverUrl
  if request.toolChoice.get "type" = .str "mcp" then
    throw (mcpError "tool_choice forcing a specific mcp tool is not supported.")
  if request.previousResponseId.isNone && request.input.any approvalResponse then
    throw ⟨"mcp_approval_response requires previous_response_id: an approval can only be " ++
      "resumed from a prior response's own mcp_approval_request, not supplied directly " ++
      "on a fresh request.","invalid_request_error",400,some "input"⟩
  return (specs,otherTools)

-- The two events that open the stream.
def started : Run :=
  let created := response env .begin .inProgress [] none none
  (Run.begin.emit (.envelope .created created)).emit (.envelope .inProgress created)

-- `_events` up to its terminal event.
def drive (request : Request) : Run × Ending :=
  match preChecks env request with
  | .error response => (.begin,.error response)
  | .ok (specs,otherTools) =>
    match discoverAll env (started env) ⟨[],.empty⟩ specs with
    | .inr ended => ended
    | .inl (r,found) =>
      match checkCollisions specs found.discovered otherTools with
      | .error (.api refused) => failedEvent env r refused.message "invalid_prompt"
      | .error raised => (r,.raised raised)
      | .ok _ =>
        match resumeAll env specs found request.input r with
        | .inr ended => ended
        | .inl r => turnLoop env found.toolIndex request.maxToolCalls defaultTurnCap 0 r

-- The terminal event is built where the accumulator has no hole.
def events (request : Request) : Run × Ending :=
  match drive env request with
  | (r,.reached status incomplete) =>
    match r.accumulator.mapM id with
    | none => (r,.raised (.api ⟨"unsupported output item type None.","",400,none⟩))
    | some output =>
      let kind := if status = .completed then .completed else .incomplete
      (r.emit (.envelope kind (response env r status output incomplete none)),.reached status incomplete)
  | ended => ended

end

end Modelship.Mcp

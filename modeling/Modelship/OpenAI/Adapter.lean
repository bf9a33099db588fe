import Modelship.Foundation.Runs
import Modelship.OpenAI.Mcp.Spec

namespace Modelship.Responses
open Foundation Mcp

-- What makes `_messages_from_items` give up: its own error, which becomes a
-- 400, or a value of a shape the code does not expect.
inductive Refusal where
  | unsupported (message : String)
  | crashed
  deriving DecidableEq

-- A tool call as a chat message carries it. Items are decoded JSON, so nothing
-- makes the id, the name or the arguments a string.
structure MessageCall where
  id : Json
  name : Json
  arguments : Json
  deriving DecidableEq

structure ChatMessage where
  role : Json
  content : Json
  toolCalls : List MessageCall
  toolCallId : Option Json
  reasoning : Option String
  deriving DecidableEq

-- `repr` of a decoded value.
mutual
def shown : Json → String
  | .null => "None"
  | .bool true => "True"
  | .bool false => "False"
  | .num value => toString value
  | .str text => quoted text
  | .arr values => "[" ++ ", ".intercalate (shownValues values) ++ "]"
  | .obj fields => "\x7b" ++ ", ".intercalate (shownFields fields) ++ "\x7d"
def shownValues : List Json → List String
  | [] => []
  | value :: rest => shown value :: shownValues rest
def shownFields : List (String × Json) → List String
  | [] => []
  | (key,value) :: rest => (quoted key ++ ": " ++ shown value) :: shownFields rest
end

-- How a value is found in a set: `True` and 1 are one member, and a list or an
-- object cannot be asked for at all.
def member : Json → Except Refusal Json
  | .arr _ | .obj _ => .error .crashed
  | .bool value => .ok (.num (if value then 1 else 0))
  | value => .ok value

def textOf : Json → Except Refusal (Option String)
  | .null => .ok none
  | .str text => .ok (some text)
  | .arr values =>
    let parts := values.filterMap fun part => (part.get "text").str?
    .ok (if parts.isEmpty then none else some (String.join parts))
  | content => .error (.unsupported ("unsupported content shape " ++ shown content ++ "."))

def partToChat (part : Json) : Except Refusal Json :=
  match part with
  | .obj _ =>
    match part.get "type" with
    | .str "input_text" | .str "output_text" | .str "text" =>
      .ok (.obj [("type",.str "text"),("text",part.get "text")])
    | .str "input_image" | .str "image_url" =>
      let url := match part.get "image_url" with
        | .str url => .obj [("url",.str url)]
        | url => url
      .ok (.obj [("type",.str "image_url"),("image_url",url)])
    | .arr _ | .obj _ => .error .crashed
    | kind => .error (.unsupported ("unsupported content part type " ++ shown kind ++ "."))
  | _ => .error (.unsupported ("unsupported content part " ++ shown part ++ "."))

-- `part["text"] or ""`, inside a join.
def joined (part : Json) : Except Refusal String :=
  match part.get "text" with
  | .str text => .ok text
  | text => if text.truthy then .error .crashed else .ok ""

def contentToChat : Json → Except Refusal Json
  | .null => .ok .null
  | .str text => .ok (.str text)
  | .arr values => do
    let parts ← values.mapM partToChat
    if parts.all fun part => part.get "type" = .str "text" then
      return .str (String.join (← parts.mapM joined))
    else return .arr parts
  | content => .error (.unsupported ("unsupported content shape " ++ shown content ++ "."))

-- The loop's variables: what was read so far, the call ids seen, the reasoning
-- carried to the next item and the system-level texts.
structure Reading where
  messages : List ChatMessage
  seenCallIds : List Json
  carried : Option String
  systemParts : List String
  deriving DecidableEq

namespace Reading

def say (r : Reading) (message : ChatMessage) : Reading := {r with messages := r.messages ++ [message]}

-- An assistant message with one call, and the tool message that answers one.
def calls (r : Reading) (reasoning : Option String) (id name : Json) (item : Json) : Reading :=
  r.say ⟨.str "assistant",.null,[⟨id,name,(item.find? "arguments").getD (.str "")⟩],none,reasoning⟩

def answers (r : Reading) (id : Json) (content : Option String) : Reading :=
  r.say ⟨.str "tool",optional content,[],some id,none⟩

def functionCall (r : Reading) (reasoning : Option String) (item : Json) : Except Refusal Reading := do
  let callId := if (item.get "call_id").truthy then item.get "call_id" else item.get "id"
  let name := item.get "name"
  if !callId.truthy || !name.truthy then
    throw (.unsupported "function_call input items require both 'call_id' (or 'id') and 'name'.")
  let seen ← member callId
  return {r with seenCallIds := seen :: r.seenCallIds}.calls reasoning callId name item

-- A call that was already run reads as the call and its result, a pair.
def mcpCall (r : Reading) (reasoning : Option String) (item : Json) : Except Refusal Reading := do
  let callId := item.get "id"
  let name := item.get "name"
  if !callId.truthy || !name.truthy then
    throw (.unsupported "mcp_call input items require both 'id' and 'name'.")
  let output := item.get "output"
  let error := item.get "error"
  if isNull output && isNull error then
    throw (.unsupported "mcp_call input items require one of 'output' or 'error'.")
  let content ← if isNull error then textOf output else textOf error
  return (r.calls reasoning callId name item).answers callId content

def functionCallOutput (r : Reading) (item : Json) : Except Refusal Reading := do
  let callId := item.get "call_id"
  if !callId.truthy then
    throw (.unsupported "function_call_output input items require 'call_id'.")
  let content ← textOf (item.get "output")
  if r.seenCallIds.contains (← member callId) then return r.answers callId content
  else throw (.unsupported ("function_call_output references unknown call_id " ++ shown callId ++
    " (no matching function_call)."))

def reasoning (r : Reading) (item : Json) : Except Refusal Reading := do
  let text ← match nonempty (← textOf (item.get "content")) with
    | some text => pure (some text)
    | none => textOf (item.get "summary")
  return {r with carried := nonempty text}

def message (r : Reading) (reasoning : Option String) (item : Json) : Except Refusal Reading := do
  let role := (item.find? "role").getD (.str "user")
  if role = .str "system" || role = .str "developer" then
    let text ← textOf (item.get "content")
    return {r with systemParts := r.systemParts ++ (nonempty text).toList}
  let content ← contentToChat (item.get "content")
  return r.say ⟨role,content,[],none,if role = .str "assistant" then reasoning else none⟩

end Reading

-- What `decrypt_items` gives for a blob.
inductive Decoded where
  | items (items : List Json)
  | invalidToken
  | keyless

abbrev Reader := List Json → List String → Except Refusal (List ChatMessage × List String)

def isCompaction (item : Json) : Bool := item.get "type" = .str "compaction"

section
variable (decrypt : String → Decoded)

-- The items a compaction item stands for, read where it stands.
def Reading.compaction (inner : Reader) (r : Reading) (item : Json) : Except Refusal Reading :=
  match item.get "encrypted_content" with
  | .str "" => .error (.unsupported "compaction input items require 'encrypted_content'.")
  | .str blob =>
    match decrypt blob with
    | .invalidToken => .error (.unsupported "compaction item could not be decoded.")
    | .keyless => .error .crashed
    | .items decoded => do
      if decoded.any isCompaction then
        throw (.unsupported "compaction items cannot nest another compaction item.")
      let (messages,systemParts) ← inner decoded r.systemParts
      return {r with messages := r.messages ++ messages,systemParts}
  | content =>
    if content.truthy then .error .crashed
    else .error (.unsupported "compaction input items require 'encrypted_content'.")

def readItem (inner : Reader) (r : Reading) (item : Json) : Except Refusal Reading :=
  match item with
  | .obj _ =>
    let reasoning := r.carried
    let r := {r with carried := none}
    match item.get "type" with
    | .str "function_call" => r.functionCall reasoning item
    | .str "mcp_call" => r.mcpCall reasoning item
    | .str "mcp_list_tools" | .str "mcp_approval_request" | .str "mcp_approval_response" => .ok r
    | .str "function_call_output" => r.functionCallOutput item
    | .str "reasoning" => r.reasoning item
    | .str "compaction" => r.compaction decrypt inner item
    | .str "message" => r.message reasoning item
    | kind =>
      if (item.find? "role").isSome then r.message reasoning item
      else .error (.unsupported ("unsupported input item type " ++ shown kind ++ "."))
  | _ => .error .crashed

def readItems (inner : Reader) : Reader := fun items systemParts => do
  let r ← items.foldlM (readItem decrypt inner) ⟨[],[],none,systemParts⟩
  return (r.messages,r.systemParts)

-- `_messages_from_items`. A decoded list holds no compaction item, so the inner
-- reading never comes to decode one of its own.
def messagesFromItems : Reader := readItems decrypt (readItems decrypt fun _ _ => .error .crashed)

-- Only a compaction item asks the inner reader anything, and it asks about
-- lists without one.
theorem readItem_inner {inner other : Reader}
    (agree : ∀ items, items.any isCompaction = false → inner items = other items) (r : Reading) (item : Json) :
    readItem decrypt inner r item = readItem decrypt other r item := by
  unfold readItem
  split
  · split <;> try rfl
    unfold Reading.compaction
    split <;> try rfl
    split <;> try rfl
    rename_i decoded _
    cases nested : decoded.any isCompaction with
    | true => rfl
    | false => simp only [agree decoded nested]
  · rfl

theorem readItems_flat (inner other : Reader) {items : List Json} (flat : items.any isCompaction = false) :
    readItems decrypt inner items = readItems decrypt other items := by
  funext systemParts
  unfold readItems
  rw [foldlM_congr ?_]
  intro r item there
  have plain : isCompaction item = false := by simpa using List.any_eq_false.mp flat item there
  unfold readItem
  split
  · split <;> try rfl
    rename_i kind
    simp [isCompaction,kind] at plain
  · rfl

-- The recursion as the source has it.
theorem messagesFromItems_recursive :
    messagesFromItems decrypt = readItems decrypt (messagesFromItems decrypt) := by
  funext items systemParts
  unfold messagesFromItems
  conv_rhs => unfold readItems
  conv_lhs => unfold readItems
  rw [foldlM_congr ?_]
  intro r item _
  apply readItem_inner
  intro items flat
  exact readItems_flat decrypt _ _ flat

end

end Modelship.Responses

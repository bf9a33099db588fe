import Modelship.Foundation.Json
import Modelship.Foundation.Text
import Modelship.OpenAI.Streaming

namespace Modelship.Mcp
open Foundation Responses

structure ErrorResponse where
  message : String
  errType : String
  statusCode : Nat
  param : Option String
  deriving DecidableEq

structure McpToolSpec where
  serverLabel : String
  serverUrl : String
  headers : Option Json
  authorization : Option String
  allowedTools : Json
  requireApproval : Json
  deriving DecidableEq

-- An exception that leaves the generator: an API error raised in the middle of the
-- stream, a lookup that fails, a value pydantic rejects, or the loader's own.
inductive Raised where
  | api (response : ErrorResponse)
  | lookup
  | validation
  | loader
  deriving DecidableEq

def mcpError (message : String) : ErrorResponse := ⟨message,"invalid_request_error",400,some "tools"⟩

-- Whether a value may be a member of a set, or a key of a dict.
def hashable : Json → Bool
  | .arr _ | .obj _ => false
  | _ => true

def isNull : Json → Bool
  | .null => true
  | _ => false

def readOnly (tool : ListedTool) : Bool :=
  let annotations := tool.annotations.getD (.obj [])
  (annotations.get "readOnlyHint").truthy || (annotations.get "read_only_hint").truthy

def toolNames (spec : McpToolSpec) (field : String) : Json → Except ErrorResponse (List String)
  | .arr values =>
    match values.mapM Json.str? with
    | some names => .ok names
    | none => .error (mcpError ("'" ++ field ++ "' must be a list of strings for server " ++ quoted spec.serverLabel ++ "."))
  | _ => .error (mcpError ("'" ++ field ++ "' must be a list of strings for server " ++ quoted spec.serverLabel ++ "."))

def requireBool (spec : McpToolSpec) (field : String) : Json → Except ErrorResponse Unit
  | .bool _ => .ok ()
  | _ => .error (mcpError ("'" ++ field ++ "' must be a boolean for server " ++ quoted spec.serverLabel ++ "."))

-- A `tool_names` list keeps the tools it names; one that is absent keeps all.
def keepNamed (spec : McpToolSpec) (field : String) (names : Json) (tools : List ListedTool) :
    Except ErrorResponse (List ListedTool) :=
  if isNull names then .ok tools else do
    let names ← toolNames spec field names
    return tools.filter fun tool => names.contains tool.name

def filterTools (spec : McpToolSpec) (tools : List ListedTool) : Except ErrorResponse (List ListedTool) :=
  match spec.allowedTools with
  | .null => .ok tools
  | .arr values => keepNamed spec "allowed_tools" (.arr values) tools
  | .obj fields => do
    let kept ← keepNamed spec "allowed_tools.tool_names" ((Json.obj fields).get "tool_names") tools
    return if ((Json.obj fields).get "read_only").truthy then kept.filter readOnly else kept
  | _ => .error (mcpError ("unsupported 'allowed_tools' shape for server " ++ quoted spec.serverLabel ++ "."))

-- Whether a bucket's `tool_names`, where it has them, name the tool.
def named (spec : McpToolSpec) (tool : ListedTool) (field : String) (bucket : Json) : Except ErrorResponse Bool :=
  let names := bucket.get "tool_names"
  if isNull names then .ok false else do
    let names ← toolNames spec field names
    return names.contains tool.name

def asBucket (value : Json) : Option Json :=
  if value.truthy then
    match value with
    | .obj fields => some (.obj fields)
    | _ => none
  else some (.obj [])

def requiresApproval (spec : McpToolSpec) (tool : ListedTool) : Except ErrorResponse Bool :=
  let unsupported := mcpError ("unsupported 'require_approval' shape for server " ++ quoted spec.serverLabel ++ ".")
  match spec.requireApproval with
  | .null | .str "always" => .ok true
  | .str "never" => .ok false
  | .obj fields =>
    match asBucket ((Json.obj fields).get "never"),asBucket ((Json.obj fields).get "always") with
    | some never,some always => do
      if ← named spec tool "require_approval.never.tool_names" never then return false
      if ← named spec tool "require_approval.always.tool_names" always then return true
      if (never.get "read_only").truthy && readOnly tool then return false
      if (always.get "read_only").truthy && readOnly tool then return true
      return true
    | _,_ => .error unsupported
  | _ => .error unsupported

def validateBucket (spec : McpToolSpec) (approval : Json) (key : String) : Except ErrorResponse Unit :=
  match approval.find? key with
  | none => .ok ()
  | some (.obj fields) =>
    match (Json.obj fields).find? "read_only" with
    | none => .ok ()
    | some value => requireBool spec ("require_approval." ++ key ++ ".read_only") value
  | some _ =>
    .error (mcpError ("'require_approval." ++ key ++ "' must be an object for server " ++ quoted spec.serverLabel ++ "."))

def validatePolicyShapes (spec : McpToolSpec) : Except ErrorResponse Unit := do
  match spec.allowedTools with
  | .obj fields =>
    match (Json.obj fields).find? "read_only" with
    | some value => requireBool spec "allowed_tools.read_only" value
    | none => pure ()
  | _ => pure ()
  match spec.requireApproval with
  | .obj fields => do
    validateBucket spec (.obj fields) "never"
    validateBucket spec (.obj fields) "always"
  | _ => pure ()
  let _ ← filterTools spec []
  let _ ← requiresApproval spec ⟨"",.obj [],none,none⟩

-- The fields of `McpToolSpec` that pydantic types.
def parseSpec (tool : Json) (label url : String) : Option McpToolSpec :=
  let headers := match tool.get "headers" with
    | .null => some none
    | .obj fields => if fields.all fun field => field.2.str?.isSome then some (some (.obj fields)) else none
    | _ => none
  let authorization := match tool.get "authorization" with
    | .null => some none
    | .str text => some (some text)
    | _ => none
  match headers,authorization with
  | some headers,some authorization =>
    some ⟨label,url,headers,authorization,tool.get "allowed_tools",tool.get "require_approval"⟩
  | _,_ => none

section
-- What pydantic says of a tool it rejects.
variable (complaint : Json → String)

-- One `mcp` tool of the request, after the labels `seen` before it.
def parseTool (seen : List String) (tool : Json) : Except ErrorResponse McpToolSpec := do
  if (tool.get "connector_id").truthy then
    throw (mcpError "OpenAI-hosted MCP connectors ('connector_id') are not supported; supply 'server_url'.")
  if !(tool.get "server_url").truthy then throw (mcpError "mcp tool requires a non-empty 'server_url'.")
  if !(tool.get "server_label").truthy then throw (mcpError "mcp tool requires a non-empty 'server_label'.")
  match tool.get "server_label",tool.get "server_url" with
  | .str label,url => do
    if seen.contains label then throw (mcpError ("duplicate mcp server_label " ++ quoted label ++ "."))
    match url.str?.bind (parseSpec tool label) with
    | none => throw (mcpError ("invalid mcp tool " ++ quoted label ++ ": " ++ complaint tool))
    | some spec => do
      validatePolicyShapes spec
      return spec
  | _,_ => throw (mcpError ("invalid mcp tool: " ++ complaint tool))

def splitFrom (seen : List String) : List Json → Except ErrorResponse (List McpToolSpec × List Json)
  | [] => .ok ([],[])
  | tool :: rest => do
    if tool.get "type" = .str "mcp" then
      let spec ← parseTool complaint seen tool
      let (specs,other) ← splitFrom (seen ++ [spec.serverLabel]) rest
      return (spec :: specs,other)
    else
      let (specs,other) ← splitFrom seen rest
      return (specs,tool :: other)

def splitMcpTools (tools : List Json) : Except ErrorResponse (List McpToolSpec × List Json) :=
  splitFrom complaint [] tools

end

abbrev Discovered := List (String × List ListedTool)

def Discovered.get (discovered : Discovered) (label : String) : List ListedTool :=
  ((discovered.find? (·.1 == label)).map (·.2)).getD []

-- The names one server adds to those `seen` with their owners.
def checkServer (clientNames : List String) (label : String) (seen : List (String × String)) :
    List ListedTool → Except ErrorResponse (List (String × String))
  | [] => .ok seen
  | tool :: rest =>
    if clientNames.contains tool.name then
      .error (mcpError ("tool name " ++ quoted tool.name ++ " from server " ++ quoted label ++
        " collides with a client tool."))
    else
      match (seen.find? (·.1 == tool.name)).map (·.2) with
      | some owner =>
        if owner ≠ label then
          .error (mcpError ("tool name " ++ quoted tool.name ++ " is exposed by both " ++ quoted owner ++ " and " ++
            quoted label ++ "."))
        else checkServer clientNames label seen rest
      | none => checkServer clientNames label (seen ++ [(tool.name,label)]) rest

-- The names of the client's functions go into a set, before any is compared.
def checkCollisions (specs : List McpToolSpec) (discovered : Discovered) (clientTools : List Json) :
    Except Raised Unit :=
  let names := clientTools.filterMap fun tool =>
    if tool.get "type" = .str "function" && (tool.get "name").truthy then some (tool.get "name") else none
  if names.all hashable then
    match specs.foldlM (fun seen spec =>
      checkServer (names.filterMap Json.str?) spec.serverLabel seen (discovered.get spec.serverLabel)) [] with
    | .error refused => .error (.api refused)
    | .ok _ => .ok ()
  else .error .lookup

end Modelship.Mcp

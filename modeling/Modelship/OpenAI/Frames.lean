import Modelship.Foundation.JsonText

namespace Modelship.Frames
open Foundation JsonText

structure ErrorInfo where
  message : String
  type : String
  param : Option String
  code : Option String
deriving DecidableEq

-- `_http_status` goes with the error and is in none of its texts.
structure ErrorResponse where
  error : ErrorInfo
  httpStatus : Nat
deriving DecidableEq

def optional : Option String → Json
  | some text => .str text
  | none => .null

-- `model_dump(mode="json")`
def ErrorResponse.dump (response : ErrorResponse) : Json :=
  .obj [("error",.obj [("message",.str response.error.message),("type",.str response.error.type),
    ("param",optional response.error.param),("code",optional response.error.code)])]

def createErrorResponse (message : String) (errType : Option String) (status : Nat) (param code : Option String) :
    ErrorResponse :=
  ⟨⟨message,(errType.filter (· ≠ "")).getD (if 500 ≤ status then "api_error" else "invalid_request_error"),param,code⟩,status⟩

inductive Raised where
  | valueError
  | notImplemented
  | other

-- `create_error_response` of an exception.
def exceptionResponse (raised : Raised) (message : String) (code : Option String) : ErrorResponse := match raised with
  | .valueError => createErrorResponse message (some "invalid_request_error") 400 none code
  | .notImplemented => createErrorResponse message (some "api_error") 501 none code
  | .other => createErrorResponse message (some "api_error") 500 none code

def errorSseStart : String := "data: \x7b\"error\""

def failedSseStart : String := "event: response.failed\n"

def frameEnd : String := "\n\n"

def doneFrame : String := "data: [DONE]\n\n"

def encodeErrorSse (error : ErrorResponse) : String := "data: " ++ String.ofList (written error.dump) ++ frameEnd

section
variable (requestId : String)

def serverMessage : String := "The server had an error processing your request (request id: " ++ requestId ++ ")."

def serverError (status : Nat) : ErrorResponse := createErrorResponse (serverMessage requestId) none status none none

end

def startsWith (start text : String) : Bool := start.toList.isPrefixOf text.toList

-- `value.get(name) or {}`, which raises if there is something else than an object.
def objectAt (value : Json) (name : String) : Option Json := match value.get name with
  | .obj fields => some (.obj fields)
  | other => if other.truthy then none else some (.obj [])

-- What a loader hands to the gateway, besides the values that carry no error.
inductive Item where
  | error (response : ErrorResponse)
  | text (text : String)
  | event (event : Json)
  | other

section
variable (requestId : String)

def safeInfo : Json := .obj [("code",.str "server_error"),("message",.str (serverMessage requestId))]

-- `client_safe`; `none` if it raises.
def clientSafe : Item → Option Item
  | .error response => some (.error (if response.httpStatus < 500 then response else serverError requestId response.httpStatus))
  | .text text =>
    if startsWith errorSseStart text then do
      let read ← loads (text.toList.drop 6)
      let error ← objectAt read "error"
      return .text (if error.get "type" = .str "invalid_request_error" then text else encodeErrorSse (serverError requestId 500))
    else some (.text text)
  | .event event =>
    if event.get "type" = .str "response.failed" then do
      let response ← objectAt event "response"
      let error ← objectAt response "error"
      return .event (if error.get "code" = .str "invalid_prompt" then event else
        event.set "response" (response.set "error" (safeInfo requestId)))
    else some (.event event)
  | .other => some .other

end

def typeText (event : Json) : String := match event.get "type" with
  | .str type => type
  | _ => ""

def encodeSseEvent (event : Json) : String :=
  "event: " ++ typeText event ++ "\ndata: " ++ String.ofList (written event) ++ frameEnd

-- `_frame_payload`: the first line of data decides.
def framePayload (frame : String) : Json := match (splitlines [] frame.toList).find? ("data: ".toList.isPrefixOf ·) with
  | some line => match loads (line.drop 6) with
    | some (.obj fields) => .obj fields
    | _ => .obj []
  | none => .obj []

def setDefault (value : Json) (name : String) (new : Json) : Json :=
  if (value.find? name).isSome then value else value.set name new

-- `dict(value or {})`
def asObject : Json → Json
  | .obj fields => .obj fields
  | _ => .obj []

def nextNumber (payload : Json) : Int := match payload.get "sequence_number" with
  | .num number => number + 1
  | .bool number => (if number then 1 else 0) + 1
  | _ => 0

section
variable (freshId model : String) (now : Int)

def failedResponse (opened : Json) (message : String) : Json :=
  let response := (((asObject (opened.get "response")).set "status" (.str "failed")).set "error"
    (.obj [("code",.str "server_error"),("message",.str message)])).set "output" (.arr [])
  let response := setDefault response "object" (.str "response")
  let response := setDefault response "id" (.str freshId)
  let response := setDefault response "created_at" (.num now)
  setDefault response "model" (.str model)

def failureEventFromFrames (createdFrame lastFrame message : String) : Json :=
  .obj [("type",.str "response.failed"),("sequence_number",.num (nextNumber (framePayload lastFrame))),
    ("response",failedResponse freshId model now (framePayload createdFrame) message)]

end

def isFailureChunk (chunk : String) : Bool := startsWith errorSseStart chunk || startsWith failedSseStart chunk

inductive Ending where
  | done
  | raised
  | cancelled
deriving DecidableEq

inductive Status where
  | ok
  | error
  | cancelled
deriving DecidableEq

section
variable (responses : Bool) (requestId freshId model : String) (now : Int)

def streamErrorChunk (createdFrame lastFrame : String) : String :=
  let error := serverError requestId 500
  if responses then encodeSseEvent (failureEventFromFrames freshId model now createdFrame lastFrame error.error.message) else
  encodeErrorSse error

-- `_stream` in `_handle_response`: the chunks it yields, and what the tracker is told.
def streamed (first : String) (rest : List String) (ending : Ending) : List String × Status :=
  let seen := if (first :: rest).any isFailureChunk then Status.error else .ok
  match ending with
  | .done => (first :: rest,seen)
  | .raised => (first :: rest ++ [streamErrorChunk responses requestId freshId model now first ((first :: rest).getLast
    (by simp)),
      doneFrame],.error)
  | .cancelled => (first :: rest,if seen = .ok then .cancelled else seen)

end

theorem optional_proper (text : Option String) : Proper (optional text) := by
  cases text <;> trivial

theorem dump_proper (response : ErrorResponse) : Proper response.dump := by
  have inner : (["message","type","param","code"] : List String).Nodup := by decide
  exact ⟨List.nodup_singleton _,⟨inner,trivial,trivial,optional_proper _,optional_proper _,trivial⟩,trivial⟩

theorem written_single (name : String) (value : Json) :
    written (.obj [(name,value)]) = '\x7b' :: dumpsText name.toList ++ ':' :: ' ' :: written value ++ ['\x7d'] := by
  simp [written,writtenFields]

-- What a frame of an error reads as.
theorem encodeErrorSse_text (error : ErrorResponse) :
    startsWith errorSseStart (encodeErrorSse error) = true ∧
    loads ((encodeErrorSse error).toList.drop 6) = some error.dump := by
  have chars : (encodeErrorSse error).toList = "data: ".toList ++ (written error.dump ++ "\n\n".toList) := by
    simp [encodeErrorSse,frameEnd]
  constructor
  · rw [startsWith,chars,List.isPrefixOf_iff_prefix,ErrorResponse.dump,written_single]
    exact ⟨_,by simp [errorSseStart]; rfl⟩
  · rw [chars]
    exact loads_written (dump_proper error) rfl

theorem clientSafe_encoded (requestId : String) (error : ErrorResponse) :
    clientSafe requestId (.text (encodeErrorSse error)) = some (.text (if error.error.type = "invalid_request_error" then
      encodeErrorSse error else encodeErrorSse (serverError requestId 500))) := by
  obtain ⟨started,read⟩ := encodeErrorSse_text error
  have inner : objectAt error.dump "error" = some (.obj [("message",.str error.error.message),("type",.str error.error.type),
      ("param",optional error.error.param),("code",optional error.error.code)]) := rfl
  have type : (Json.obj [("message",.str error.error.message),("type",.str error.error.type),
      ("param",optional error.error.param),("code",optional error.error.code)]).get "type" = .str error.error.type := rfl
  simp only [clientSafe,started,if_true,read,Option.bind_eq_bind,Option.bind_some,inner,type,Json.str.injEq]
  rfl

theorem setField_same {name : String} {value : Json} {fields : List (String × Json)}
    (found : (fields.find? (·.1 == name)).map (·.2) = some value) : Json.setField name value fields = fields := by
  induction fields with
  | nil => cases found
  | cons field rest ih =>
      rw [List.find?_cons] at found
      rw [Json.setField]
      cases same : field.1 == name with
      | true =>
          rw [same] at found
          cases found
          rfl
      | false =>
          rw [same] at found
          rw [if_neg (by simp),ih found]

theorem set_same {value old : Json} {name : String} (found : value.find? name = some old) : value.set name old = value := by
  cases value with
  | obj fields => exact congrArg Json.obj (setField_same found)
  | null | bool _ | num _ | str _ | arr _ => cases found

theorem objectAt_get {value object : Json} {name : String} (there : objectAt value name = some object)
    (full : object ≠ .obj []) : value.find? name = some object := by
  unfold objectAt at there
  cases found : value.find? name with
  | none => simp_all [Json.get,Json.truthy]
  | some old =>
      rw [Json.get,found,Option.getD_some] at there
      split at there
      · exact there
      · split at there
        · cases there
        · cases there
          exact absurd rfl full

section
variable (requestId : String)

-- A client reads in it no error of the server but the one that names the request.
def Safe : Item → Prop
  | .error response => response.httpStatus < 500 ∨ response = serverError requestId response.httpStatus
  | .text text => startsWith errorSseStart text = true → text = encodeErrorSse (serverError requestId 500) ∨
      ∃ read error, loads (text.toList.drop 6) = some read ∧ objectAt read "error" = some error ∧
        error.get "type" = .str "invalid_request_error"
  | .event event => event.get "type" = .str "response.failed" →
      ∃ response error, objectAt event "response" = some response ∧ objectAt response "error" = some error ∧
        (error.get "code" = .str "invalid_prompt" ∨ error = safeInfo requestId)
  | .other => True

theorem clientSafe_server : clientSafe requestId (.text (encodeErrorSse (serverError requestId 500))) =
    some (.text (encodeErrorSse (serverError requestId 500))) := by
  have server : (serverError requestId 500).error.type = "api_error" := rfl
  rw [clientSafe_encoded,if_neg (by simp [server])]

variable {requestId} {out : Item}

-- What is done to a frame of an error, and to the event of a failure.
theorem clientSafe_text {text : String} (started : startsWith errorSseStart text = true) :
    clientSafe requestId (.text text) = some out ↔ ∃ read error, loads (text.toList.drop 6) = some read ∧
      objectAt read "error" = some error ∧ out = .text (if error.get "type" = .str "invalid_request_error" then text else
        encodeErrorSse (serverError requestId 500)) := by
  simp only [clientSafe,started,if_true,Option.bind_eq_bind,Option.bind_eq_some_iff,Option.pure_def,Option.some.injEq]
  constructor
  · rintro ⟨read,loaded,error,there,rfl⟩
    exact ⟨read,error,loaded,there,rfl⟩
  · rintro ⟨read,error,loaded,there,rfl⟩
    exact ⟨read,loaded,error,there,rfl⟩

theorem clientSafe_event {event : Json} (failed : event.get "type" = .str "response.failed") :
    clientSafe requestId (.event event) = some out ↔ ∃ response error, objectAt event "response" = some response ∧
      objectAt response "error" = some error ∧ out = .event (if error.get "code" = .str "invalid_prompt" then event else
        event.set "response" (response.set "error" (safeInfo requestId))) := by
  simp only [clientSafe,failed,if_true,Option.bind_eq_bind,Option.bind_eq_some_iff,Option.pure_def,Option.some.injEq]
  constructor
  · rintro ⟨response,opened,error,there,rfl⟩
    exact ⟨response,error,opened,there,rfl⟩
  · rintro ⟨response,error,opened,there,rfl⟩
    exact ⟨response,opened,error,there,rfl⟩

theorem safe_same {item : Item} (made : clientSafe requestId item = some out) (safe : Safe requestId item) : out = item := by
  cases item with
  | other =>
      cases made
      rfl
  | error response =>
      cases made
      rcases safe with client | ours
      · rw [if_pos client]
      · split
        · rfl
        · rw [← ours]
  | text text =>
      by_cases started : startsWith errorSseStart text = true
      · rcases safe started with rfl | ⟨read,error,loaded,there,type⟩
        · rw [clientSafe_server] at made
          exact (Option.some.inj made).symm
        · obtain ⟨_,_,again,inside,rfl⟩ := (clientSafe_text started).mp made
          rw [loaded] at again
          cases again
          rw [there] at inside
          cases inside
          rw [if_pos type]
      · rw [clientSafe,if_neg started] at made
        exact (Option.some.inj made).symm
  | event event =>
      by_cases failed : event.get "type" = .str "response.failed"
      · obtain ⟨response,error,opened,there,code⟩ := safe failed
        obtain ⟨_,_,again,inside,rfl⟩ := (clientSafe_event failed).mp made
        rw [opened] at again
        cases again
        rw [there] at inside
        cases inside
        rcases code with invalid | rfl
        · rw [if_pos invalid]
        · have kept : response.set "error" (safeInfo requestId) = response := set_same (objectAt_get there (by simp [safeInfo]))
          have full : response ≠ .obj [] := by
            rintro rfl
            rw [show objectAt (.obj []) "error" = some (.obj []) from rfl] at there
            cases there
          have whole := set_same (objectAt_get opened full)
          rw [kept,whole,ite_self]
      · rw [clientSafe,if_neg failed] at made
        exact (Option.some.inj made).symm

theorem safe_made {item : Item} (made : clientSafe requestId item = some out) : Safe requestId out := by
  cases item with
  | other =>
      cases made
      trivial
  | error response =>
      cases made
      by_cases client : response.httpStatus < 500
      · rw [if_pos client]
        exact .inl client
      · rw [if_neg client]
        exact .inr rfl
  | text text =>
      by_cases started : startsWith errorSseStart text = true
      · obtain ⟨read,error,loaded,there,rfl⟩ := (clientSafe_text started).mp made
        split
        · rename_i type
          exact fun _ => .inr ⟨read,error,loaded,there,type⟩
        · exact fun _ => .inl rfl
      · rw [clientSafe,if_neg started] at made
        cases made
        exact fun begun => absurd begun started
  | event event =>
      by_cases failed : event.get "type" = .str "response.failed"
      · obtain ⟨response,error,opened,there,rfl⟩ := (clientSafe_event failed).mp made
        split
        · rename_i code
          exact fun _ => ⟨response,error,opened,there,.inl code⟩
        · intro _
          refine ⟨response.set "error" (safeInfo requestId),safeInfo requestId,?_,?_,.inr rfl⟩
          · simp only [objectAt,Json.get_set,if_true]
            rfl
          · simp only [objectAt,Json.get_set,if_true]
            rfl
      · rw [clientSafe,if_neg failed] at made
        cases made
        exact fun begun => absurd begun failed

theorem safe_defined {item : Item} (safe : Safe requestId item) : ∃ out, clientSafe requestId item = some out := by
  cases item with
  | other | error response => exact ⟨_,rfl⟩
  | text text =>
      by_cases started : startsWith errorSseStart text = true
      · rcases safe started with rfl | ⟨read,error,loaded,there,_⟩
        · exact ⟨_,clientSafe_server requestId⟩
        · exact ⟨_,(clientSafe_text started).mpr ⟨read,error,loaded,there,rfl⟩⟩
      · exact ⟨.text text,by rw [clientSafe,if_neg started]⟩
  | event event =>
      by_cases failed : event.get "type" = .str "response.failed"
      · obtain ⟨response,error,opened,there,_⟩ := safe failed
        exact ⟨_,(clientSafe_event failed).mpr ⟨response,error,opened,there,rfl⟩⟩
      · exact ⟨.event event,by rw [clientSafe,if_neg failed]⟩

-- Whatever a loader brings, the client reads no error of the server in it; what says none
-- goes through as it is.
theorem clientSafe_hides {item : Item} (made : clientSafe requestId item = some out) :
    Safe requestId out ∧ clientSafe requestId out = some out ∧ (Safe requestId item → out = item) := by
  have safe := safe_made made
  obtain ⟨again,there⟩ := safe_defined safe
  refine ⟨safe,?_,safe_same made⟩
  rw [there,safe_same there safe]

theorem clientSafe_hides_crash : clientSafe "r1" (.text (encodeErrorSse (exceptionResponse .other "key leaked" none))) =
      some (.text (encodeErrorSse (serverError "r1" 500))) ∧
    Safe "r1" (.text (encodeErrorSse (serverError "r1" 500))) := by
  have made : clientSafe "r1" (.text (encodeErrorSse (exceptionResponse .other "key leaked" none))) =
      some (.text (encodeErrorSse (serverError "r1" 500))) := by
    have type : (exceptionResponse .other "key leaked" none).error.type = "api_error" := rfl
    rw [clientSafe_encoded,if_neg (by simp [type])]
  exact ⟨made,(clientSafe_hides made).1⟩

theorem optional_inj {one two : Option String} (same : optional one = optional two) : one = two := by
  cases one <;> cases two <;> cases same <;> rfl

theorem encodeErrorSse_inj {one two : ErrorResponse}
    (same : encodeErrorSse one = encodeErrorSse two) : one.error = two.error := by
  have read := (encodeErrorSse_text one).2
  rw [same,(encodeErrorSse_text two).2] at read
  obtain ⟨⟨message,type,param,code⟩,_⟩ := one
  obtain ⟨⟨other,_,_,_⟩,_⟩ := two
  simp only [ErrorResponse.dump,Option.some.injEq,Json.obj.injEq,List.cons.injEq,Prod.mk.injEq,Json.str.injEq,and_true,
    true_and] at read
  obtain ⟨rfl,rfl,params,codes⟩ := read
  rw [optional_inj params,optional_inj codes]

-- A failure whose type is the one its status has is told to the client in a frame of a
-- stream if and only if it is outside of one.
theorem clientSafe_agrees (error : ErrorResponse)
    (typed : error.error.type = if 500 ≤ error.httpStatus then "api_error" else "invalid_request_error") :
    clientSafe requestId (.text (encodeErrorSse error)) = some (.text (encodeErrorSse error)) ↔
      clientSafe requestId (.error error) = some (.error error) := by
  rw [clientSafe_encoded,clientSafe]
  by_cases client : error.httpStatus < 500
  · rw [if_neg (Nat.not_le.mpr client)] at typed
    rw [if_pos typed,if_pos client]
    simp
  · rw [if_pos (Nat.not_lt.mp client)] at typed
    rw [if_neg (by simp [typed]),if_neg client]
    simp only [Option.some.injEq,Item.text.injEq,Item.error.injEq]
    constructor
    · intro same
      have info := encodeErrorSse_inj same
      have type : (serverError requestId error.httpStatus).error = (serverError requestId 500).error := by
        have large : 500 ≤ error.httpStatus := Nat.not_lt.mp client
        simp [serverError,createErrorResponse,large]
      obtain ⟨given,status⟩ := error
      exact congrArg (ErrorResponse.mk · status) (type.trans info)
    · intro same
      have type : (serverError requestId error.httpStatus).error = (serverError requestId 500).error := by
        have large : 500 ≤ error.httpStatus := Nat.not_lt.mp client
        simp [serverError,createErrorResponse,large]
      rw [encodeErrorSse,encodeErrorSse,ErrorResponse.dump,ErrorResponse.dump,← type,same]

end

theorem clientSafe_agrees_unknown : clientSafe "r1" (.text (encodeErrorSse
    (createErrorResponse "no such model" none 404 none none))) =
      some (.text (encodeErrorSse (createErrorResponse "no such model" none 404 none none))) ↔
    clientSafe "r1" (.error (createErrorResponse "no such model" none 404 none none)) =
      some (.error (createErrorResponse "no such model" none 404 none none)) :=
  clientSafe_agrees (createErrorResponse "no such model" none 404 none none) rfl

-- An event as the translators make it.
structure Framed (event : Json) : Prop where
  object : ∃ fields, event = .obj fields
  proper : Proper event
  named : ∀ c ∈ (typeText event).toList, isBreak c = false

theorem encodeSseEvent_lines {event : Json} (named : ∀ c ∈ (typeText event).toList, isBreak c = false) :
    splitlines [] (encodeSseEvent event).toList =
      ["event: ".toList ++ (typeText event).toList,"data: ".toList ++ written event,[]] := by
  have chars : (encodeSseEvent event).toList = ("event: ".toList ++ (typeText event).toList) ++
      '\n' :: (("data: ".toList ++ written event) ++ '\n' :: ['\n']) := by
    simp [encodeSseEvent,frameEnd]
  have heads : (∀ c ∈ "event: ".toList, isBreak c = false) ∧ ∀ c ∈ "data: ".toList, isBreak c = false := by simp [isBreak]
  have first : ∀ c ∈ "event: ".toList ++ (typeText event).toList, isBreak c = false := by
    intro c member
    rcases List.mem_append.mp member with start | inside
    · exact heads.1 c start
    · exact named c inside
  have second : ∀ c ∈ "data: ".toList ++ written event, isBreak c = false := by
    intro c member
    rcases List.mem_append.mp member with start | inside
    · exact heads.2 c start
    · exact (written_plain event c inside).solid
  rw [chars,splitlines_line first,splitlines_line second]
  rfl

-- A framed event is read as it was.
theorem framePayload_encoded {event : Json} (framed : Framed event) : framePayload (encodeSseEvent event) = event := by
  obtain ⟨⟨fields,rfl⟩,proper,named⟩ := framed
  have read := loads_written proper (show ([] : List Char).all blank = true from rfl)
  rw [List.append_nil] at read
  have data : ["event: ".toList ++ (typeText (.obj fields)).toList,"data: ".toList ++ written (.obj fields),[]].find?
      ("data: ".toList.isPrefixOf ·) = some ("data: ".toList ++ written (.obj fields)) := rfl
  rw [framePayload,encodeSseEvent_lines named,data]
  simp only [show ("data: ".toList ++ written (.obj fields)).drop 6 = written (.obj fields) from rfl,read]

theorem done_payload : framePayload doneFrame = .obj [] := by
  have solid : ∀ c ∈ "data: [DONE]".toList, isBreak c = false := by simp [isBreak]
  have chars : doneFrame.toList = "data: [DONE]".toList ++ '\n' :: ['\n'] := by simp [doneFrame]
  have ended : splitlines [] ['\n'] = [[]] := by simp [splitlines,isBreak]
  have data : ["data: [DONE]".toList,[]].find? ("data: ".toList.isPrefixOf ·) = some "data: [DONE]".toList := by simp
  have read : loads ("data: [DONE]".toList.drop 6) = none := by
    rw [show "data: [DONE]".toList.drop 6 = ['[','D','O','N','E',']'] by simp]
    rfl
  rw [framePayload,chars,splitlines_line solid,List.nil_append,ended,data]
  simp only [read]

theorem setDefault_proper {value new : Json} (proper : Proper value) (name : String) (good : Proper new) :
    Proper (setDefault value name new) := by
  unfold setDefault
  split
  · exact proper
  · exact set_proper proper name good

theorem setDefault_find {value new old : Json} {name other : String} (found : value.find? other = some old) :
    (setDefault value name new).find? other = some old := by
  unfold setDefault
  split
  · exact found
  · rename_i absent
    rw [Json.find_set,if_neg]
    · exact found
    · rintro rfl
      rw [found] at absent
      exact absent rfl

theorem asObject_proper {value : Json} (proper : Proper value) : Proper (asObject value) := by
  cases value with
  | obj fields => exact proper
  | null | bool _ | num _ | str _ | arr _ => exact ⟨List.nodup_nil,trivial⟩

theorem asObject_find {value found : Json} {name : String} (there : value.find? name = some found) :
    (asObject value).find? name = some found := by
  cases value with
  | obj fields => exact there
  | null | bool _ | num _ | str _ | arr _ => cases there

section
variable {freshId model message : String} {now : Int} {opened : Json}

theorem failedResponse_proper (proper : Proper opened) : Proper (failedResponse freshId model now opened message) := by
  have inner := asObject_proper (get_proper proper "response")
  have error : Proper (.obj [("code",.str "server_error"),("message",.str message)]) := by
    have keys : (["code","message"] : List String).Nodup := by decide
    exact ⟨keys,trivial,trivial,trivial⟩
  have status := set_proper inner "status" (show Proper (.str "failed") from trivial)
  have emptied := set_proper (set_proper status "error" error) "output" (show Proper (.arr []) from trivial)
  have object := setDefault_proper emptied "object" (show Proper (.str "response") from trivial)
  have id := setDefault_proper object "id" (show Proper (.str freshId) from trivial)
  have created := setDefault_proper id "created_at" (show Proper (.num now) from trivial)
  exact setDefault_proper created "model" (show Proper (.str model) from trivial)

-- What it says of itself, and what it keeps of what was opened.
theorem failedResponse_fields :
    (failedResponse freshId model now opened message).find? "status" = some (.str "failed") ∧
    (failedResponse freshId model now opened message).find? "error" =
      some (.obj [("code",.str "server_error"),("message",.str message)]) ∧
    (failedResponse freshId model now opened message).find? "output" = some (.arr []) ∧
    ∀ name value, name ≠ "status" → name ≠ "error" → name ≠ "output" → (opened.get "response").find? name = some value →
      (failedResponse freshId model now opened message).find? name = some value := by
  unfold failedResponse
  refine ⟨?_,?_,?_,?_⟩
  · exact setDefault_find (setDefault_find (setDefault_find (setDefault_find (by simp))))
  · exact setDefault_find (setDefault_find (setDefault_find (setDefault_find (by simp))))
  · exact setDefault_find (setDefault_find (setDefault_find (setDefault_find (by simp))))
  · intro name value status error output found
    refine setDefault_find (setDefault_find (setDefault_find (setDefault_find ?_)))
    rw [Json.find_set,if_neg output.symm,Json.find_set,if_neg error.symm,Json.find_set,if_neg status.symm]
    exact asObject_find found

theorem failureEvent_framed {createdFrame lastFrame : String} (proper : Proper (framePayload createdFrame)) :
    Framed (failureEventFromFrames freshId model now createdFrame lastFrame message) := by
  refine ⟨⟨_,rfl⟩,?_,?_⟩
  · have keys : (["type","sequence_number","response"] : List String).Nodup := by decide
    have response := @failedResponse_proper freshId model message now _ proper
    simp only [failureEventFromFrames,Proper,ProperFields,and_true,true_and]
    exact ⟨keys,response⟩
  · have type : typeText (failureEventFromFrames freshId model now createdFrame lastFrame message) = "response.failed" := rfl
    simp [type,isBreak]

end

-- A stream of events that breaks: the client reads the events and one failure after them,
-- which has the next number and the fields of the response that was opened, and the end.
theorem broken_continues {created : Json} {rest : List Json} (requestId freshId model : String) (now : Int)
    (framed : ∀ event ∈ created :: rest, Framed event)
    (numbered : ∀ (number : Nat) event, (created :: rest)[number]? = some event → event.get "sequence_number" = .num number) :
    ∃ failure, (streamed true requestId freshId model now (encodeSseEvent created) (rest.map encodeSseEvent) .raised).1.map
        framePayload = created :: rest ++ [failure,.obj []] ∧
      (streamed true requestId freshId model now (encodeSseEvent created) (rest.map encodeSseEvent) .raised).2 = .error ∧
      failure.get "type" = .str "response.failed" ∧ failure.get "sequence_number" = .num (created :: rest).length ∧
      (failure.get "response").find? "status" = some (.str "failed") ∧
      (failure.get "response").find? "error" = some (safeInfo requestId) ∧
      ∀ name value, name ≠ "status" → name ≠ "error" → name ≠ "output" → (created.get "response").find? name = some value →
        (failure.get "response").find? name = some value := by
  have opening : framePayload (encodeSseEvent created) = created := framePayload_encoded (framed created List.mem_cons_self)
  have proper : Proper (framePayload (encodeSseEvent created)) := by
    rw [opening]
    exact (framed created List.mem_cons_self).proper
  have full : created :: rest ≠ [] := by simp
  have last : ((encodeSseEvent created :: rest.map encodeSseEvent).getLast (by simp)) =
      encodeSseEvent ((created :: rest).getLast full) := List.getLast_map (l := created :: rest) (by simp)
  have told : framePayload (encodeSseEvent ((created :: rest).getLast full)) = (created :: rest).getLast full :=
    framePayload_encoded (framed _ (List.getLast_mem full))
  have number : ((created :: rest).getLast full).get "sequence_number" = .num rest.length := by
    refine numbered rest.length _ ?_
    rw [List.getLast_eq_getElem]
    simp
  have payloads : (created :: rest).map (fun event => framePayload (encodeSseEvent event)) = created :: rest := by
    rw [List.map_congr_left (fun event there => framePayload_encoded (framed event there)),List.map_id']
  obtain ⟨failure,made⟩ : ∃ failure, failure = failureEventFromFrames freshId model now (encodeSseEvent created)
      (encodeSseEvent ((created :: rest).getLast full)) (serverMessage requestId) := ⟨_,rfl⟩
  have read : framePayload (encodeSseEvent failure) = failure := by
    rw [made]
    exact framePayload_encoded (failureEvent_framed proper)
  have chunk : streamErrorChunk true requestId freshId model now (encodeSseEvent created)
      ((encodeSseEvent created :: rest.map encodeSseEvent).getLast (by simp)) = encodeSseEvent failure := by
    rw [last,made]
    rfl
  have frames : (streamed true requestId freshId model now (encodeSseEvent created) (rest.map encodeSseEvent) .raised).1 =
      (created :: rest).map encodeSseEvent ++ [encodeSseEvent failure,doneFrame] := by
    rw [← chunk]
    rfl
  have ends : [encodeSseEvent failure,doneFrame].map framePayload = [failure,.obj []] := by
    rw [List.map_cons,List.map_singleton,read,done_payload]
  have response : failure.get "response" = failedResponse freshId model now created (serverMessage requestId) := by
    rw [made,failureEventFromFrames,opening]
    simp [Json.get,Json.find?,Json.fields]
  obtain ⟨status,error,_,kept⟩ := @failedResponse_fields freshId model (serverMessage requestId) now created
  refine ⟨failure,?_,rfl,?_,?_,?_,?_,?_⟩
  · rw [frames,List.map_append,List.map_map,ends]
    exact congrArg (· ++ [failure,.obj []]) payloads
  · simp [made,failureEventFromFrames,Json.get,Json.find?,Json.fields]
  · have numbers : failure.get "sequence_number" = .num (nextNumber ((created :: rest).getLast full)) := by
      rw [made,failureEventFromFrames,told]
      simp [Json.get,Json.find?,Json.fields]
    rw [numbers,nextNumber,number]
    simp
  · rw [response]
    exact status
  · rw [response]
    exact error
  · rw [response]
    exact kept

def openingEvent : Json :=
  .obj [("type",.str "response.created"),("sequence_number",.num 0),("response",.obj [("id",.str "resp_1")])]

def deltaEvent : Json := .obj [("type",.str "response.output_text.delta"),("sequence_number",.num 1),("delta",.str "a\nb")]

theorem openingEvent_line : ∀ c ∈ (typeText openingEvent).toList, isBreak c = false := by
  simp [show typeText openingEvent = "response.created" from rfl,isBreak]

theorem deltaEvent_line : ∀ c ∈ (typeText deltaEvent).toList, isBreak c = false := by
  simp [show typeText deltaEvent = "response.output_text.delta" from rfl,isBreak]

theorem broken_continues_two : ∃ failure, (streamed true "r1" "resp_2" "m" 7 (encodeSseEvent openingEvent)
      [encodeSseEvent deltaEvent] .raised).1.map framePayload = [openingEvent,deltaEvent,failure,.obj []] ∧
    failure.get "sequence_number" = .num 2 ∧ (failure.get "response").find? "id" = some (.str "resp_1") := by
  have framed : ∀ event ∈ [openingEvent,deltaEvent], Framed event := by
    intro event there
    simp only [List.mem_cons,List.not_mem_nil,or_false] at there
    rcases there with rfl | rfl
    · exact ⟨⟨_,rfl⟩,by simp [openingEvent,Proper,ProperFields],openingEvent_line⟩
    · exact ⟨⟨_,rfl⟩,by simp [deltaEvent,Proper,ProperFields],deltaEvent_line⟩
  have numbered : ∀ (number : Nat) event, [openingEvent,deltaEvent][number]? = some event →
      event.get "sequence_number" = .num number := by
    intro number event there
    rcases number with _ | _ | number
    · cases there
      rfl
    · cases there
      rfl
    · cases there
  obtain ⟨failure,payloads,_,_,number,_,_,kept⟩ := broken_continues "r1" "resp_2" "m" 7 framed numbered
  exact ⟨failure,payloads,number,kept "id" (.str "resp_1") (by decide) (by decide) (by decide) rfl⟩

end Modelship.Frames

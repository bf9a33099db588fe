import Modelship.OpenAI.Adapter

namespace Modelship.Chat
open Foundation Responses

def textTypes : List String := ["text","input_text","output_text","refusal","thinking"]

def imageTypes : List String := ["image_url","input_image"]

def audioTypes : List String := ["input_audio","audio_url"]

-- `type(part).__name__`.
def typeName : Json → String
  | .null => "NoneType"
  | .bool _ => "bool"
  | .num _ => "int"
  | .str _ => "str"
  | .arr _ => "list"
  | .obj _ => "dict"

-- The names of an assistant message's calls, each under its id.
def callNames (message : Json) : List (String × String) :=
  if message.get "role" ≠ .str "assistant" then [] else
  match message.get "tool_calls" with
  | .arr calls => calls.filterMap fun call => match call.get "id",(call.get "function").get "name" with
    | .str callId,.str name => some (callId,name)
    | _,_ => none
  | _ => []

-- `_tool_name_by_call_id`: a later call of an id replaces the earlier one.
def toolNameByCallId (messages : List Json) : List (String × String) := (messages.flatMap callNames).reverse

def toolName (names : List (String × String)) (callId : Json) : Option String :=
  callId.str?.bind fun callId => (names.find? (·.1 = callId)).map (·.2)

-- What a model takes besides text.
structure Supports where
  image : Bool
  audio : Bool

def refuse (index : Nat) (text : String) : Except Refusal (Option Json) :=
  .error (.unsupported ("messages[" ++ toString index ++ "].content: " ++ text))

def textPart (text : String) : Json := .obj [("type",.str "text"),("text",.str text)]

section
variable (supports : Supports) (index : Nat)

def validateText (part : Json) (type : String) : Except Refusal (Option Json) :=
  let text := if (part.get "text").truthy then part.get "text" else part.get type
  match text with
  | .null => .ok none
  | .str text => .ok (some (textPart text))
  | _ => refuse index (quoted type ++ " part must carry string content")

def imagePart (url : String) (detail : Json) : Json :=
  .obj [("type",.str "image_url"),("image_url",.obj (("url",.str url) :: match detail with
    | .str detail => [("detail",.str detail)]
    | _ => []))]

def isObject : Json → Bool
  | .obj _ => true
  | _ => false

-- The link and the detail of an image, if it is a string or an object.
def imageFields (part : Json) : Json → Option (Json × Json)
  | .str url => some (.str url,part.get "detail")
  | .obj fields => some ((Json.obj fields).get "url",(Json.obj fields).get "detail")
  | _ => none

def validateImage (part : Json) (type : String) : Except Refusal (Option Json) :=
  if !supports.image then refuse index "this model does not support image input" else
  let image := part.get "image_url"
  if image = .null then .ok none else
  match imageFields part image with
  | none => refuse index (quoted type ++ " must be a URL string or an object with a 'url' field")
  | some (.str url,detail) =>
    if url = "" then refuse index (quoted type ++ ".url must be a non-empty string (http(s) URL or data: URI)") else
    .ok (some (if type = "image_url" ∧ isObject image then part else imagePart url detail))
  | some _ => refuse index (quoted type ++ ".url must be a non-empty string (http(s) URL or data: URI)")

def audioLink : Json → Json
  | .str url => .str url
  | audio => audio.get "url"

def validateAudio (part : Json) (type : String) : Except Refusal (Option Json) :=
  if !supports.audio then refuse index "this model does not support audio input" else
  if type = "audio_url" then
    let audio := part.get "audio_url"
    if audio = .null then .ok none else
    match audioLink audio with
    | .str url => if url = "" then refuse index "'audio_url.url' must be a non-empty string" else .ok (some part)
    | _ => refuse index "'audio_url.url' must be a non-empty string"
  else
    let audio := part.get "input_audio"
    if audio = .null then .ok none else
    match audio.get "data",audio.get "format" with
    | .str _,.str _ => .ok (some part)
    | _,_ => refuse index "'input_audio' must be an object with string 'data' and 'format' fields"

-- `_validate_part`. A type that is a list or an object cannot be looked up in the sets.
def validatePart (part : Json) : Except Refusal (Option Json) := match part with
  | .str text => .ok (some (textPart text))
  | .obj _ => match part.get "type" with
    | .null => refuse index "part is missing required 'type' field"
    | .arr _ | .obj _ => .error .crashed
    | .str type =>
      if type ∈ textTypes then validateText index part type else
      if type ∈ imageTypes then validateImage supports index part type else
      if type ∈ audioTypes then validateAudio supports index part type else
      refuse index ("unsupported content part type " ++ quoted type)
    | other => refuse index ("unsupported content part type " ++ shown other)
  | other => refuse index ("each part must be an object or string, got " ++ typeName other)

def isText (part : Json) : Bool := part.get "type" = .str "text"

-- Parts that are all text become one string.
def collapse (parts : List Json) : Json :=
  if parts.all isText then .str ("\n".intercalate (parts.map fun part => (part.get "text").str?.getD "")) else .arr parts

def validateParts : List Json → Except Refusal (List Json)
  | [] => .ok []
  | part :: rest => do
    let valid ← validatePart supports index part
    let others ← validateParts rest
    .ok (valid.toList ++ others)

def normalizeContent : Json → Except Refusal Json
  | .arr parts => (validateParts supports index parts).map collapse
  | content => .ok content

end

-- A tool message without a name gets that of its call, where there is one.
def named (names : List (String × String)) (message : Json) : Json :=
  if message.get "role" = .str "tool" ∧ !(message.get "name").truthy then
    match toolName names (message.get "tool_call_id") with
    | none | some "" => message
    | some name => message.set "name" (.str name)
  else message

def normalizeMessage (supports : Supports) (names : List (String × String)) (index : Nat) (message : Json) :
    Except Refusal Json := match message.get "content" with
  | .arr parts => (normalizeContent supports index (.arr parts)).map ((named names message).set "content")
  | _ => .ok (named names message)

def normalizeFrom (supports : Supports) (names : List (String × String)) : Nat → List Json → Except Refusal (List Json)
  | _,[] => .ok []
  | index,message :: rest => do
    let first ← normalizeMessage supports names index message
    let others ← normalizeFrom supports names (index + 1) rest
    .ok (first :: others)

-- `normalize_chat_messages`, on messages that are objects.
def normalizeChatMessages (supports : Supports) (messages : List Json) : Except Refusal (List Json) :=
  normalizeFrom supports (toolNameByCallId messages) 0 messages

-- A part as a model gets it.
inductive Accepted (supports : Supports) : Json → Prop where
  | text (text : String) : Accepted supports (textPart text)
  | image (part : Json) (fields : List (String × Json)) (url : String) : supports.image = true →
    part.get "type" = .str "image_url" → part.get "image_url" = .obj fields → (Json.obj fields).get "url" = .str url →
    url ≠ "" → Accepted supports part
  | audioUrl (part : Json) (url : String) : supports.audio = true → part.get "type" = .str "audio_url" →
    audioLink (part.get "audio_url") = .str url → url ≠ "" → Accepted supports part
  | inputAudio (part : Json) (data format : String) : supports.audio = true → part.get "type" = .str "input_audio" →
    (part.get "input_audio").get "data" = .str data → (part.get "input_audio").get "format" = .str format →
    Accepted supports part

section
variable {supports : Supports} {index : Nat} {part valid : Json} {type : String}

theorem validateText_accepted (read : validateText index part type = .ok (some valid)) : ∃ text, valid = textPart text := by
  unfold validateText at read
  dsimp only at read
  generalize (if (part.get "text").truthy = true then part.get "text" else part.get type) = text at read
  cases text with
  | str text =>
      cases read
      exact ⟨text,rfl⟩
  | null | bool | num | arr | obj => cases read

theorem validateImage_accepted (named : part.get "type" = .str type)
    (read : validateImage supports index part type = .ok (some valid)) : Accepted supports valid := by
  unfold validateImage at read
  split at read
  · cases read
  rename_i able
  have able : supports.image = true := by simpa using able
  dsimp only at read
  split at read
  · cases read
  split at read
  · cases read
  · rename_i url detail fields
    split at read
    · cases read
    · rename_i full
      cases read
      split
      · rename_i whole
        obtain ⟨rfl,object⟩ := whole
        cases image : part.get "image_url" with
        | obj entries =>
            rw [image] at fields
            have link := (Prod.mk.inj (Option.some.inj fields)).1
            exact .image part entries url able named image link full
        | null | bool | num | str | arr =>
            rw [image] at object
            cases object
      · exact .image _ _ url able rfl rfl rfl full
  · cases read

theorem validateAudio_accepted (named : part.get "type" = .str type) (audio : type ∈ audioTypes)
    (read : validateAudio supports index part type = .ok (some valid)) : Accepted supports valid := by
  unfold validateAudio at read
  split at read
  · cases read
  rename_i able
  have able : supports.audio = true := by simpa using able
  split at read
  · rename_i link
    dsimp only at read
    split at read
    · cases read
    split at read
    · rename_i url found
      split at read
      · cases read
      · rename_i full
        cases read
        exact .audioUrl part url able (link ▸ named) found full
    · cases read
  · rename_i other
    dsimp only at read
    split at read
    · cases read
    split at read
    · rename_i data format one two
      cases read
      have input : type = "input_audio" := by
        simp only [audioTypes,List.mem_cons,List.not_mem_nil,or_false] at audio
        exact audio.resolve_right other
      exact .inputAudio part data format able (input ▸ named) one two
    · cases read

theorem validatePart_accepted (read : validatePart supports index part = .ok (some valid)) : Accepted supports valid := by
  unfold validatePart at read
  split at read
  · cases read
    exact .text _
  · split at read
    · cases read
    · cases read
    · cases read
    · rename_i fields type named
      split at read
      · obtain ⟨text,rfl⟩ := validateText_accepted read
        exact .text text
      · split at read
        · exact validateImage_accepted named read
        · split at read
          · rename_i audio
            exact validateAudio_accepted named audio read
          · cases read
    · cases read
  · cases read

theorem get_object {value : Json} {name : String} {found : Json} (has : value.get name = found) (there : found ≠ .null) :
    ∃ fields, value = .obj fields := by
  cases value with
  | obj fields => exact ⟨fields,rfl⟩
  | null | bool | num | str | arr => exact absurd has.symm there

-- What is accepted is accepted again, as it is.
theorem Accepted.again {part : Json} (accepted : Accepted supports part) (index : Nat) :
    validatePart supports index part = .ok (some part) := by
  cases accepted with
  | text text =>
      have text_ : validateText index (textPart text) "text" = .ok (some (textPart text)) := by
        have both : (if ((textPart text).get "text").truthy then (textPart text).get "text" else (textPart text).get "text") =
            .str text := ite_self _
        unfold validateText
        dsimp only
        rw [both]
      exact text_
  | image _ fields url able named image link full =>
      obtain ⟨entries,rfl⟩ := get_object named (by simp)
      simp only [validatePart,named]
      rw [if_neg (by decide),if_pos (by decide)]
      simp [validateImage,able,image,imageFields,link,full,isObject]
  | audioUrl _ url able named link full =>
      obtain ⟨entries,rfl⟩ := get_object named (by simp)
      have there : (Json.obj entries).get "audio_url" ≠ .null := by
        intro absent
        rw [absent] at link
        cases link
      simp only [validatePart,named]
      rw [if_neg (by decide),if_neg (by decide),if_pos (by decide)]
      simp [validateAudio,able,there,link,full]
  | inputAudio _ data format able named one two =>
      obtain ⟨entries,rfl⟩ := get_object named (by simp)
      have there : (Json.obj entries).get "input_audio" ≠ .null := by
        intro absent
        rw [absent] at one
        cases one
      simp only [validatePart,named]
      rw [if_neg (by decide),if_neg (by decide),if_pos (by decide)]
      simp [validateAudio,able,there,one,two]

theorem validateParts_accepted {parts valid : List Json} (read : validateParts supports index parts = .ok valid) :
    ∀ part ∈ valid, Accepted supports part := by
  induction parts generalizing valid with
  | nil =>
      cases read
      intro part there
      cases there
  | cons part rest ih =>
      obtain ⟨first,one,later⟩ := bind_ok.mp read
      obtain ⟨others,more,same⟩ := bind_ok.mp later
      cases same
      intro accepted there
      rcases List.mem_append.mp there with here | rest
      · rw [Option.mem_toList.mp here] at one
        exact validatePart_accepted one
      · exact ih more accepted rest

theorem validateParts_again {parts : List Json} (accepted : ∀ part ∈ parts, Accepted supports part) :
    validateParts supports index parts = .ok parts := by
  induction parts with
  | nil => rfl
  | cons part rest ih =>
      have first := (accepted part List.mem_cons_self).again index
      have others := ih fun part there => accepted part (List.mem_cons_of_mem _ there)
      rw [validateParts,first,others]
      rfl

-- A content as a model gets it: no list, or a list of accepted parts that are not all text.
def Fit (supports : Supports) (content : Json) : Prop :=
  ∀ parts, content = .arr parts → (∀ part ∈ parts, Accepted supports part) ∧ ∃ part ∈ parts, isText part = false

theorem normalizeContent_fit {content out : Json} (read : normalizeContent supports index content = .ok out) :
    Fit supports out ∧ ∀ place, normalizeContent supports place out = .ok out := by
  cases content with
  | arr parts =>
      obtain ⟨valid,checked,same⟩ : ∃ valid, validateParts supports index parts = .ok valid ∧ collapse valid = out := by
        cases checked : validateParts supports index parts with
        | error refused =>
            rw [normalizeContent,checked] at read
            cases read
        | ok valid =>
            rw [normalizeContent,checked] at read
            exact ⟨valid,rfl,Except.ok.inj read⟩
      have accepted := validateParts_accepted checked
      subst same
      unfold collapse
      split
      · refine ⟨?_,fun _ => rfl⟩
        intro parts same
        cases same
      · rename_i mixed
        have mixed : ∃ part ∈ valid, isText part = false := by simpa using mixed
        refine ⟨?_,?_⟩
        · intro parts same
          cases same
          exact ⟨accepted,mixed⟩
        · intro place
          rw [normalizeContent,validateParts_again accepted]
          change Except.ok (collapse valid) = _
          unfold collapse
          rw [if_neg (by simpa using mixed)]
  | null | bool | num | str | obj =>
      cases read
      refine ⟨?_,fun _ => rfl⟩
      intro parts same
      cases same


end

-- A tool message whose name can be told from its call.
def Nameless (names : List (String × String)) (message : Json) : Prop :=
  message.get "role" = .str "tool" ∧ (message.get "name").truthy = false ∧
    ∃ name, toolName names (message.get "tool_call_id") = some name ∧ name ≠ ""

section
variable {names : List (String × String)} {message : Json}

theorem named_given (names : List (String × String)) (message : Json) : (named names message = message ∧ ¬Nameless names message) ∨
    ∃ name, toolName names (message.get "tool_call_id") = some name ∧ name ≠ "" ∧
      message.get "role" = .str "tool" ∧ (message.get "name").truthy = false ∧
      named names message = message.set "name" (.str name) := by
  unfold named
  split
  · rename_i asked
    have asked : message.get "role" = .str "tool" ∧ (message.get "name").truthy = false := by simpa using asked
    split
    · rename_i absent
      refine .inl ⟨rfl,?_⟩
      rintro ⟨_,_,name,found,_⟩
      rw [absent] at found
      cases found
    · rename_i empty
      refine .inl ⟨rfl,?_⟩
      rintro ⟨_,_,name,found,full⟩
      rw [empty] at found
      cases found
      exact full rfl
    · rename_i name full found
      exact .inr ⟨name,found,full,asked.1,asked.2,rfl⟩
  · rename_i unasked
    refine .inl ⟨rfl,?_⟩
    rintro ⟨tool,bare,_⟩
    exact unasked ⟨tool,by simp [bare]⟩

theorem named_other {field : String} (apart : "name" ≠ field) (message : Json) :
    (named names message).find? field = message.find? field := by
  rcases named_given names message with ⟨same,_⟩ | ⟨name,_,_,_,_,same⟩
  · rw [same]
  · rw [same,Json.find_set,if_neg apart]

theorem get_same {one two : Json} {field : String} (same : one.find? field = two.find? field) : one.get field = two.get field := by
  unfold Json.get
  rw [same]

theorem named_settled (names : List (String × String)) (message : Json) : ¬Nameless names (named names message) := by
  rcases named_given names message with ⟨same,settled⟩ | ⟨name,_,full,_,_,same⟩
  · rw [same]
    exact settled
  · rintro ⟨_,bare,_⟩
    rw [same,Json.get_set,if_pos rfl] at bare
    simp [Json.truthy] at bare
    exact full bare

theorem named_stays (settled : ¬Nameless names message) : named names message = message := by
  rcases named_given names message with ⟨same,_⟩ | ⟨name,found,full,tool,bare,_⟩
  · exact same
  · exact absurd ⟨tool,bare,name,found,full⟩ settled

theorem set_settled (settled : ¬Nameless names message) (content : Json) : ¬Nameless names (message.set "content" content) := by
  rintro ⟨tool,bare,name,found,full⟩
  rw [Json.get_set,if_neg (by decide)] at tool bare found
  exact settled ⟨tool,bare,name,found,full⟩

theorem setField_same {name : String} {value : Json} {fields : List (String × Json)}
    (there : (fields.find? (·.1 == name)).map (·.2) = some value) : Json.setField name value fields = fields := by
  induction fields with
  | nil => cases there
  | cons field rest ih =>
      obtain ⟨key,old⟩ := field
      unfold Json.setField
      by_cases here : key == name
      · rw [List.find?_cons_of_pos (by exact here)] at there
        cases there
        rw [if_pos here]
      · rw [List.find?_cons_of_neg (by exact here)] at there
        rw [if_neg here,ih there]

theorem set_again (message : Json) (name : String) (value : Json) :
    (message.set name value).set name value = message.set name value := by
  have there : (message.set name value).find? name = some value := by
    rw [Json.find_set,if_pos rfl]
  exact congrArg Json.obj (setField_same there)

section
variable {supports : Supports} {index : Nat} {out : Json}

-- What a message comes to: its name, and its content if that is a list.
theorem normalizeMessage_comes (read : normalizeMessage supports names index message = .ok out) :
    ∃ content, normalizeContent supports index (message.get "content") = .ok content ∧
      (out = (named names message).set "content" content ∧ (∃ parts, message.get "content" = .arr parts) ∨
        out = named names message ∧ message.get "content" = content ∧ ∀ parts, content ≠ .arr parts) := by
  unfold normalizeMessage at read
  split at read
  · rename_i parts content
    cases checked : normalizeContent supports index (.arr parts) with
    | error refused =>
        rw [checked] at read
        cases read
    | ok valid =>
        rw [checked] at read
        cases read
        exact ⟨valid,by rw [content]; exact checked,.inl ⟨rfl,parts,content⟩⟩
  · rename_i plain
    cases read
    refine ⟨message.get "content",?_,.inr ⟨rfl,rfl,plain⟩⟩
    unfold normalizeContent
    split
    · rename_i parts same
      exact absurd same (plain parts)
    · rfl

theorem content_get (content : Json) : ((named names message).set "content" content).get "content" = content := by
  rw [Json.get_set,if_pos rfl]

theorem normalizeMessage_again (read : normalizeMessage supports names index message = .ok out) :
    Fit supports (out.get "content") ∧ ∀ place, normalizeMessage supports names place out = .ok out := by
  obtain ⟨content,checked,⟨rfl,_⟩ | ⟨rfl,same,plain⟩⟩ := normalizeMessage_comes read
  · obtain ⟨fit,again⟩ := normalizeContent_fit checked
    have stays := named_stays (set_settled (named_settled names message) content)
    refine ⟨by rw [content_get]; exact fit,?_⟩
    intro place
    unfold normalizeMessage
    rw [content_get]
    cases content with
    | arr parts =>
        dsimp only
        rw [again place,stays]
        exact congrArg Except.ok (set_again ..)
    | null | bool | num | str | obj => exact congrArg Except.ok stays
  · have kept : (named names message).get "content" = message.get "content" := get_same (named_other (by decide) message)
    refine ⟨?_,?_⟩
    · intro parts list
      rw [kept,same] at list
      exact absurd list (plain parts)
    · intro place
      unfold normalizeMessage
      rw [kept,same]
      split
      · exact absurd rfl (plain _)
      · exact congrArg Except.ok (named_stays (named_settled names message))


end
end

section
variable {supports : Supports} {names : List (String × String)} {index : Nat}

theorem normalizeFrom_paired {messages out : List Json} (read : normalizeFrom supports names index messages = .ok out) :
    List.Forall₂ (fun message given => ∃ place, normalizeMessage supports names place message = .ok given) messages out := by
  induction messages generalizing index out with
  | nil =>
      cases read
      exact .nil
  | cons message rest ih =>
      obtain ⟨first,one,later⟩ := bind_ok.mp read
      obtain ⟨others,more,same⟩ := bind_ok.mp later
      cases same
      exact .cons ⟨index,one⟩ (ih more)

theorem callNames_kept {message out : Json} (read : normalizeMessage supports names index message = .ok out) :
    callNames out = callNames message := by
  have fields : ∀ field, "name" ≠ field → "content" ≠ field → out.get field = message.get field := by
    intro field unnamed other
    obtain ⟨content,_,⟨rfl,_⟩ | ⟨rfl,_,_⟩⟩ := normalizeMessage_comes read
    · rw [Json.get_set,if_neg other]
      exact get_same (named_other unnamed message)
    · exact get_same (named_other unnamed message)
  unfold callNames
  rw [fields "role" (by decide) (by decide),fields "tool_calls" (by decide) (by decide)]

theorem names_kept {messages out : List Json} (read : normalizeFrom supports names index messages = .ok out) :
    toolNameByCallId out = toolNameByCallId messages := by
  have paired := normalizeFrom_paired read
  clear read
  unfold toolNameByCallId
  congr 1
  induction paired with
  | nil => rfl
  | cons first _ ih =>
      obtain ⟨_,read⟩ := first
      rw [List.flatMap_cons,List.flatMap_cons,callNames_kept read,ih]

theorem normalizeFrom_again {messages out : List Json} (read : normalizeFrom supports names index messages = .ok out)
    (place : Nat) : normalizeFrom supports names place out = .ok out := by
  have paired := normalizeFrom_paired read
  clear read
  induction paired generalizing place with
  | nil => rfl
  | cons first _ ih =>
      obtain ⟨_,read⟩ := first
      rw [normalizeFrom,(normalizeMessage_again read).2 place,ih]
      rfl

-- A call, its result without a name, and a question with a picture.
def talk : List Json :=
  [.obj [("role",.str "assistant"),("tool_calls",.arr [.obj [("id",.str "c1"),("function",.obj [("name",.str "look")])]])],
    .obj [("role",.str "tool"),("tool_call_id",.str "c1"),("content",.arr [.str "a",.obj [("type",.str "refusal"),("refusal",.str "b")]])],
    .obj [("role",.str "user"),("content",.arr [.obj [("type",.str "input_image"),("image_url",.str "data:x")],.str "?"])]]

def talked : List Json :=
  [.obj [("role",.str "assistant"),("tool_calls",.arr [.obj [("id",.str "c1"),("function",.obj [("name",.str "look")])]])],
    .obj [("role",.str "tool"),("tool_call_id",.str "c1"),("content",.str "a\nb"),("name",.str "look")],
    .obj [("role",.str "user"),("content",.arr [imagePart "data:x" .null,textPart "?"])]]

-- Normalized messages are normal: a second pass finds nothing to refuse or to change.
theorem normalize_settles {messages out : List Json} (read : normalizeChatMessages supports messages = .ok out) :
    normalizeChatMessages supports out = .ok out := by
  unfold normalizeChatMessages at read ⊢
  rw [names_kept read]
  exact normalizeFrom_again read 0

theorem talk_settles : normalizeChatMessages ⟨true,false⟩ talked = .ok talked :=
  normalize_settles (show normalizeChatMessages ⟨true,false⟩ talk = .ok talked from rfl)

-- What gets through to the model: as many messages in the same order, each with all its
-- other fields; a name only where a tool message had none, and then that of a call of its
-- id; and no list of parts but of parts the model takes.
theorem normalize_guards {messages out : List Json} (read : normalizeChatMessages supports messages = .ok out) :
    List.Forall₂ (fun message given =>
      (∀ field, "name" ≠ field → "content" ≠ field → given.find? field = message.find? field) ∧
      (given.find? "name" = message.find? "name" ∨ message.get "role" = .str "tool" ∧ (message.get "name").truthy = false ∧
        ∃ callId name, message.get "tool_call_id" = .str callId ∧ given.get "name" = .str name ∧
          (callId,name) ∈ messages.flatMap callNames) ∧
      Fit supports (given.get "content") ∧
      ((∀ parts, message.get "content" ≠ .arr parts) → given.find? "content" = message.find? "content")) messages out := by
  refine (normalizeFrom_paired read).imp ?_
  rintro message given ⟨place,one⟩
  have fit := (normalizeMessage_again one).1
  obtain ⟨content,checked,comes⟩ := normalizeMessage_comes one
  have fields : ∀ field, "content" ≠ field →
      given.find? field = (named (toolNameByCallId messages) message).find? field := by
    intro field other
    rcases comes with ⟨rfl,_⟩ | ⟨rfl,_,_⟩
    · rw [Json.find_set,if_neg other]
    · rfl
  refine ⟨?_,?_,fit,?_⟩
  · intro field unnamed other
    rw [fields field other,named_other unnamed]
  · rcases named_given (toolNameByCallId messages) message with ⟨same,_⟩ | ⟨name,found,_,tool,bare,same⟩
    · rw [fields "name" (by decide),same]
      exact .inl rfl
    · refine .inr ⟨tool,bare,?_⟩
      have given_ := fields "name" (by decide)
      rw [same,Json.find_set,if_pos rfl] at given_
      unfold toolName at found
      obtain ⟨callId,asked,entry⟩ := Option.bind_eq_some_iff.mp found
      obtain ⟨⟨id,called⟩,hit,rfl⟩ := Option.map_eq_some_iff.mp entry
      have id_ : id = callId := by simpa using List.find?_some hit
      have there := List.mem_reverse.mp (List.mem_of_find?_eq_some hit)
      refine ⟨callId,called,?_,?_,id_ ▸ there⟩
      · cases held : message.get "tool_call_id" with
        | str text =>
            rw [held] at asked
            cases asked
            rfl
        | null | bool | num | arr | obj =>
            rw [held] at asked
            cases asked
      · unfold Json.get
        rw [given_]
        rfl
  · intro plain
    rcases comes with ⟨rfl,parts,list⟩ | ⟨rfl,_,_⟩
    · exact absurd list (plain parts)
    · exact named_other (by decide) message

theorem talk_guarded : List.Forall₂ (fun _ given => Fit ⟨true,false⟩ (given.get "content")) talk talked :=
  (normalize_guards (show normalizeChatMessages ⟨true,false⟩ talk = .ok talked from rfl)).imp fun _ _ all => all.2.2.1

end
end Modelship.Chat

import Modelship.OpenAI.Prompt

namespace Modelship.Responses
open Foundation Mcp

-- The system-level messages of the chat requests that are built from input items.

def compactionSystemPrompt : String :=
  "Summarize this conversation so it can be continued from a fresh context window " ++
  "with nothing essential lost. Structure the summary with these sections, in order: " ++
  "(1) the user's explicit requests and intent, verbatim where it matters; " ++
  "(2) key facts, decisions, names, and identifiers established so far; " ++
  "(3) specific file paths, code, or command output already produced, in enough " ++
  "detail to avoid re-deriving them; " ++
  "(4) errors encountered and how they were fixed, including any correction the " ++
  "user gave about how to approach the task; " ++
  "(5) work explicitly still pending; " ++
  "(6) exactly what was being worked on immediately before this summary, so the " ++
  "next turn picks up from there rather than guessing."

-- The index of the last user message, zero where there is none.
def lastUser (messages : List ChatMessage) : Nat :=
  ((messages.zipIdx.filter fun entry => entry.1.role = .str "user").map Prod.snd).foldl max 0

def popReasoning (messages : List ChatMessage) (count : Nat) : List ChatMessage :=
  (messages.take count).map (fun message => {message with reasoning := none}) ++ messages.drop count

def reasoningContexts : List Json := [.null,.str "auto",.str "current_turn",.str "all_turns"]

section
variable (decrypt : String → Decoded)

-- The messages of `responses_request_to_chat`; its other arguments read no input item.
def responsesRequestToChat (context : Json) (input : RequestInput) (instructions : Option String) :
    Except Refusal (List ChatMessage) := do
  if context ∉ reasoningContexts then
    throw (.unsupported ("reasoning.context must be one of 'auto', 'current_turn', 'all_turns', got " ++ shown context ++ "."))
  let messages ← messagesFromInput decrypt input instructions
  return if context = .str "current_turn" then popReasoning messages (lastUser messages) else messages

def buildSummarizationRequest (items : List Json) (instructions : Option String) : Except Refusal (List ChatMessage) := do
  let messages ← messagesFromInput decrypt (.items items) none
  return systemMessage [compactionSystemPrompt] ::
    ((nonempty instructions).toList.map (fun text => systemMessage [text]) ++ messages)

def inputTexts : RequestInput → List String
  | .text _ => []
  | .items items => systemTexts decrypt items

-- A reader that adds the texts of what it reads to those it was given, and makes no system-level message.
def Collects (reader : Reader) : Prop :=
  ∀ items systemParts messages after, items.any isCompaction = false → reader items systemParts = .ok (messages,after) →
    after = systemParts ++ systemTexts decrypt items ∧ ∀ message ∈ messages, systemLevel message.role = false

end

def Unsystematic (messages : List ChatMessage) : Prop := ∀ message ∈ messages, systemLevel message.role = false

-- One system message with all the texts, at the front, where there is a text at all.
def OneSystem (texts : List String) (messages : List ChatMessage) : Prop :=
  ∃ rest, messages = (if texts = [] then [] else [systemMessage texts]) ++ rest ∧ Unsystematic rest

-- The prompt, the caller's instructions in a message of their own, and then one system
-- message at most.
def Summarizes (texts : List String) (instructions : Option String) (messages : List ChatMessage) : Prop :=
  ∃ rest, messages = systemMessage [compactionSystemPrompt] ::
    ((nonempty instructions).toList.map (fun text => systemMessage [text]) ++ rest) ∧ OneSystem texts rest

section
variable {decrypt : String → Decoded} {inner : Reader}

theorem expanded_single {item : Json} (single : isCompaction item = false) : expanded decrypt item = [] := by
  unfold expanded
  rw [single]
  rfl

theorem allItems_flat {items : List Json} (flat : items.any isCompaction = false) : allItems decrypt items = items := by
  unfold allItems
  induction items with
  | nil => rfl
  | cons item rest ih =>
      rw [List.any_cons,Bool.or_eq_false_iff] at flat
      rw [List.flatMap_cons,expanded_single flat.1,ih flat.2]
      rfl

theorem ownTexts_plain {item : Json} (plain : isMessage item = false) : ownTexts item = [] := by
  unfold ownTexts
  rw [plain]
  rfl

theorem compaction_plain {item : Json} (held : isCompaction item = true) : isMessage item = false :=
  other_plain (of_decide_eq_true held) (by decide)

theorem message_single {item : Json} (spoken : isMessage item = true) : isCompaction item = false := by
  cases held : isCompaction item with
  | false => rfl
  | true =>
      rw [compaction_plain held] at spoken
      cases spoken

theorem say_unsystematic {r : Reading} {message : ChatMessage} (quiet : Unsystematic r.messages)
    (level : systemLevel message.role = false) : Unsystematic (r.say message).messages := by
  intro other member
  rcases List.mem_append.mp member with earlier | here
  · exact quiet other earlier
  · rw [List.mem_singleton.mp here]
    exact level

-- What one item adds to the texts.
theorem item_texts (collects : Collects decrypt inner) {r after : Reading} {item : Json} (read : ItemRead decrypt inner r item after) :
    after.systemParts = r.systemParts ++ (item :: expanded decrypt item).flatMap ownTexts ∧
      (Unsystematic r.messages → Unsystematic after.messages) := by
  have none_ : isMessage item = false → isCompaction item = false →
      r.systemParts ++ (item :: expanded decrypt item).flatMap ownTexts = r.systemParts := by
    intro plain single
    rw [List.flatMap_cons,ownTexts_plain plain,expanded_single single]
    simp
  cases read with
  | call name seen reasoning typed found =>
      have plain := other_plain typed (by decide)
      have single := other_single typed (by decide)
      exact ⟨(none_ plain single).symm,fun quiet => say_unsystematic quiet rfl⟩
  | pair callId name reasoning content plain single =>
      refine ⟨(none_ plain single).symm,?_⟩
      intro quiet
      exact say_unsystematic (say_unsystematic (r := {r with carried := none}) quiet rfl) rfl
  | skip carried plain single => exact ⟨(none_ plain single).symm,id⟩
  | output callId seen content plain single found known =>
      exact ⟨(none_ plain single).symm,fun quiet => say_unsystematic quiet rfl⟩
  | expand messages systemParts plain flat read =>
      obtain ⟨texts,level⟩ := collects _ _ _ _ flat read
      constructor
      · show systemParts = _
        rw [texts,List.flatMap_cons,ownTexts_plain plain]
        unfold systemTexts
        rw [allItems_flat flat]
        rfl
      · intro quiet message member
        rcases List.mem_append.mp member with earlier | here
        · exact quiet message earlier
        · exact level message here
  | tell spoken level =>
      refine ⟨?_,id⟩
      rw [List.flatMap_cons,expanded_single (message_single spoken)]
      simp
  | say content reasoning spoken level =>
      refine ⟨?_,fun quiet => say_unsystematic quiet level⟩
      have untold : ownTexts item = [] := by
        unfold ownTexts
        rw [level,Bool.and_false]
        rfl
      rw [List.flatMap_cons,untold,expanded_single (message_single spoken)]
      exact (List.append_nil _).symm

theorem systemTexts_snoc (before : List Json) (item : Json) :
    systemTexts decrypt (before ++ [item]) = systemTexts decrypt before ++ (item :: expanded decrypt item).flatMap ownTexts := by
  unfold systemTexts
  rw [allItems_snoc,List.flatMap_append]

-- The texts of a whole list, and none of them in a message of its own.
theorem items_texts (collects : Collects decrypt inner) {items : List Json} {r after : Reading}
    (read : items.foldlM (readItem decrypt inner) r = .ok after) :
    after.systemParts = r.systemParts ++ systemTexts decrypt items ∧ (Unsystematic r.messages → Unsystematic after.messages) := by
  refine foldlM_traced (fun before s => s.systemParts = r.systemParts ++ systemTexts decrypt before ∧
    (Unsystematic r.messages → Unsystematic s.messages)) ?_ ⟨(List.append_nil _).symm,id⟩ read
  intro before item s t traced here
  obtain ⟨texts,quiet⟩ := item_texts collects (readItem_read here)
  refine ⟨?_,quiet ∘ traced.2⟩
  rw [texts,traced.1,List.append_assoc,systemTexts_snoc]

theorem messagesFromItems_texts {items : List Json} {systemParts after : List String} {messages : List ChatMessage}
    (read : messagesFromItems decrypt items systemParts = .ok (messages,after)) :
    after = systemParts ++ systemTexts decrypt items ∧ Unsystematic messages := by
  refine messagesFromItems_levels (fun items systemParts messages after =>
    after = systemParts ++ systemTexts decrypt items ∧ Unsystematic messages) ?_ read
  intro inner collects items systemParts r done
  obtain ⟨texts,quiet⟩ := items_texts collects done
  exact ⟨texts,quiet nofun⟩

theorem messagesFromInput_system {input : RequestInput} {instructions : Option String} {messages : List ChatMessage}
    (read : messagesFromInput decrypt input instructions = .ok messages) :
    OneSystem ((nonempty instructions).toList ++ inputTexts decrypt input) messages := by
  have merged : ∀ texts rest, Unsystematic rest →
      OneSystem texts (if texts.isEmpty then rest else systemMessage texts :: rest) := by
    intro texts rest quiet
    refine ⟨rest,?_,quiet⟩
    cases texts with
    | nil => rfl
    | cons text more => rfl
  unfold messagesFromInput at read
  obtain ⟨⟨rest,texts⟩,inside,same⟩ := bind_ok.mp read
  cases same
  cases input with
  | text text =>
      cases inside
      unfold inputTexts
      rw [List.append_nil]
      apply merged
      intro message member
      rw [List.mem_singleton.mp member]
      rfl
  | items items =>
      obtain ⟨whole,quiet⟩ := messagesFromItems_texts inside
      unfold inputTexts
      rw [← whole]
      exact merged texts rest quiet

theorem popReasoning_roles (messages : List ChatMessage) (count : Nat) :
    (popReasoning messages count).map ChatMessage.role = messages.map ChatMessage.role := by
  unfold popReasoning
  rw [List.map_append,List.map_map]
  exact (List.map_append).symm.trans (congrArg (List.map ChatMessage.role) (List.take_append_drop count messages))

theorem unsystematic_roles {one two : List ChatMessage} (same : one.map ChatMessage.role = two.map ChatMessage.role)
    (quiet : Unsystematic two) : Unsystematic one := by
  intro message member
  have role : message.role ∈ two.map ChatMessage.role := same ▸ List.mem_map.mpr ⟨message,member,rfl⟩
  obtain ⟨other,there,equal⟩ := List.mem_map.mp role
  rw [← equal]
  exact quiet other there

-- Popping the reasoning of earlier turns leaves a system message as it is.
theorem popReasoning_system {texts : List String} {messages : List ChatMessage} (one : OneSystem texts messages) (count : Nat) :
    OneSystem texts (popReasoning messages count) := by
  obtain ⟨rest,rfl,quiet⟩ := one
  by_cases none_ : texts = []
  · rw [if_pos none_,List.nil_append]
    refine ⟨popReasoning rest count,?_,unsystematic_roles (popReasoning_roles rest count) quiet⟩
    rw [if_pos none_,List.nil_append]
  · rw [if_neg none_,List.singleton_append]
    cases count with
    | zero => exact ⟨rest,by rw [if_neg none_]; rfl,quiet⟩
    | succ count =>
        refine ⟨popReasoning rest count,?_,unsystematic_roles (popReasoning_roles rest count) quiet⟩
        rw [if_neg none_]
        rfl

theorem responsesRequestToChat_system {context : Json} {input : RequestInput} {instructions : Option String}
    {messages : List ChatMessage} (built : responsesRequestToChat decrypt context input instructions = .ok messages) :
    OneSystem ((nonempty instructions).toList ++ inputTexts decrypt input) messages := by
  unfold responsesRequestToChat at built
  obtain ⟨read,inside,same⟩ := bind_ok.mp (unless_ok built)
  cases same
  have one := messagesFromInput_system inside
  split
  · exact popReasoning_system one (lastUser read)
  · exact one

theorem buildSummarizationRequest_system {items : List Json} {instructions : Option String} {messages : List ChatMessage}
    (built : buildSummarizationRequest decrypt items instructions = .ok messages) :
    Summarizes (systemTexts decrypt items) instructions messages := by
  unfold buildSummarizationRequest at built
  obtain ⟨read,inside,same⟩ := bind_ok.mp built
  cases same
  exact ⟨read,rfl,messagesFromInput_system inside⟩

-- One system message leads a request; a request for a summary has its own prompt and the caller's instructions
-- before the one with the texts of the items.
theorem system_messages_lead (decrypt : String → Decoded) :
    (∀ context input instructions messages, responsesRequestToChat decrypt context input instructions = .ok messages →
      OneSystem ((nonempty instructions).toList ++ inputTexts decrypt input) messages) ∧
    (∀ items instructions messages, buildSummarizationRequest decrypt items instructions = .ok messages →
      Summarizes (systemTexts decrypt items) instructions messages) := by
  constructor
  · intro context input instructions messages built
    exact responsesRequestToChat_system built
  · intro items instructions messages built
    exact buildSummarizationRequest_system built

end

def hello : List Json :=
  [.obj [("role",.str "user"),("content",.str "hi")],.obj [("role",.str "developer"),("content",.str "be kind")]]

theorem system_messages_lead_hello :
    (∃ messages, responsesRequestToChat (fun _ => .invalidToken) .null (.items hello) (some "be brief") = .ok messages ∧
      OneSystem ["be brief","be kind"] messages) ∧
    ∃ messages, buildSummarizationRequest (fun _ => .invalidToken) hello (some "be brief") = .ok messages ∧
      Summarizes ["be kind"] (some "be brief") messages := by
  obtain ⟨leads,summarizes⟩ := system_messages_lead fun _ => .invalidToken
  have read : responsesRequestToChat (fun _ => .invalidToken) .null (.items hello) (some "be brief") =
      .ok [systemMessage ["be brief","be kind"],⟨.str "user",.str "hi",[],none,none⟩] := by decide +kernel
  have summary : buildSummarizationRequest (fun _ => .invalidToken) hello (some "be brief") =
      .ok [systemMessage [compactionSystemPrompt],systemMessage ["be brief"],systemMessage ["be kind"],
        ⟨.str "user",.str "hi",[],none,none⟩] := by decide +kernel
  exact ⟨⟨_,read,leads _ _ _ _ read⟩,_,summary,summarizes _ _ _ summary⟩

-- The prompt for the summary and the caller's instructions are two messages.
theorem summary_has_two : ¬∀ (items : List Json) (instructions : Option String) (messages : List ChatMessage),
    buildSummarizationRequest (fun _ => .invalidToken) items instructions = .ok messages →
      (messages.filter fun message => systemLevel message.role).length ≤ 1 := by
  intro every
  have run : buildSummarizationRequest (fun _ => .invalidToken) hello (some "focus on pricing details") =
      .ok [systemMessage [compactionSystemPrompt],systemMessage ["focus on pricing details"],systemMessage ["be kind"],
        ⟨.str "user",.str "hi",[],none,none⟩] := by decide +kernel
  have most := every _ _ _ run
  simp [systemMessage,systemLevel] at most

end Modelship.Responses

import Modelship.OpenAI.Adapter

namespace Modelship.Responses
open Foundation Mcp

-- What accepted input items are read as, and the chat messages made of them.

def itemRole (item : Json) : Json := (item.find? "role").getD (.str "user")

def systemLevel (role : Json) : Bool := role = .str "system" || role = .str "developer"

-- The types that are not read as a message, even of an item that has a role.
def otherTypes : List String :=
  ["function_call","mcp_call","mcp_list_tools","mcp_approval_request","mcp_approval_response","function_call_output",
    "reasoning","compaction"]

def isMessage (item : Json) : Bool :=
  item.get "type" = .str "message" || (item.find? "role").isSome && otherTypes.all fun other => item.get "type" ≠ .str other

-- The id a function call is known by.
def calledId (item : Json) : Json := if (item.get "call_id").truthy then item.get "call_id" else item.get "id"

-- The system-level text an item has itself.
def ownTexts (item : Json) : List String :=
  if isMessage item && systemLevel (itemRole item) then
    match textOf (item.get "content") with
    | .ok text => (nonempty text).toList
    | .error _ => []
  else []

inductive RequestInput where
  | text (text : String)
  | items (items : List Json)

def systemMessage (texts : List String) : ChatMessage := ⟨.str "system",.str ("\n\n".intercalate texts),[],none,none⟩

section
variable (decrypt : String → Decoded)

-- The items a compaction item holds.
def expanded (item : Json) : List Json :=
  if isCompaction item then
    match item.get "encrypted_content" with
    | .str blob =>
      match decrypt blob with
      | .items items => items
      | _ => []
    | _ => []
  else []

-- Every item that is read, those of a compaction item after it.
def allItems (items : List Json) : List Json := items.flatMap fun item => item :: expanded decrypt item

def systemTexts (items : List Json) : List String := (allItems decrypt items).flatMap ownTexts

-- A plain text is one user message.
def readInput (input : RequestInput) (systemParts : List String) : Except Refusal (List ChatMessage × List String) :=
  match input with
  | .text text => .ok ([⟨.str "user",.str text,[],none,none⟩],systemParts)
  | .items items => messagesFromItems decrypt items systemParts

def messagesFromInput (input : RequestInput) (instructions : Option String) : Except Refusal (List ChatMessage) := do
  let (messages,systemParts) ← readInput decrypt input (nonempty instructions).toList
  return if systemParts.isEmpty then messages else systemMessage systemParts :: messages

-- What one accepted item is read as. A call and its output, a skipped item and a carried reasoning tell no
-- system text and hold no further items.
inductive ItemRead (inner : Reader) (r : Reading) (item : Json) : Reading → Prop where
  | call (name seen : Json) (reasoning : Option String) (typed : item.get "type" = .str "function_call")
      (found : member (calledId item) = .ok seen) :
      ItemRead inner r item
        ({r with carried := none, seenCallIds := seen :: r.seenCallIds}.calls reasoning (calledId item) name item)
  | pair (callId name : Json) (reasoning content : Option String) (plain : isMessage item = false)
      (single : isCompaction item = false) :
      ItemRead inner r item (({r with carried := none}.calls reasoning callId name item).answers callId content)
  | skip (carried : Option String) (plain : isMessage item = false) (single : isCompaction item = false) :
      ItemRead inner r item {r with carried}
  | output (callId seen : Json) (content : Option String) (plain : isMessage item = false) (single : isCompaction item = false)
      (found : member callId = .ok seen) (known : seen ∈ r.seenCallIds) :
      ItemRead inner r item ({r with carried := none}.answers callId content)
  | expand (messages : List ChatMessage) (systemParts : List String) (plain : isMessage item = false)
      (flat : (expanded decrypt item).any isCompaction = false)
      (read : inner (expanded decrypt item) r.systemParts = .ok (messages,systemParts)) :
      ItemRead inner r item {r with carried := none, messages := r.messages ++ messages, systemParts}
  | tell (spoken : isMessage item = true) (level : systemLevel (itemRole item) = true) :
      ItemRead inner r item {r with carried := none, systemParts := r.systemParts ++ ownTexts item}
  | say (content : Json) (reasoning : Option String) (spoken : isMessage item = true)
      (level : systemLevel (itemRole item) = false) :
      ItemRead inner r item ({r with carried := none}.say ⟨itemRole item,content,[],none,reasoning⟩)

end

section
variable {decrypt : String → Decoded} {inner : Reader}

theorem allItems_snoc (before : List Json) (item : Json) :
    allItems decrypt (before ++ [item]) = allItems decrypt before ++ item :: expanded decrypt item := by
  unfold allItems
  rw [List.flatMap_append,List.flatMap_singleton]

-- A list is read on two levels: what a level has where its inner one has it, the whole reading has.
theorem messagesFromItems_levels (Holds : List Json → List String → List ChatMessage → List String → Prop)
    (level : ∀ inner : Reader, (∀ items systemParts messages after, items.any isCompaction = false →
        inner items systemParts = .ok (messages,after) → Holds items systemParts messages after) →
      ∀ items systemParts r, items.foldlM (readItem decrypt inner) ⟨[],[],none,systemParts⟩ = .ok r →
        Holds items systemParts r.messages r.systemParts)
    {items : List Json} {systemParts after : List String} {messages : List ChatMessage}
    (read : messagesFromItems decrypt items systemParts = .ok (messages,after)) : Holds items systemParts messages after := by
  have each : ∀ inner : Reader, (∀ items systemParts messages after, items.any isCompaction = false →
      inner items systemParts = .ok (messages,after) → Holds items systemParts messages after) →
      ∀ items systemParts messages after, readItems decrypt inner items systemParts = .ok (messages,after) →
        Holds items systemParts messages after := by
    intro inner holds items systemParts messages after read
    obtain ⟨r,done,same⟩ := bind_ok.mp read
    cases same
    exact level inner holds items systemParts r done
  refine each _ ?_ items systemParts messages after read
  intro items systemParts messages after _ inside
  refine each _ ?_ items systemParts messages after inside
  intro _ _ _ _ _ crashed
  cases crashed

theorem other_plain {item : Json} {kind : String} (typed : item.get "type" = .str kind) (other : kind ∈ otherTypes) :
    isMessage item = false := by
  have apart : kind ≠ "message" := by
    rintro rfl
    revert other
    decide
  unfold isMessage
  rw [typed,Bool.or_eq_false_iff,Bool.and_eq_false_iff]
  refine ⟨by simpa using apart,.inr ?_⟩
  rw [List.all_eq_false]
  exact ⟨kind,other,by simp⟩

theorem other_single {item : Json} {kind : String} (typed : item.get "type" = .str kind) (apart : kind ≠ "compaction") :
    isCompaction item = false := by
  unfold isCompaction
  rw [typed]
  simpa using apart

theorem message_read {r after : Reading} {item : Json} {reasoning : Option String} (spoken : isMessage item = true)
    (read : Reading.message {r with carried := none} reasoning item = .ok after) : ItemRead decrypt inner r item after := by
  unfold Reading.message at read
  dsimp only at read
  split at read
  · rename_i level
    obtain ⟨text,content,same⟩ := bind_ok.mp read
    cases same
    have own : ownTexts item = (nonempty text).toList := by
      unfold ownTexts itemRole systemLevel
      rw [spoken,level,content]
      rfl
    rw [← own]
    exact .tell spoken level
  · rename_i level
    obtain ⟨content,_,same⟩ := bind_ok.mp read
    cases same
    exact .say content _ spoken (Bool.eq_false_iff.mpr level)

theorem call_read {r after : Reading} {item : Json} {reasoning : Option String} (typed : item.get "type" = .str "function_call")
    (read : Reading.functionCall {r with carried := none} reasoning item = .ok after) : ItemRead decrypt inner r item after := by
  unfold Reading.functionCall at read
  dsimp only at read
  obtain ⟨seen,found,same⟩ := bind_ok.mp (unless_ok read)
  cases same
  exact .call _ seen reasoning typed found

theorem pair_read {r after : Reading} {item : Json} {reasoning : Option String} (typed : item.get "type" = .str "mcp_call")
    (read : Reading.mcpCall {r with carried := none} reasoning item = .ok after) : ItemRead decrypt inner r item after := by
  unfold Reading.mcpCall at read
  dsimp only at read
  have plain := other_plain typed (by decide)
  have single := other_single typed (by decide)
  have content := unless_ok (unless_ok read)
  split at content
  · obtain ⟨text,_,same⟩ := bind_ok.mp content
    cases same
    exact .pair _ _ reasoning text plain single
  · obtain ⟨text,_,same⟩ := bind_ok.mp content
    cases same
    exact .pair _ _ reasoning text plain single

theorem output_read {r after : Reading} {item : Json} (typed : item.get "type" = .str "function_call_output")
    (read : Reading.functionCallOutput {r with carried := none} item = .ok after) : ItemRead decrypt inner r item after := by
  unfold Reading.functionCallOutput at read
  dsimp only at read
  obtain ⟨content,_,later⟩ := bind_ok.mp (unless_ok read)
  obtain ⟨seen,found,last⟩ := bind_ok.mp later
  split at last
  · rename_i known
    cases last
    exact .output _ seen content (other_plain typed (by decide)) (other_single typed (by decide)) found (by simpa using known)
  · cases last

theorem reasoning_read {r after : Reading} {item : Json} (typed : item.get "type" = .str "reasoning")
    (read : Reading.reasoning {r with carried := none} item = .ok after) : ItemRead decrypt inner r item after := by
  unfold Reading.reasoning at read
  obtain ⟨text,_,later⟩ := bind_ok.mp read
  dsimp only at later
  split at later
  · obtain ⟨_,_,same⟩ := bind_ok.mp later
    cases same
    exact .skip _ (other_plain typed (by decide)) (other_single typed (by decide))
  · obtain ⟨_,_,same⟩ := bind_ok.mp later
    cases same
    exact .skip _ (other_plain typed (by decide)) (other_single typed (by decide))

theorem compaction_read {r after : Reading} {item : Json} (typed : item.get "type" = .str "compaction")
    (read : Reading.compaction decrypt inner {r with carried := none} item = .ok after) : ItemRead decrypt inner r item after := by
  have held : isCompaction item = true := by
    unfold isCompaction
    rw [typed]
    rfl
  unfold Reading.compaction at read
  split at read
  · cases read
  · rename_i blob given
    split at read
    · cases read
    · cases read
    · rename_i decoded known
      have items : expanded decrypt item = decoded := by
        unfold expanded
        rw [if_pos held,given]
        dsimp only
        rw [known]
      cases nested : decoded.any isCompaction with
      | true =>
          rw [nested] at read
          cases read
      | false =>
          rw [nested] at read
          obtain ⟨⟨messages,systemParts⟩,inside,same⟩ := bind_ok.mp read
          cases same
          rw [← items] at nested inside
          exact .expand messages systemParts (other_plain typed (by decide)) nested inside
  · split at read
    · cases read
    · cases read

theorem other_kind {item : Json} (unknown : ∀ kind ∈ otherTypes, item.get "type" ≠ .str kind) (roled : (item.find? "role").isSome) :
    isMessage item = true := by
  unfold isMessage
  rw [roled,Bool.true_and,Bool.or_eq_true]
  refine .inr (List.all_eq_true.mpr ?_)
  intro kind other
  exact decide_eq_true (unknown kind other)

theorem readItem_read {r after : Reading} {item : Json} (read : readItem decrypt inner r item = .ok after) :
    ItemRead decrypt inner r item after := by
  unfold readItem at read
  split at read
  case h_2 => cases read
  case h_1 fields =>
    dsimp only at read
    split at read
    · rename_i typed
      exact call_read typed read
    · rename_i typed
      exact pair_read typed read
    · rename_i typed
      cases read
      exact .skip none (other_plain typed (by decide)) (other_single typed (by decide))
    · rename_i typed
      cases read
      exact .skip none (other_plain typed (by decide)) (other_single typed (by decide))
    · rename_i typed
      cases read
      exact .skip none (other_plain typed (by decide)) (other_single typed (by decide))
    · rename_i typed
      exact output_read typed read
    · rename_i typed
      exact reasoning_read typed read
    · rename_i typed
      exact compaction_read typed read
    · rename_i typed
      have spoken : isMessage (.obj fields) = true := by
        unfold isMessage
        rw [typed]
        rfl
      exact message_read spoken read
    · split at read
      case isTrue roled =>
        refine message_read (other_kind ?_ roled) read
        intro kind other same
        simp only [otherTypes,List.mem_cons,List.not_mem_nil,or_false] at other
        rcases other with rfl | rfl | rfl | rfl | rfl | rfl | rfl | rfl <;> contradiction
      case isFalse => cases read

end

end Modelship.Responses

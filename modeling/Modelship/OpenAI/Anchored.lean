import Modelship.OpenAI.SystemMessage

namespace Modelship.Responses
open Foundation Mcp

-- Which tool messages of a prompt answer a call that stands before them.

-- Ids compare as Python's values do.
def sameId (one two : Json) : Prop := one = two ∨ ∃ value, member one = .ok value ∧ member two = .ok value

def Called (before : List ChatMessage) (id : Json) : Prop :=
  ∃ message ∈ before, message.role = .str "assistant" ∧ ∃ call ∈ message.toolCalls, sameId call.id id

-- Read from the front: a tool message has the id of a call made before it.
def AnchoredAfter (before : List ChatMessage) : List ChatMessage → Prop
  | [] => True
  | message :: rest => (message.role = .str "tool" → ∃ id, message.toolCallId = some id ∧ Called before id) ∧
      AnchoredAfter (before ++ [message]) rest

def Anchored (messages : List ChatMessage) : Prop := AnchoredAfter [] messages

-- An item that is read as a message of the tool's, which no id comes with.
def speaksTool (item : Json) : Bool := isMessage item && itemRole item = .str "tool"

theorem role_apart {message : ChatMessage} {role : String} (has : message.role = .str role) (apart : role ≠ "tool") :
    message.role ≠ .str "tool" := by
  rw [has]
  intro same
  exact apart (Json.str.inj same)

theorem Called.grows {before more : List ChatMessage} {id : Json} (called : Called before id)
    (kept : ∀ message ∈ before, message ∈ more) : Called more id := by
  obtain ⟨message,member,calls⟩ := called
  exact ⟨message,kept message member,calls⟩

theorem anchored_grows {before more messages : List ChatMessage} (anchored : AnchoredAfter before messages)
    (kept : ∀ message ∈ before, message ∈ more) : AnchoredAfter more messages := by
  induction messages generalizing before more with
  | nil => trivial
  | cons message rest ih =>
      obtain ⟨here,later⟩ := anchored
      constructor
      · intro tool
        obtain ⟨id,given,called⟩ := here tool
        exact ⟨id,given,called.grows kept⟩
      · apply ih later
        intro other member
        rcases List.mem_append.mp member with earlier | last
        · exact List.mem_append_left _ (kept other earlier)
        · exact List.mem_append_right _ last

theorem anchored_append {before one two : List ChatMessage} :
    AnchoredAfter before (one ++ two) ↔ AnchoredAfter before one ∧ AnchoredAfter (before ++ one) two := by
  induction one generalizing before with
  | nil => simp [AnchoredAfter]
  | cons message rest ih =>
      simp only [List.cons_append,AnchoredAfter,ih,List.append_assoc,List.nil_append]
      exact and_assoc.symm

theorem anchored_adds {messages : List ChatMessage} {message : ChatMessage} (anchored : Anchored messages)
    (answered : message.role = .str "tool" → ∃ id, message.toolCallId = some id ∧ Called messages id) :
    Anchored (messages ++ [message]) :=
  anchored_append.mpr ⟨anchored,answered,trivial⟩

theorem anchored_member {before messages : List ChatMessage} {message : ChatMessage} (anchored : AnchoredAfter before messages)
    (member : message ∈ messages) (tool : message.role = .str "tool") : message.toolCallId ≠ none := by
  induction messages generalizing before with
  | nil => cases member
  | cons first rest ih =>
      rcases List.mem_cons.mp member with rfl | later
      · obtain ⟨id,given,_⟩ := anchored.1 tool
        rw [given]
        nofun
      · exact ih anchored.2 later

-- The messages read so far are anchored, and every id seen is that of a call among them.
structure Fastened (r : Reading) : Prop where
  anchored : Anchored r.messages
  seen : ∀ id ∈ r.seenCallIds, ∃ message ∈ r.messages, message.role = .str "assistant" ∧
    ∃ call ∈ message.toolCalls, member call.id = .ok id

section
variable {decrypt : String → Decoded} {inner : Reader}

-- A reader that anchors what it reads, where no item speaks for a tool.
def Anchors (decrypt : String → Decoded) (reader : Reader) : Prop :=
  ∀ items systemParts messages after, items.any isCompaction = false → reader items systemParts = .ok (messages,after) →
    (∀ item ∈ allItems decrypt items, speaksTool item = false) → Anchored messages

theorem Fastened.adds {r : Reading} {message : ChatMessage} (fastened : Fastened r)
    (answered : message.role = .str "tool" → ∃ id, message.toolCallId = some id ∧ Called r.messages id) :
    Fastened (r.say message) := by
  refine ⟨anchored_adds fastened.anchored answered,?_⟩
  intro id known
  obtain ⟨other,member,call⟩ := fastened.seen id known
  exact ⟨other,List.mem_append_left _ member,call⟩

theorem Fastened.forgets {r : Reading} (fastened : Fastened r) (carried : Option String) (systemParts : List String) :
    Fastened {r with carried, systemParts} := ⟨fastened.anchored,fastened.seen⟩

theorem item_fastened (anchors : Anchors decrypt inner) {r after : Reading} {item : Json} (read : ItemRead decrypt inner r item after)
    (silent : ∀ other ∈ item :: expanded decrypt item, speaksTool other = false) (fastened : Fastened r) : Fastened after := by
  have forgotten := fastened.forgets none r.systemParts
  cases read with
  | call name seen reasoning typed found =>
      refine ⟨anchored_adds fastened.anchored fun tool => absurd tool (role_apart rfl (by decide)),?_⟩
      intro id known
      rcases List.mem_cons.mp known with same | earlier
      · subst same
        exact ⟨_,List.mem_append_right _ List.mem_cons_self,rfl,_,List.mem_cons_self,found⟩
      · obtain ⟨message,member,call⟩ := fastened.seen id earlier
        exact ⟨message,List.mem_append_left _ member,call⟩
  | pair callId name reasoning content plain single =>
      apply Fastened.adds (forgotten.adds fun tool => absurd tool (role_apart rfl (by decide)))
      intro _
      exact ⟨callId,rfl,_,List.mem_append_right _ List.mem_cons_self,rfl,_,List.mem_cons_self,.inl rfl⟩
  | skip carried plain single => exact fastened.forgets carried r.systemParts
  | output callId seen content plain single found known =>
      apply forgotten.adds
      intro _
      obtain ⟨message,member,assistant,call,made,same⟩ := fastened.seen seen known
      exact ⟨callId,rfl,message,member,assistant,call,made,.inr ⟨seen,same,found⟩⟩
  | expand messages systemParts plain flat read =>
      have inside : Anchored messages := by
        apply anchors _ _ _ _ flat read
        intro other member
        rw [allItems_flat flat] at member
        exact silent other (List.mem_cons_of_mem _ member)
      refine ⟨anchored_append.mpr ⟨fastened.anchored,anchored_grows inside nofun⟩,?_⟩
      intro id known
      obtain ⟨message,member,call⟩ := fastened.seen id known
      exact ⟨message,List.mem_append_left _ member,call⟩
  | tell spoken level => exact fastened.forgets none _
  | say content reasoning spoken level =>
      apply forgotten.adds
      intro tool
      have speaks := silent item List.mem_cons_self
      unfold speaksTool at speaks
      rw [spoken,Bool.true_and,decide_eq_false_iff_not] at speaks
      exact absurd tool speaks

theorem items_fastened (anchors : Anchors decrypt inner) {items : List Json} {r after : Reading}
    (read : items.foldlM (readItem decrypt inner) r = .ok after)
    (silent : ∀ item ∈ allItems decrypt items, speaksTool item = false) (fastened : Fastened r) : Fastened after := by
  refine foldlM_traced (fun before s => (∀ item ∈ allItems decrypt before, speaksTool item = false) → Fastened s)
    ?_ (fun _ => fastened) read silent
  intro before item s t traced here silent
  rw [allItems_snoc,List.forall_mem_append] at silent
  exact item_fastened anchors (readItem_read here) silent.2 (traced silent.1)

theorem messagesFromItems_anchored {items : List Json} {systemParts after : List String} {messages : List ChatMessage}
    (read : messagesFromItems decrypt items systemParts = .ok (messages,after))
    (silent : ∀ item ∈ allItems decrypt items, speaksTool item = false) : Anchored messages := by
  refine messagesFromItems_levels (fun items _ messages _ =>
    (∀ item ∈ allItems decrypt items, speaksTool item = false) → Anchored messages) ?_ read silent
  intro inner anchors items systemParts r done silent
  exact (items_fastened anchors done silent ⟨trivial,nofun⟩).anchored

-- What was read stays: no message is taken back.
theorem item_keeps {r after : Reading} {item : Json} (read : ItemRead decrypt inner r item after) :
    ∀ message ∈ r.messages, message ∈ after.messages := by
  intro message member
  cases read with
  | call name seen reasoning typed found => exact List.mem_append_left _ member
  | pair callId name reasoning content plain single => exact List.mem_append_left _ (List.mem_append_left _ member)
  | skip carried plain single => exact member
  | output callId seen content plain single found known => exact List.mem_append_left _ member
  | expand messages systemParts plain flat read => exact List.mem_append_left _ member
  | tell spoken level => exact member
  | say content reasoning spoken level => exact List.mem_append_left _ member

def Unanchored (message : ChatMessage) : Prop := message.role = .str "tool" ∧ message.toolCallId = none

-- A reader that lets a message of the tool's through as it is.
def Exposes (decrypt : String → Decoded) (reader : Reader) : Prop :=
  ∀ items systemParts messages after, items.any isCompaction = false → reader items systemParts = .ok (messages,after) →
    (∃ item ∈ allItems decrypt items, speaksTool item = true) → ∃ message ∈ messages, Unanchored message

theorem speaks_spoken {item : Json} (speaks : speaksTool item = true) : isMessage item = true ∧ itemRole item = .str "tool" := by
  unfold speaksTool at speaks
  obtain ⟨spoken,role⟩ := Bool.and_eq_true_iff.mp speaks
  exact ⟨spoken,of_decide_eq_true role⟩

theorem item_exposed (exposes : Exposes decrypt inner) {r after : Reading} {item : Json} (read : ItemRead decrypt inner r item after)
    (speaks : ∃ other ∈ item :: expanded decrypt item, speaksTool other = true) : ∃ message ∈ after.messages, Unanchored message := by
  obtain ⟨other,member,loud⟩ := speaks
  have apart : isMessage item = false → isCompaction item = false → False := by
    intro plain single
    rw [expanded_single single,List.mem_singleton] at member
    rw [← member,(speaks_spoken loud).1] at plain
    cases plain
  cases read with
  | call name seen reasoning typed found => exact (apart (other_plain typed (by decide)) (other_single typed (by decide))).elim
  | pair callId name reasoning content plain single => exact (apart plain single).elim
  | skip carried plain single => exact (apart plain single).elim
  | output callId seen content plain single found known => exact (apart plain single).elim
  | expand messages systemParts plain flat read =>
      rcases List.mem_cons.mp member with same | inside
      · rw [← same,(speaks_spoken loud).1] at plain
        cases plain
      · rw [← allItems_flat flat] at inside
        obtain ⟨message,there,bare⟩ := exposes _ _ _ _ flat read ⟨other,inside,loud⟩
        exact ⟨message,List.mem_append_right _ there,bare⟩
  | tell spoken level =>
      rw [expanded_single (message_single spoken),List.mem_singleton] at member
      rw [← member,(speaks_spoken loud).2] at level
      cases level
  | say content reasoning spoken level =>
      rw [expanded_single (message_single spoken),List.mem_singleton] at member
      rw [← member,(speaks_spoken loud).2]
      exact ⟨_,List.mem_append_right _ List.mem_cons_self,rfl,rfl⟩

theorem items_exposed (exposes : Exposes decrypt inner) {items : List Json} {r after : Reading}
    (read : items.foldlM (readItem decrypt inner) r = .ok after)
    (speaks : ∃ item ∈ allItems decrypt items, speaksTool item = true) : ∃ message ∈ after.messages, Unanchored message := by
  refine foldlM_traced (fun before s => (∃ item ∈ allItems decrypt before, speaksTool item = true) →
    ∃ message ∈ s.messages, Unanchored message) ?_ ?_ read speaks
  · intro before item s t traced here speaks
    obtain ⟨other,member,loud⟩ := speaks
    rw [allItems_snoc] at member
    rcases List.mem_append.mp member with earlier | last
    · obtain ⟨message,there,bare⟩ := traced ⟨other,earlier,loud⟩
      exact ⟨message,item_keeps (readItem_read here) message there,bare⟩
    · exact item_exposed exposes (readItem_read here) ⟨other,last,loud⟩
  · intro speaks
    obtain ⟨item,member,_⟩ := speaks
    cases member

theorem messagesFromItems_exposed {items : List Json} {systemParts after : List String} {messages : List ChatMessage}
    (read : messagesFromItems decrypt items systemParts = .ok (messages,after))
    (speaks : ∃ item ∈ allItems decrypt items, speaksTool item = true) : ∃ message ∈ messages, Unanchored message := by
  refine messagesFromItems_levels (fun items _ messages _ =>
    (∃ item ∈ allItems decrypt items, speaksTool item = true) → ∃ message ∈ messages, Unanchored message) ?_ read speaks
  intro inner exposes items systemParts r done speaks
  exact items_exposed exposes done speaks

def inputItems (decrypt : String → Decoded) : RequestInput → List Json
  | .text _ => []
  | .items items => allItems decrypt items

-- The prompt of an accepted input is anchored exactly where no item speaks for a tool.
theorem messagesFromInput_anchored {input : RequestInput} {instructions : Option String} {messages : List ChatMessage}
    (read : messagesFromInput decrypt input instructions = .ok messages) :
    Anchored messages ↔ ∀ item ∈ inputItems decrypt input, speaksTool item = false := by
  unfold messagesFromInput at read
  obtain ⟨⟨rest,texts⟩,inside,same⟩ := bind_ok.mp read
  have led : messages = rest ∨ messages = systemMessage texts :: rest := by
    cases same
    split
    · exact .inl rfl
    · exact .inr rfl
  constructor
  · intro anchored item member
    cases loud : speaksTool item with
    | false => rfl
    | true =>
        cases input with
        | text text => cases member
        | items items =>
            obtain ⟨message,there,tool,bare⟩ := messagesFromItems_exposed inside ⟨item,member,loud⟩
            have present : message ∈ messages := by
              rcases led with rfl | rfl
              · exact there
              · exact List.mem_cons_of_mem _ there
            exact absurd bare (anchored_member anchored present tool)
  · intro silent
    have anchored : Anchored rest := by
      cases input with
      | text text =>
          cases inside
          exact ⟨fun tool => absurd tool (role_apart rfl (by decide)),trivial⟩
      | items items => exact messagesFromItems_anchored inside silent
    rcases led with rfl | rfl
    · exact anchored
    · exact ⟨fun tool => absurd tool (role_apart rfl (by decide)),anchored_grows anchored nofun⟩

-- An output whose call no earlier item of its list made.
def Orphan (before : List Json) (item : Json) : Prop :=
  item.get "type" = .str "function_call_output" ∧
    ∀ call ∈ before, call.get "type" = .str "function_call" → ¬∃ id, member (calledId call) = .ok id ∧ member (item.get "call_id") = .ok id

-- A call id that cannot be asked for in a set, of an output whose content is read first.
def Unhashable (item : Json) : Prop :=
  (item.get "call_id").truthy = true ∧ (∃ content, textOf (item.get "output") = .ok content) ∧
    member (item.get "call_id") = .error .crashed

theorem member_crashes {id : Json} {refusal : Refusal} (refused : member id = .error refusal) : refusal = .crashed := by
  unfold member at refused
  split at refused <;> cases refused <;> rfl

theorem textOf_refuses {content : Json} {refusal : Refusal} (refused : textOf content = .error refusal) : refusal ≠ .crashed := by
  unfold textOf at refused
  split at refused
  · cases refused
  · cases refused
  · cases refused
  · cases refused
    nofun

-- Every id seen is that of a call read before.
theorem item_sees {r after : Reading} {item : Json} (read : ItemRead decrypt inner r item after) :
    ∀ id ∈ after.seenCallIds, id ∈ r.seenCallIds ∨ item.get "type" = .str "function_call" ∧ member (calledId item) = .ok id := by
  intro id known
  cases read with
  | call name seen reasoning typed found =>
      rcases List.mem_cons.mp known with same | earlier
      · rw [same]
        exact .inr ⟨typed,found⟩
      · exact .inl earlier
  | pair callId name reasoning content plain single => exact .inl known
  | skip carried plain single => exact .inl known
  | output callId seen content plain single found there => exact .inl known
  | expand messages systemParts plain flat read => exact .inl known
  | tell spoken level => exact .inl known
  | say content reasoning spoken level => exact .inl known

theorem items_see {items : List Json} {r after : Reading} (read : items.foldlM (readItem decrypt inner) r = .ok after) :
    ∀ id ∈ after.seenCallIds, id ∈ r.seenCallIds ∨
      ∃ item ∈ items, item.get "type" = .str "function_call" ∧ member (calledId item) = .ok id := by
  refine foldlM_traced (fun before s => ∀ id ∈ s.seenCallIds, id ∈ r.seenCallIds ∨
    ∃ item ∈ before, item.get "type" = .str "function_call" ∧ member (calledId item) = .ok id) ?_ (fun _ known => .inl known) read
  intro before item s t traced here id known
  rcases item_sees (readItem_read here) id known with earlier | made
  · rcases traced id earlier with first | ⟨call,member,made⟩
    · exact .inl first
    · exact .inr ⟨call,List.mem_append_left _ member,made⟩
  · exact .inr ⟨item,List.mem_append_right _ List.mem_cons_self,made⟩

-- An orphan is refused: with an error of its own, or where its id cannot be looked up by a crash.
theorem output_refused {r : Reading} {item : Json} (unseen : ∀ id ∈ r.seenCallIds, member (item.get "call_id") ≠ .ok id) :
    ∃ refusal, r.functionCallOutput item = .error refusal ∧ (refusal = .crashed ↔ Unhashable item) := by
  unfold Reading.functionCallOutput
  dsimp only
  cases given : (item.get "call_id").truthy with
  | false =>
      refine ⟨_,rfl,nofun,?_⟩
      intro unhashable
      rw [unhashable.1] at given
      cases given
  | true =>
      cases content : textOf (item.get "output") with
      | error refusal =>
          refine ⟨refusal,rfl,fun crashed => absurd crashed (textOf_refuses content),?_⟩
          intro unhashable
          obtain ⟨text,read⟩ := unhashable.2.1
          rw [content] at read
          cases read
      | ok text =>
          cases found : member (item.get "call_id") with
          | error refusal =>
              have crashed := member_crashes found
              exact ⟨refusal,rfl,fun _ => ⟨given,⟨text,content⟩,crashed ▸ found⟩,fun _ => crashed⟩
          | ok id =>
              have absent : r.seenCallIds.contains id = false := by
                rw [List.contains_eq_mem,decide_eq_false_iff_not]
                exact fun known => unseen id known found
              refine ⟨.unsupported ("function_call_output references unknown call_id " ++ shown (item.get "call_id") ++
                " (no matching function_call)."),?_,nofun,?_⟩
              · simp only [bind,Except.bind,absent]
                rfl
              · intro unhashable
                rw [unhashable.2.2] at found
                cases found

theorem orphan_refused {r : Reading} {item : Json} (typed : item.get "type" = .str "function_call_output")
    (unseen : ∀ id ∈ r.seenCallIds, member (item.get "call_id") ≠ .ok id) :
    ∃ refusal, readItem decrypt inner r item = .error refusal ∧ (refusal = .crashed ↔ Unhashable item) := by
  cases item with
  | obj fields =>
      unfold readItem
      dsimp only
      rw [typed]
      exact output_refused unseen
  | _ => cases typed

-- A list that reading comes to an orphan of, on either level.
theorem readItems_orphan {before after : List Json} {item : Json} {systemParts : List String} {r : Reading}
    (read : before.foldlM (readItem decrypt inner) ⟨[],[],none,systemParts⟩ = .ok r) (orphan : Orphan before item) :
    ∃ refusal, readItems decrypt inner (before ++ item :: after) systemParts = .error refusal ∧
      (refusal = .crashed ↔ Unhashable item) := by
  obtain ⟨typed,unmade⟩ := orphan
  have unseen : ∀ id ∈ r.seenCallIds, member (item.get "call_id") ≠ .ok id := by
    intro id known found
    rcases items_see read id known with none_ | ⟨call,there,made,same⟩
    · cases none_
    · exact unmade call there made ⟨id,same,found⟩
  obtain ⟨refusal,refused,crashed⟩ := @orphan_refused decrypt inner r item typed unseen
  refine ⟨refusal,?_,crashed⟩
  unfold readItems
  rw [List.foldlM_append,read]
  show ((item :: after).foldlM (readItem decrypt inner) r >>= _) = _
  rw [List.foldlM_cons,refused]
  rfl

end

-- An accepted prompt is anchored unless an item speaks for a tool; an orphaned output is refused, with the error
-- for it unless its id is not one to look up.
theorem tool_results_anchored (decrypt : String → Decoded) :
    (∀ input instructions messages, messagesFromInput decrypt input instructions = .ok messages →
      (Anchored messages ↔ ∀ item ∈ inputItems decrypt input, speaksTool item = false)) ∧
    (∀ inner before item after systemParts r, before.foldlM (readItem decrypt inner) ⟨[],[],none,systemParts⟩ = .ok r →
      Orphan before item → ∃ refusal, readItems decrypt inner (before ++ item :: after) systemParts = .error refusal ∧
        ((∃ message, refusal = .unsupported message) ↔ ¬Unhashable item)) := by
  constructor
  · intro input instructions messages read
    exact messagesFromInput_anchored read
  · intro inner before item after systemParts r read orphan
    obtain ⟨refusal,refused,crashed⟩ := @readItems_orphan decrypt inner before after item systemParts r read orphan
    refine ⟨refusal,refused,?_⟩
    rw [← crashed]
    cases refusal with
    | unsupported message => exact ⟨fun _ => nofun,fun _ => ⟨message,rfl⟩⟩
    | crashed => exact ⟨nofun,fun apart => absurd rfl apart⟩

def callItem (id : String) : Json := .obj [("type",.str "function_call"),("call_id",.str id),("name",.str "search")]
def outputItem (id : Json) : Json := .obj [("type",.str "function_call_output"),("call_id",id),("output",.str "found")]
def toolItem : Json := .obj [("type",.str "message"),("role",.str "tool"),("content",.str "found")]

theorem tool_results_anchored_pair : ∃ messages,
    messagesFromInput (fun _ => .invalidToken) (.items [callItem "c1",outputItem (.str "c1")]) none = .ok messages ∧ Anchored messages := by
  have run : (messagesFromInput (fun _ => .invalidToken) (.items [callItem "c1",outputItem (.str "c1")]) none).isOk = true := by
    decide +kernel
  cases read : messagesFromInput (fun _ => .invalidToken) (.items [callItem "c1",outputItem (.str "c1")]) none with
  | error refusal =>
      rw [read] at run
      cases run
  | ok messages =>
      refine ⟨messages,rfl,((tool_results_anchored fun _ => .invalidToken).1 _ _ _ read).mpr ?_⟩
      decide +kernel

-- A message of the tool's comes without an id.
theorem tool_message_unanchored : ¬∀ (input : RequestInput) (messages : List ChatMessage),
    messagesFromInput (fun _ => .invalidToken) input none = .ok messages → Anchored messages := by
  intro every
  have run : messagesFromInput (fun _ => .invalidToken) (.items [toolItem]) none =
      .ok [⟨.str "tool",.str "found",[],none,none⟩] := by decide +kernel
  obtain ⟨id,given,_⟩ := (every _ _ run).1 rfl
  cases given

end Modelship.Responses

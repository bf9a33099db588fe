import Modelship.OpenAI.Adapter

namespace Modelship.Responses
open Foundation

structure ToolCall where
  id : String
  name : String
  arguments : String
  deriving DecidableEq

structure ParsedChatOutput where
  content : Option String
  reasoning : Option String
  toolCalls : List ToolCall

-- Reasoning, then the message, then one item for each call; `minted` ids were drawn before.
def buildResponsesItemsFromParsed (uuids : Uuids) (minted : Nat) (parsed : ParsedChatOutput) : List Item :=
  let thoughts := (nonempty parsed.reasoning).toList
  let texts := (nonempty parsed.content).toList
  thoughts.map (fun text => .reasoning ("rs_" ++ uuids.draw minted) [text]) ++
  texts.map (fun text => .message ("msg_" ++ uuids.draw (minted + thoughts.length)) .completed [text]) ++
  parsed.toolCalls.mapIdx fun number call =>
    .functionCall ("fc_" ++ uuids.draw (minted + thoughts.length + texts.length + number)) call.id call.name
      call.arguments .completed

-- The output list of the event that ends a stream.
def Translator.output (t : Translator) : List Item :=
  match t.out.getLast? with
  | some (_,.envelope _ response) => response.output
  | _ => []

def ChatMessage.bare (message : ChatMessage) : ChatMessage := {message with reasoning := none}

def said (text : String) : ChatMessage := ⟨.str "assistant",.str text,[],none,none⟩

def called (id name arguments : String) : ChatMessage :=
  ⟨.str "assistant",.null,[⟨.str id,.str name,.str arguments⟩],none,none⟩

-- What an item of a loader's output has to say to the turns after it.
def Item.told : Item → List ChatMessage
  | .message _ _ content => [said (String.join content)]
  | .functionCall _ callId name arguments _ => [called callId name arguments]
  | _ => []

section
variable (decrypt : String → Decoded)

-- `output`, stored behind the items it answers, is read with them: the same
-- messages as before, then those that carry its texts and calls.
def Continued (items : List Json) (systemParts : List String) (output : List Item) : Prop :=
  ∃ messages after longer, messagesFromItems decrypt items systemParts = .ok (messages,after) ∧
    messagesFromItems decrypt (items ++ output.map Item.dump) systemParts = .ok (longer,after) ∧
    longer.map ChatMessage.bare = messages.map ChatMessage.bare ++ output.flatMap Item.told

end

-- An item that a loader writes, its own id minted.
def Item.Loaded : Item → Prop
  | .reasoning _ _ | .message _ _ _ => True
  | .functionCall id _ _ _ _ => id ≠ ""
  | _ => False

def Item.Named : Item → Prop
  | .functionCall _ _ name _ _ => name ≠ ""
  | _ => True

def Item.Identified : Item → Prop
  | .functionCall _ callId _ _ _ => callId ≠ ""
  | _ => True

-- What the reader makes of it: a call without a call id goes by the item's own.
def Item.read : Item → List ChatMessage
  | .functionCall id callId name arguments _ => [called (if callId = "" then id else callId) name arguments]
  | item => item.told

theorem text_parts (texts : List String) :
    (texts.map fun text => Json.obj [("type",.str "output_text"),("text",.str text),("annotations",.arr [])]).mapM
        partToChat =
      .ok (texts.map fun text => Json.obj [("type",.str "text"),("text",.str text)]) := by
  induction texts with
  | nil => rfl
  | cons text rest ih =>
      rw [List.map_cons,List.mapM_cons,ih]
      simp [partToChat,Json.get,Json.find?,Json.fields,bind,Except.bind,pure,Except.pure]

theorem text_joined (texts : List String) :
    (texts.map fun text => Json.obj [("type",.str "text"),("text",.str text)]).mapM joined = .ok texts := by
  induction texts with
  | nil => rfl
  | cons text rest ih =>
      rw [List.map_cons,List.mapM_cons,ih]
      simp [joined,Json.get,Json.find?,Json.fields,bind,Except.bind,pure,Except.pure]

theorem content_texts (texts : List String) :
    contentToChat (.arr (texts.map fun text =>
        .obj [("type",.str "output_text"),("text",.str text),("annotations",.arr [])])) =
      .ok (.str (String.join texts)) := by
  have typed : (texts.map fun text => Json.obj [("type",.str "text"),("text",.str text)]).all
      (fun part => part.get "type" = .str "text") = true := by
    simp [Json.get,Json.find?,Json.fields]
  simp only [contentToChat,text_parts,bind,Except.bind,typed,if_true,text_joined]
  rfl

section
variable (decrypt : String → Decoded) (inner : Reader)

-- One item of a loader's output, read.
theorem reads_item {item : Item} (loaded : item.Loaded) (named : item.Named) (r : Reading) :
    ∃ after, readItem decrypt inner r item.dump = .ok after ∧ after.systemParts = r.systemParts ∧
      after.messages.map ChatMessage.bare = r.messages.map ChatMessage.bare ++ item.read := by
  cases item with
  | reasoning id summary =>
      refine ⟨_,rfl,rfl,?_⟩
      simp [Item.read,Item.told]
  | message id status content =>
      refine ⟨{r with carried := none}.say ⟨.str "assistant",.str (String.join content),[],none,r.carried⟩,?_,rfl,?_⟩
      · simp [readItem,Item.dump,Json.get,Json.find?,Json.fields,Reading.message,content_texts,bind,Except.bind,
          pure,Except.pure]
      · simp [Reading.say,Item.read,Item.told,said,ChatMessage.bare]
  | functionCall id callId name arguments status =>
      simp only [Item.Loaded,Item.Named] at loaded named
      refine ⟨({r with carried := none,seenCallIds := .str (if callId = "" then id else callId) :: r.seenCallIds}.say
        ⟨.str "assistant",.null,[⟨.str (if callId = "" then id else callId),.str name,.str arguments⟩],none,r.carried⟩),
        ?_,rfl,?_⟩
      · by_cases anonymous : callId = ""
        · simp [readItem,Item.dump,Json.get,Json.find?,Json.fields,Reading.functionCall,Json.truthy,anonymous,loaded,
            named,member,Reading.calls,bind,Except.bind,pure,Except.pure]
        · simp [readItem,Item.dump,Json.get,Json.find?,Json.fields,Reading.functionCall,Json.truthy,anonymous,
            named,member,Reading.calls,bind,Except.bind,pure,Except.pure]
      · simp [Reading.say,Item.read,called,ChatMessage.bare]
  | mcpListTools => cases loaded
  | mcpCall => cases loaded
  | mcpApprovalRequest => cases loaded

-- A call without a name is refused wherever it stands.
theorem refuses_item {item : Item} (unnamed : ¬item.Named) (r : Reading) :
    ∃ refusal, readItem decrypt inner r item.dump = .error refusal := by
  cases item with
  | functionCall id callId name arguments status =>
      have empty : name = "" := by simpa [Item.Named] using unnamed
      subst name
      refine ⟨.unsupported "function_call input items require both 'call_id' (or 'id') and 'name'.",?_⟩
      simp [readItem,Item.dump,Json.get,Json.find?,Json.fields,Reading.functionCall,Json.truthy,throw,throwThe,
        MonadExceptOf.throw,bind,Except.bind]
  | _ => exact absurd trivial unnamed

theorem reads_items {output : List Item} (loaded : ∀ item ∈ output, item.Loaded)
    (named : ∀ item ∈ output, item.Named) (r : Reading) :
    ∃ after, (output.map Item.dump).foldlM (readItem decrypt inner) r = .ok after ∧
      after.systemParts = r.systemParts ∧
      after.messages.map ChatMessage.bare = r.messages.map ChatMessage.bare ++ output.flatMap Item.read := by
  induction output generalizing r with
  | nil => exact ⟨r,rfl,rfl,by simp⟩
  | cons item rest ih =>
      obtain ⟨next,taken,sameParts,grown⟩ :=
        reads_item decrypt inner (loaded item List.mem_cons_self) (named item List.mem_cons_self) r
      obtain ⟨after,others,restParts,all⟩ := ih (fun other there => loaded other (List.mem_cons_of_mem _ there))
        (fun other there => named other (List.mem_cons_of_mem _ there)) next
      refine ⟨after,?_,restParts.trans sameParts,?_⟩
      · rw [List.map_cons,List.foldlM_cons,taken]
        exact others
      · rw [all,grown,List.append_assoc,List.flatMap_cons]

theorem read_items_named {output : List Item} {r after : Reading}
    (read : (output.map Item.dump).foldlM (readItem decrypt inner) r = .ok after) : ∀ item ∈ output, item.Named := by
  induction output generalizing r with
  | nil => intro item there; cases there
  | cons head rest ih =>
      rw [List.map_cons,List.foldlM_cons] at read
      obtain ⟨next,taken,others⟩ := bind_ok.mp read
      have first : head.Named := by
        by_contra unnamed
        obtain ⟨refusal,refused⟩ := refuses_item decrypt inner unnamed r
        rw [refused] at taken
        cases taken
      intro item there
      rcases List.mem_cons.mp there with rfl | later
      · exact first
      · exact ih others item later

end

theorem read_length (item : Item) : item.read.length = item.told.length := by
  cases item <;> rfl

-- The reader's messages are the ones the items stand for exactly where every call has its id.
theorem read_told {output : List Item} (loaded : ∀ item ∈ output, item.Loaded) :
    output.flatMap Item.read = output.flatMap Item.told ↔ ∀ item ∈ output, item.Identified := by
  have one : ∀ item : Item, item.Loaded → (item.read = item.told ↔ item.Identified) := by
    intro item loaded
    cases item with
    | functionCall id callId name arguments status =>
        by_cases anonymous : callId = ""
        · have minted : id ≠ "" := loaded
          simp [Item.read,Item.told,Item.Identified,called,anonymous,minted]
        · simp [Item.read,Item.told,Item.Identified,anonymous]
    | _ => exact iff_of_true rfl trivial
  induction output with
  | nil => simp
  | cons head rest ih =>
      have later := ih fun item there => loaded item (List.mem_cons_of_mem _ there)
      have first := one head (loaded head List.mem_cons_self)
      rw [List.flatMap_cons,List.flatMap_cons,List.forall_mem_cons,← first]
      refine Iff.trans ?_ (and_congr_right fun _ => later)
      constructor
      · intro same
        exact List.append_inj same (read_length head)
      · rintro ⟨first,others⟩
        rw [first,others]

section
variable {decrypt : String → Decoded} {items : List Json} {systemParts : List String}

theorem readItems_append (inner : Reader) (items more : List Json) (systemParts : List String)
    {result : List ChatMessage × List String} :
    readItems decrypt inner (items ++ more) systemParts = .ok result ↔
      ∃ r after, items.foldlM (readItem decrypt inner) ⟨[],[],none,systemParts⟩ = .ok r ∧
        more.foldlM (readItem decrypt inner) r = .ok after ∧ result = (after.messages,after.systemParts) := by
  unfold readItems
  rw [List.foldlM_append,bind_ok]
  constructor
  · rintro ⟨after,both,told⟩
    cases told
    obtain ⟨r,first,second⟩ := bind_ok.mp both
    exact ⟨r,after,first,second,rfl⟩
  · rintro ⟨r,after,first,second,rfl⟩
    exact ⟨after,bind_ok.mpr ⟨r,first,second⟩,rfl⟩

-- For every list that is accepted, whether the next turn can go on from it
-- depends only on the calls of the output.
theorem continued_iff {output : List Item} (loaded : ∀ item ∈ output, item.Loaded)
    {accepted : List ChatMessage × List String} (read : messagesFromItems decrypt items systemParts = .ok accepted) :
    Continued decrypt items systemParts output ↔ ∀ item ∈ output, item.Named ∧ item.Identified := by
  obtain ⟨r,first,told⟩ := bind_ok.mp read
  cases told
  constructor
  · rintro ⟨messages,after,longer,before,whole,grown⟩
    cases read.symm.trans before
    obtain ⟨s,later,firstAgain,rest,same⟩ := (readItems_append _ _ _ _).mp whole
    cases first.symm.trans firstAgain
    obtain ⟨rfl,_⟩ := Prod.mk.inj same
    have named := read_items_named decrypt _ rest
    obtain ⟨final,restAgain,_,all⟩ := reads_items decrypt _ loaded named r
    cases rest.symm.trans restAgain
    have identified := (read_told loaded).mp (List.append_cancel_left (all.symm.trans grown))
    exact fun item there => ⟨named item there,identified item there⟩
  · intro complete
    obtain ⟨after,rest,parts,all⟩ := reads_items decrypt _ loaded (fun item there => (complete item there).1) r
    refine ⟨r.messages,r.systemParts,after.messages,read,?_,?_⟩
    · exact (readItems_append _ _ _ _).mpr ⟨r,after,first,rest,by rw [parts]⟩
    · rw [all,(read_told loaded).mpr fun item there => (complete item there).2]

end

-- The deltas of tool calls in a stream, in order.
def Chunk.calls (chunk : Chunk) : List DeltaToolCall := chunk.choices.flatMap (·.delta.toolCalls)

-- Each tool index of the stream gets its function name in one of its deltas.
def AllNamed (calls : List DeltaToolCall) : Prop :=
  ∀ call ∈ calls, ∃ naming ∈ calls, naming.index = call.index ∧ naming.name.getD "" ≠ ""

-- An open call after one more delta of its index.
structure Fed (call : DeltaToolCall) (before : Option OpenTool) (tool : OpenTool) : Prop where
  opens : before = none → tool.name = call.name.getD "" ∧ tool.id ≠ "" ∧ tool.callId ≠ ""
  keeps : ∀ old, before = some old → tool.id = old.id ∧ tool.callId = old.callId ∧
    tool.name = if old.name = "" then call.name.getD "" else old.name

theorem nonempty_some {text : Option String} {value : String} (given : nonempty text = some value) :
    value ≠ "" ∧ text = some value := by
  unfold nonempty at given
  split at given
  · cases given
  · rename_i plain
    exact ⟨fun empty => plain (given.trans (congrArg some empty)),given⟩

theorem nonempty_none {text : Option String} (absent : nonempty text = none) : text.getD "" = "" := by
  unfold nonempty at absent
  split at absent
  · rfl
  · rw [absent]
    rfl

namespace Translator
section
variable (uuids : Uuids)

theorem openTool_fed (t : Translator) (call : DeltaToolCall) :
    Fed call (t.tools.get? call.index) (t.openTool uuids call).2 ∧
      ∀ key, (t.openTool uuids call).1.tools.get? key =
        if call.index = key then some (t.openTool uuids call).2 else t.tools.get? key := by
  unfold openTool
  split
  · rename_i absent
    rw [absent]
    have minted : ∀ number, "fc_" ++ uuids.draw number ≠ "" := by
      intro number
      simp
    cases given : nonempty call.id with
    | some id =>
        refine ⟨⟨fun _ => ⟨rfl,minted _,(nonempty_some given).1⟩,?_⟩,by simp [event]⟩
        intro _ other
        cases other
    | none =>
        have called : "call_" ++ uuids.draw t.minted ≠ "" := by simp
        refine ⟨⟨fun _ => ⟨rfl,minted _,called⟩,?_⟩,by simp [event]⟩
        intro _ other
        cases other
  · rename_i old found
    have unchanged : ∀ key, t.tools.get? key = if call.index = key then some old else t.tools.get? key := by
      intro key
      split
      · rename_i same
        rw [← same,found]
      · rfl
    rw [found]
    cases given : nonempty call.name with
    | some name =>
        have brought : call.name.getD "" = name := by rw [(nonempty_some given).2]; rfl
        by_cases unnamed : old.name = ""
        · simp only [unnamed,if_true]
          refine ⟨⟨fun absent => absurd absent (Option.some_ne_none _),?_⟩,by simp⟩
          rintro _ ⟨⟩
          exact ⟨rfl,rfl,by rw [if_pos unnamed,brought]⟩
        · simp only [unnamed,if_false]
          refine ⟨⟨fun absent => absurd absent (Option.some_ne_none _),?_⟩,unchanged⟩
          rintro _ ⟨⟩
          exact ⟨rfl,rfl,by rw [if_neg unnamed]⟩
    | none =>
        refine ⟨⟨fun absent => absurd absent (Option.some_ne_none _),?_⟩,unchanged⟩
        rintro _ ⟨⟩
        refine ⟨rfl,rfl,?_⟩
        rw [nonempty_none given]
        by_cases unnamed : old.name = "" <;> simp [unnamed]

theorem onToolCall_fed (t : Translator) (call : DeltaToolCall) :
    ∃ tool, Fed call (t.tools.get? call.index) tool ∧
      ∀ key, (t.onToolCall uuids call).tools.get? key = if call.index = key then some tool else t.tools.get? key := by
  obtain ⟨fed,opened⟩ := t.openTool_fed uuids call
  unfold onToolCall
  cases nonempty call.arguments with
  | none => exact ⟨_,fed,opened⟩
  | some text =>
      refine ⟨{(t.openTool uuids call).2 with
        arguments := (t.openTool uuids call).2.arguments ++ text},⟨fed.opens,fed.keeps⟩,?_⟩
      intro key
      simp only [event,Dict.get_set,opened]
      by_cases same : call.index = key <;> simp [same]

theorem onReasoning_tools (t : Translator) (text : String) : (t.onReasoning uuids text).tools = t.tools := by
  unfold onReasoning
  split <;> rfl

theorem onContent_tools (t : Translator) (text : String) : (t.onContent uuids text).tools = t.tools := by
  unfold onContent
  split <;> rfl

end
end Translator

-- The open calls against the deltas so far.
structure Tracks (calls : List DeltaToolCall) (tools : Dict Int OpenTool) : Prop where
  opened : ∀ call ∈ calls, ∃ tool, tools.get? call.index = some tool
  identified : ∀ key tool, tools.get? key = some tool → tool.id ≠ "" ∧ tool.callId ≠ ""
  known : ∀ key tool, tools.get? key = some tool → ∃ call ∈ calls, call.index = key
  named : ∀ key tool, tools.get? key = some tool →
    (tool.name ≠ "" ↔ ∃ call ∈ calls, call.index = key ∧ call.name.getD "" ≠ "")

section
variable {calls : List DeltaToolCall} {tools after : Dict Int OpenTool}

theorem Tracks.step (tracks : Tracks calls tools) {call : DeltaToolCall} {tool : OpenTool}
    (fed : Fed call (tools.get? call.index) tool)
    (grown : ∀ key, after.get? key = if call.index = key then some tool else tools.get? key) :
    Tracks (calls ++ [call]) after := by
  have elsewhere : ∀ {key found}, after.get? key = some found →
      (call.index = key ∧ found = tool) ∨ (call.index ≠ key ∧ tools.get? key = some found) := by
    intro key found present
    rw [grown] at present
    by_cases same : call.index = key
    · rw [if_pos same] at present
      cases present
      exact .inl ⟨same,rfl⟩
    · rw [if_neg same] at present
      exact .inr ⟨same,present⟩
  constructor
  · intro other there
    rw [grown]
    split
    · exact ⟨tool,rfl⟩
    · rename_i apart
      rcases List.mem_append.mp there with before | last
      · exact tracks.opened other before
      · exact absurd (congrArg _ (List.mem_singleton.mp last)).symm apart
  · intro key found present
    rcases elsewhere present with ⟨rfl,rfl⟩ | ⟨_,before⟩
    · cases old : tools.get? call.index with
      | none => exact (fed.opens old).2
      | some tool =>
          obtain ⟨id,callId,_⟩ := fed.keeps tool old
          rw [id,callId]
          exact tracks.identified _ _ old
    · exact tracks.identified _ _ before
  · intro key found present
    rcases elsewhere present with ⟨rfl,rfl⟩ | ⟨_,before⟩
    · exact ⟨call,by simp,rfl⟩
    · obtain ⟨earlier,there,same⟩ := tracks.known _ _ before
      exact ⟨earlier,List.mem_append_left _ there,same⟩
  · intro key found present
    rcases elsewhere present with ⟨rfl,rfl⟩ | ⟨apart,before⟩
    · cases old : tools.get? call.index with
      | none =>
          rw [(fed.opens old).1]
          constructor
          · intro brought
            exact ⟨call,by simp,rfl,brought⟩
          · rintro ⟨other,there,same,brought⟩
            rcases List.mem_append.mp there with before | last
            · obtain ⟨tool,opened⟩ := tracks.opened other before
              rw [same,old] at opened
              cases opened
            · rw [List.mem_singleton.mp last] at brought
              exact brought
      | some tool =>
          have so_far := tracks.named _ _ old
          rw [(fed.keeps tool old).2.2]
          split
          · rename_i unnamed
            constructor
            · intro brought
              exact ⟨call,by simp,rfl,brought⟩
            · rintro ⟨other,there,same,brought⟩
              rcases List.mem_append.mp there with before | last
              · exact absurd unnamed (so_far.mpr ⟨other,before,same,brought⟩)
              · rw [List.mem_singleton.mp last] at brought
                exact brought
          · rename_i named
            refine iff_of_true named ?_
            obtain ⟨other,there,same,brought⟩ := so_far.mp named
            exact ⟨other,List.mem_append_left _ there,same,brought⟩
    · rw [tracks.named _ _ before]
      constructor
      · rintro ⟨other,there,same,brought⟩
        exact ⟨other,List.mem_append_left _ there,same,brought⟩
      · rintro ⟨other,there,same,brought⟩
        rcases List.mem_append.mp there with before | last
        · exact ⟨other,before,same,brought⟩
        · rw [List.mem_singleton.mp last] at same
          exact absurd same apart

end

section
variable (uuids : Uuids)

theorem Tracks.onChoice {calls : List DeltaToolCall} {t : Translator} (tracks : Tracks calls t.tools) (choice : Choice) :
    Tracks (calls ++ choice.delta.toolCalls) (t.onChoice uuids choice).tools := by
  have fold : ∀ (more calls : List DeltaToolCall) (t : Translator), Tracks calls t.tools →
      Tracks (calls ++ more) (more.foldl (fun t call => t.onToolCall uuids call) t).tools := by
    intro more
    induction more with
    | nil => intro calls t tracks; simpa using tracks
    | cons call rest ih =>
        intro calls t tracks
        obtain ⟨tool,fed,grown⟩ := t.onToolCall_fed uuids call
        have stepped := ih (calls ++ [call]) _ (tracks.step fed grown)
        rw [List.append_assoc] at stepped
        exact stepped
  unfold Translator.onChoice Translator.onDelta
  apply fold
  cases nonempty choice.delta.reasoning <;> cases nonempty choice.delta.content <;>
    simpa [Translator.onReasoning_tools,Translator.onContent_tools] using tracks

theorem Tracks.process {calls : List DeltaToolCall} {t : Translator} (tracks : Tracks calls t.tools) (chunk : Chunk) :
    Tracks (calls ++ chunk.calls) (t.process uuids chunk).tools := by
  have fold : ∀ (choices : List Choice) (calls : List DeltaToolCall) (t : Translator), Tracks calls t.tools →
      Tracks (calls ++ choices.flatMap (·.delta.toolCalls))
        (choices.foldl (fun t choice => t.onChoice uuids choice) t).tools := by
    intro choices
    induction choices with
    | nil => intro calls t tracks; simpa using tracks
    | cons choice rest ih =>
        intro calls t tracks
        have stepped := ih _ _ (tracks.onChoice uuids choice)
        rw [List.append_assoc] at stepped
        exact stepped
  exact fold chunk.choices calls _ tracks

theorem translate_tracks (responseId : String) (chunks : List Chunk) :
    Tracks (chunks.flatMap Chunk.calls) (Translator.translate uuids responseId chunks).tools := by
  have fold : ∀ (chunks : List Chunk) (calls : List DeltaToolCall) (t : Translator), Tracks calls t.tools →
      Tracks (calls ++ chunks.flatMap Chunk.calls) (chunks.foldl (fun t chunk => t.process uuids chunk) t).tools := by
    intro chunks
    induction chunks with
    | nil => intro calls t tracks; simpa using tracks
    | cons chunk rest ih =>
        intro calls t tracks
        have stepped := ih _ _ (tracks.process uuids chunk)
        rw [List.append_assoc] at stepped
        exact stepped
  have begins : Tracks [] (Translator.begin responseId).start.tools := by
    constructor
    · intro call there
      cases there
    all_goals
      intro key tool present
      cases present
  exact fold chunks [] _ begins

end

section
variable {t : Translator} {calls : List DeltaToolCall}

theorem mem_collectOutput {item : Item} (there : item ∈ t.collectOutput) :
    (∃ open_, item = Translator.closedReasoning open_) ∨ (∃ open_, item = Translator.closedMessage open_) ∨
      ∃ key tool, t.tools.get? key = some tool ∧ item = Translator.closedTool tool := by
  simp only [Translator.collectOutput,List.mem_append,List.mem_map] at there
  rcases there with (⟨open_,_,rfl⟩ | ⟨open_,_,rfl⟩) | ⟨tool,present,rfl⟩
  · exact .inl ⟨open_,rfl⟩
  · exact .inr (.inl ⟨open_,rfl⟩)
  · obtain ⟨key,entry⟩ := Translator.mem_sorted.mp present
    exact .inr (.inr ⟨key,tool,Dict.mem_get_some entry,rfl⟩)

theorem closedTool_collected {key : Int} {tool : OpenTool} (found : t.tools.get? key = some tool) :
    Translator.closedTool tool ∈ t.collectOutput := by
  have present := Translator.mem_sorted.mpr ⟨key,Dict.get_some_mem found⟩
  exact List.mem_append_right _ (List.mem_map_of_mem present)

theorem Tracks.loaded (tracks : Tracks calls t.tools) : ∀ item ∈ t.collectOutput, item.Loaded := by
  intro item there
  rcases mem_collectOutput there with ⟨open_,rfl⟩ | ⟨open_,rfl⟩ | ⟨key,tool,found,rfl⟩
  · trivial
  · trivial
  · exact (tracks.identified key tool found).1

theorem Tracks.complete (tracks : Tracks calls t.tools) :
    (∀ item ∈ t.collectOutput, item.Named ∧ item.Identified) ↔ AllNamed calls := by
  constructor
  · intro complete call there
    obtain ⟨tool,found⟩ := tracks.opened call there
    have named : tool.name ≠ "" := (complete _ (closedTool_collected found)).1
    exact (tracks.named _ tool found).mp named
  · intro named item there
    rcases mem_collectOutput there with ⟨open_,rfl⟩ | ⟨open_,rfl⟩ | ⟨key,tool,found,rfl⟩
    · exact ⟨trivial,trivial⟩
    · exact ⟨trivial,trivial⟩
    · obtain ⟨call,there,rfl⟩ := tracks.known key tool found
      exact ⟨(tracks.named _ tool found).mpr (named call there),(tracks.identified _ tool found).2⟩

end

-- The event that ends a stream, well or badly, lists every item.
theorem output_of {t ended : Translator} {events : List Event} {kind : Envelope} {response : Response}
    (listed : response.output = t.collectOutput) (out : ended.out.map (·.2) = events ++ [.envelope kind response]) :
    ended.output = t.collectOutput := by
  have last := congrArg List.getLast? out
  rw [List.getLast?_map,List.getLast?_append] at last
  unfold Translator.output
  cases final : ended.out.getLast? with
  | none => simp [final] at last
  | some entry =>
      obtain ⟨number,event⟩ := entry
      simp only [final,Option.map_some,List.getLast?_singleton,Option.some_or,Option.some.injEq] at last
      subst event
      exact listed

theorem finish_output (t : Translator) : t.finish.output = t.collectOutput := by
  obtain ⟨kind,response,_,listed,out⟩ := t.finish_events
  exact output_of listed out

theorem fail_output (t : Translator) (message code : String) : (t.fail message code).output = t.collectOutput := by
  obtain ⟨response,listed,out⟩ := t.fail_events message code
  exact output_of listed out

theorem built_loaded (uuids : Uuids) (minted : Nat) (parsed : ParsedChatOutput) :
    ∀ item ∈ buildResponsesItemsFromParsed uuids minted parsed, item.Loaded := by
  intro item there
  simp only [buildResponsesItemsFromParsed,List.mem_append,List.mem_map,List.mem_mapIdx] at there
  rcases there with (⟨text,_,rfl⟩ | ⟨text,_,rfl⟩) | ⟨number,_,rfl⟩
  · trivial
  · trivial
  · simp [Item.Loaded]

theorem built_complete (uuids : Uuids) (minted : Nat) (parsed : ParsedChatOutput) :
    (∀ item ∈ buildResponsesItemsFromParsed uuids minted parsed, item.Named ∧ item.Identified) ↔
      ∀ call ∈ parsed.toolCalls, call.name ≠ "" ∧ call.id ≠ "" := by
  simp only [buildResponsesItemsFromParsed,List.mem_append,List.mem_map,List.mem_mapIdx]
  constructor
  · intro complete call there
    obtain ⟨number,bound,rfl⟩ := List.getElem_of_mem there
    exact complete _ (.inr ⟨number,bound,rfl⟩)
  · rintro named item ((⟨text,_,rfl⟩ | ⟨text,_,rfl⟩) | ⟨number,bound,rfl⟩)
    · exact ⟨trivial,trivial⟩
    · exact ⟨trivial,trivial⟩
    · exact named _ (List.getElem_mem bound)

theorem stored_turn_continues (decrypt : String → Decoded) (uuids : Uuids) (items : List Json)
    (systemParts : List String) (accepted : List ChatMessage × List String)
    (read : messagesFromItems decrypt items systemParts = .ok accepted) :
    (∀ responseId chunks, let t := Translator.translate uuids responseId chunks
      (Continued decrypt items systemParts t.finish.output ↔ AllNamed (chunks.flatMap Chunk.calls)) ∧
      ∀ message code, (Continued decrypt items systemParts (t.fail message code).output ↔
        AllNamed (chunks.flatMap Chunk.calls))) ∧
    ∀ minted parsed, Continued decrypt items systemParts (buildResponsesItemsFromParsed uuids minted parsed) ↔
      ∀ call ∈ parsed.toolCalls, call.name ≠ "" ∧ call.id ≠ "" := by
  refine ⟨?_,?_⟩
  · intro responseId chunks t
    have tracks := translate_tracks uuids responseId chunks
    have collected : Continued decrypt items systemParts t.collectOutput ↔ AllNamed (chunks.flatMap Chunk.calls) :=
      (continued_iff tracks.loaded read).trans tracks.complete
    refine ⟨?_,?_⟩
    · rw [finish_output]
      exact collected
    · intro message code
      rw [fail_output]
      exact collected
  · intro minted parsed
    exact (continued_iff (built_loaded uuids minted parsed) read).trans (built_complete uuids minted parsed)

-- A question, and streams in which a call's name comes late or never.
def countedUuids : Uuids where
  draw number := String.ofList (List.replicate number 'u')
  distinct := by
    intro one two same
    simpa using congrArg String.length same

def question : List Json := [.obj [("role",.str "user"),("content",.str "where?")]]

def toolChunk (id name arguments : Option String) : Chunk := ⟨none,[⟨⟨none,none,[⟨0,id,name,arguments⟩]⟩,none⟩]⟩

theorem stored_turn_continues_named_late : ∃ accepted,
    messagesFromItems (fun _ => .invalidToken) question [] = .ok accepted ∧
    Continued (fun _ => .invalidToken) question []
      (Translator.translate countedUuids "resp"
        [toolChunk (some "call_1") none none,toolChunk none (some "search") (some "1")]).finish.output ∧
    Continued (fun _ => .invalidToken) question []
      (buildResponsesItemsFromParsed countedUuids 0 ⟨some "here",some "so",[⟨"call_1","search","1"⟩]⟩) := by
  have read : messagesFromItems (fun _ => .invalidToken) question [] =
      .ok ([⟨.str "user",.str "where?",[],none,none⟩],[]) := by decide +kernel
  obtain ⟨streamed,parsed⟩ := stored_turn_continues (fun _ => .invalidToken) countedUuids question [] _ read
  refine ⟨_,read,((streamed "resp" _).1).mpr ?_,(parsed 0 _).mpr ?_⟩
  · simp [AllNamed,Chunk.calls,toolChunk]
  · simp

-- A stream cut before the name leaves an item that no later turn can read.
theorem unnamed_call_is_refused :
    messagesFromItems (fun _ => .invalidToken) question [] = .ok ([⟨.str "user",.str "where?",[],none,none⟩],[]) ∧
    messagesFromItems (fun _ => .invalidToken)
      (question ++ ((Translator.translate countedUuids "resp" [toolChunk (some "call_1") none none]).finish.output.map
        Item.dump)) [] =
      .error (.unsupported "function_call input items require both 'call_id' (or 'id') and 'name'.") ∧
    ¬Continued (fun _ => .invalidToken) question []
      (Translator.translate countedUuids "resp" [toolChunk (some "call_1") none none]).finish.output := by
  have refused : messagesFromItems (fun _ => .invalidToken)
      (question ++ ((Translator.translate countedUuids "resp" [toolChunk (some "call_1") none none]).finish.output.map
        Item.dump)) [] =
      .error (.unsupported "function_call input items require both 'call_id' (or 'id') and 'name'.") := by
    decide +kernel
  refine ⟨by decide +kernel,refused,?_⟩
  rintro ⟨messages,after,longer,_,read,_⟩
  rw [refused] at read
  cases read

end Modelship.Responses

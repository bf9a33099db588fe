import Modelship.OpenAI.Brackets

namespace Modelship.Responses
open Foundation

-- All deltas of a stream, in order.
def deltasOf (chunks : List Chunk) : List Delta := chunks.flatMap fun chunk => chunk.choices.map (·.delta)

def toolIndices (calls : List DeltaToolCall) : List Int := (calls.map (·.index)).eraseDups.insertionSort (· ≤ ·)

-- The call that the deltas of one index make up.
def callAt (calls : List DeltaToolCall) (index : Int) : ToolCall :=
  let mine := calls.filter (·.index = index)
  ⟨(mine.head?.bind (·.id)).getD "",((mine.map (·.name.getD "")).find? (· ≠ "")).getD "",
    String.join (mine.map (·.arguments.getD ""))⟩

-- What the loader parses when the same answer comes in one piece.
def parsedOf (chunks : List Chunk) : ParsedChatOutput where
  content := some (String.join ((deltasOf chunks).map (·.content.getD "")))
  reasoning := some (String.join ((deltasOf chunks).map (·.reasoning.getD "")))
  toolCalls := (toolIndices (chunks.flatMap Chunk.calls)).map (callAt (chunks.flatMap Chunk.calls))

def finishReasonOf (chunks : List Chunk) : Option String :=
  (chunks.flatMap fun chunk => chunk.choices.flatMap (·.finishReason.toList)).getLast?

def usageOf (chunks : List Chunk) : Option Usage := (chunks.flatMap (·.usage.toList)).getLast?

-- An item up to its ids.
def Item.anonymous : Item → Item
  | .reasoning _ summary => .reasoning "" summary
  | .message _ status content => .message "" status content
  | .functionCall _ _ name arguments status => .functionCall "" "" name arguments status
  | .mcpListTools _ serverLabel tools error => .mcpListTools "" serverLabel tools error
  | .mcpCall _ name arguments serverLabel approvalRequestId error output status =>
    .mcpCall "" name arguments serverLabel approvalRequestId error output status
  | .mcpApprovalRequest _ name arguments serverLabel => .mcpApprovalRequest "" name arguments serverLabel

def buildResponseFromParsed (uuids : Uuids) (minted : Nat) (responseId : String) (parsed : ParsedChatOutput)
    (usage : Usage) (finishReason : Option String) : Response :=
  let (status,incomplete) := Translator.statusFor finishReason
  ⟨responseId,status,buildResponsesItemsFromParsed uuids minted parsed,some usage,incomplete,none⟩

def Response.anonymous (response : Response) : Response := {response with output := response.output.map Item.anonymous}

theorem pieces_deltas (chunks : List Chunk) : chunks.flatMap Chunk.pieces = (deltasOf chunks).flatMap Delta.pieces := by
  simp only [deltasOf,List.flatMap_assoc,List.flatMap_map]
  rfl

theorem calls_deltas (chunks : List Chunk) : chunks.flatMap Chunk.calls = (deltasOf chunks).flatMap (·.toolCalls) := by
  simp only [deltasOf,List.flatMap_assoc,List.flatMap_map]
  rfl

-- Leaving out the empty texts changes nothing in the whole.
theorem join_nonempty {Entry : Type} (entries : List Entry) (text : Entry → Option String) :
    String.join (entries.flatMap fun entry => (nonempty (text entry)).toList) =
      String.join (entries.map fun entry => (text entry).getD "") := by
  induction entries with
  | nil => rfl
  | cons entry rest ih =>
      have one : String.join (nonempty (text entry)).toList = (text entry).getD "" := by
        cases given : nonempty (text entry) with
        | none => simp [nonempty_none given]
        | some value => simp [(nonempty_some given).2]
      rw [List.flatMap_cons,String.join_append,ih,one,List.map_cons,String.join_cons]

section
variable (deltas : List Delta)

theorem heard_flatMap (channel : Channel) :
    heard channel (deltas.flatMap Delta.pieces) = deltas.flatMap fun delta => heard channel delta.pieces :=
  List.filterMap_flatMap ..

theorem heard_reasoning : String.join (heard .reasoning (deltas.flatMap Delta.pieces)) =
    String.join (deltas.map (·.reasoning.getD "")) := by
  have one : ∀ delta : Delta, heard .reasoning delta.pieces = (nonempty delta.reasoning).toList := by
    intro delta
    simp [heard,Delta.pieces,List.filterMap_append,List.filterMap_map,Piece.channel,Piece.said]
  rw [heard_flatMap,← join_nonempty]
  simp only [one]

theorem heard_content : String.join (heard .content (deltas.flatMap Delta.pieces)) =
    String.join (deltas.map (·.content.getD "")) := by
  have one : ∀ delta : Delta, heard .content delta.pieces = (nonempty delta.content).toList := by
    intro delta
    simp [heard,Delta.pieces,List.filterMap_append,List.filterMap_map,Piece.channel,Piece.said]
  rw [heard_flatMap,← join_nonempty]
  simp only [one]

-- On the channel of a tool index the pieces are the deltas of its calls.
theorem call_pieces (index : Int) : (deltas.flatMap Delta.pieces).filter (fun piece => piece.channel = .tool index) =
    ((deltas.flatMap (·.toolCalls)).filter (·.index = index)).map .call := by
  induction deltas with
  | nil => rfl
  | cons delta rest ih =>
      rw [List.flatMap_cons,List.filter_append,ih,List.flatMap_cons,List.filter_append,List.map_append]
      congr 1
      simp [Delta.pieces,List.filter_map,Function.comp_def,Piece.channel]

theorem heard_tool (index : Int) : String.join (heard (.tool index) (deltas.flatMap Delta.pieces)) =
    (callAt (deltas.flatMap (·.toolCalls)) index).arguments := by
  have mine : heard (.tool index) (deltas.flatMap Delta.pieces) =
      ((deltas.flatMap Delta.pieces).filter (fun piece => piece.channel = .tool index)).filterMap Piece.said := by
    unfold heard
    rw [List.filterMap_filter]
    simp
  rw [mine,call_pieces,List.filterMap_map,List.filterMap_eq_flatMap_toList]
  exact join_nonempty _ _

theorem naming_tool (index : Int) : naming (.tool index) (deltas.flatMap Delta.pieces) =
    (callAt (deltas.flatMap (·.toolCalls)) index).name := by
  unfold naming callAt
  rw [call_pieces,List.map_map]
  rfl

end

theorem join_full {texts : List String} {text : String} (there : text ∈ texts) (full : text ≠ "") :
    String.join texts ≠ "" := by
  intro empty
  have letters := congrArg String.toList empty
  rw [String.toList_join,String.toList_empty,List.flatMap_eq_nil_iff] at letters
  exact full (String.toList_eq_nil_iff.mp (letters text there))

theorem nonempty_full {text : String} (full : text ≠ "") : nonempty (some text) = some text := by
  unfold nonempty
  split
  · rename_i empty
    exact absurd (Option.some.inj empty) full
  · rfl

-- What is said on the two text channels is never empty.
theorem said_full {deltas : List Delta} {piece : Piece} (there : piece ∈ deltas.flatMap Delta.pieces)
    (spoken : ∀ index, piece.channel ≠ .tool index) : ∃ text, piece.said = some text ∧ text ≠ "" := by
  obtain ⟨delta,_,there⟩ := List.mem_flatMap.mp there
  simp only [Delta.pieces,List.mem_append,List.mem_map,Option.mem_toList] at there
  rcases there with (⟨text,given,rfl⟩ | ⟨text,given,rfl⟩) | ⟨call,_,rfl⟩
  · exact ⟨text,rfl,(nonempty_some given).1⟩
  · exact ⟨text,rfl,(nonempty_some given).1⟩
  · exact absurd rfl (spoken call.index)

theorem toolIndices_ordered (calls : List DeltaToolCall) : (toolIndices calls).Pairwise (· < ·) :=
  sorted_strictly (eraseDups_nodup _)

namespace Brackets
section
variable {uuids : Uuids} {deltas : List Delta} {t : Translator}

theorem text_view (brackets : Brackets uuids (deltas.flatMap Delta.pieces) t) {channel : Channel}
    (spoken : ∀ index, channel ≠ .tool index) : (t.view channel).map (·.arguments) =
      nonempty (some (String.join (heard channel (deltas.flatMap Delta.pieces)))) := by
  cases found : t.view channel with
  | none =>
      rw [(unheard _ (brackets.absent found)).1]
      rfl
  | some item =>
      have seen : channel ∈ firstSeen (deltas.flatMap Delta.pieces) := (brackets.seen channel).mp (by rw [found]; rfl)
      obtain ⟨piece,there,rfl⟩ := (mem_firstSeen _).mp seen
      obtain ⟨value,said,full⟩ := said_full there spoken
      have listed : value ∈ heard piece.channel (deltas.flatMap Delta.pieces) :=
        List.mem_filterMap.mpr ⟨piece,there,by rw [if_pos rfl,said]⟩
      rw [nonempty_full (join_full listed full),Option.map_some,(brackets.opened _ item found).heard]

theorem keys_indices (brackets : Brackets uuids (deltas.flatMap Delta.pieces) t) :
    t.keys = toolIndices (deltas.flatMap (·.toolCalls)) := by
  apply List.Pairwise.eq_of_mem_iff t.keys_ordered (toolIndices_ordered _)
  intro index
  have calls := call_pieces deltas index
  rw [t.mem_keys,brackets.seen,mem_firstSeen,toolIndices,List.mem_insertionSort,List.mem_eraseDups,List.mem_map]
  constructor
  · rintro ⟨piece,there,same⟩
    have mine : piece ∈ (deltas.flatMap Delta.pieces).filter fun piece => piece.channel = .tool index :=
      List.mem_filter.mpr ⟨there,by simpa using same⟩
    rw [calls] at mine
    obtain ⟨call,there,_⟩ := List.mem_map.mp mine
    obtain ⟨there,same⟩ := List.mem_filter.mp there
    exact ⟨call,there,by simpa using same⟩
  · rintro ⟨call,there,same⟩
    have mine : Piece.call call ∈ (deltas.flatMap Delta.pieces).filter fun piece => piece.channel = .tool index := by
      rw [calls]
      exact List.mem_map_of_mem (List.mem_filter.mpr ⟨there,by simpa using same⟩)
    obtain ⟨there,same⟩ := List.mem_filter.mp mine
    exact ⟨.call call,there,by simpa using same⟩

-- The items of the stream and those of the whole answer, up to their ids.
theorem shaped (brackets : Brackets uuids (deltas.flatMap Delta.pieces) t) (minted : Nat) :
    t.collectOutput.map Item.anonymous = (buildResponsesItemsFromParsed uuids minted
      ⟨some (String.join (deltas.map (·.content.getD ""))),some (String.join (deltas.map (·.reasoning.getD ""))),
        (toolIndices (deltas.flatMap (·.toolCalls))).map (callAt (deltas.flatMap (·.toolCalls)))⟩).map
        Item.anonymous := by
  have thought : (t.view .reasoning).map (·.arguments) =
      nonempty (some (String.join (deltas.map (·.reasoning.getD "")))) := by
    rw [← heard_reasoning]
    exact brackets.text_view nofun
  have said : (t.view .content).map (·.arguments) =
      nonempty (some (String.join (deltas.map (·.content.getD "")))) := by
    rw [← heard_content]
    exact brackets.text_view nofun
  have tools : (t.tools.entries.insertionSort fun one two => one.1 ≤ two.1).map (fun entry =>
        Item.functionCall "" "" entry.2.name entry.2.arguments .completed) =
      ((toolIndices (deltas.flatMap (·.toolCalls))).map (callAt (deltas.flatMap (·.toolCalls)))).map fun call =>
        .functionCall "" "" call.name call.arguments .completed := by
    rw [← brackets.keys_indices,← t.sorted_keys,List.map_map,List.map_map]
    apply List.map_congr_left
    intro entry there
    have found : t.view (.tool entry.1) = some entry.2 := Dict.mem_get_some ((List.mem_insertionSort _).mp there)
    have open_ := brackets.opened _ _ found
    simp only [Function.comp_apply]
    rw [← heard_tool,← naming_tool,open_.heard,open_.named]
  have built : ∀ calls : List ToolCall, ∀ number, (calls.mapIdx fun index call => Item.functionCall
      ("fc_" ++ uuids.draw (number + index)) call.id call.name call.arguments .completed).map Item.anonymous =
      calls.map fun call => .functionCall "" "" call.name call.arguments .completed := by
    intro calls number
    apply List.ext_getElem <;> simp [Item.anonymous]
  rw [t.collectOutput_open,Translator.openItems,buildResponsesItemsFromParsed,← thought,← said]
  simp only [List.map_append,built,← tools]
  cases t.view .reasoning <;> cases t.view .content <;> simp [Channel.ended,Item.anonymous]

end
end Brackets

namespace Translator
section
variable (uuids : Uuids)

-- What the terminal event tells besides the output.
def notes (t : Translator) : String × Option Usage × Option String := (t.responseId,t.usage,t.finishReason)

theorem onPiece_notes (t : Translator) (piece : Piece) : (t.onPiece uuids piece).notes = t.notes := by
  cases piece with
  | reasoning text => cases open_ : t.reasoning <;> simp [onPiece,onReasoning,open_,notes,event]
  | content text => cases open_ : t.message <;> simp [onPiece,onContent,open_,notes,event]
  | call call =>
      have opened : (t.openTool uuids call).1.notes = t.notes := by
        unfold openTool
        split
        · rfl
        · split
          · split <;> rfl
          · rfl
      change (t.onToolCall uuids call).notes = t.notes
      unfold onToolCall
      cases nonempty call.arguments with
      | none => exact opened
      | some text => exact opened

theorem onDelta_notes (t : Translator) (delta : Delta) : (t.onDelta uuids delta).notes = t.notes := by
  rw [onDelta_pieces]
  induction delta.pieces generalizing t with
  | nil => rfl
  | cons piece rest ih => exact (ih _).trans (t.onPiece_notes uuids piece)

theorem choices_notes (choices : List Choice) {reasons : List String} {t : Translator}
    (before : t.finishReason = reasons.getLast?) :
    (choices.foldl (fun t choice => t.onChoice uuids choice) t).notes =
      (t.responseId,t.usage,(reasons ++ choices.flatMap (·.finishReason.toList)).getLast?) := by
  have one : ∀ (reasons : List String) (now : Translator) (choice : Choice),
      now.notes = (t.responseId,t.usage,reasons.getLast?) →
      (now.onChoice uuids choice).notes = (t.responseId,t.usage,(reasons ++ choice.finishReason.toList).getLast?) := by
    intro reasons now choice same
    have kept := now.onDelta_notes uuids choice.delta
    rw [same] at kept
    simp only [notes,Prod.mk.injEq] at kept
    unfold onChoice notes
    simp only [kept,List.getLast?_append]
    cases choice.finishReason <;> rfl
  exact foldl_traced (fun choice : Choice => choice.finishReason.toList) one choices (by rw [notes,before])

theorem translate_notes (responseId : String) (chunks : List Chunk) :
    (translate uuids responseId chunks).notes = (responseId,usageOf chunks,finishReasonOf chunks) := by
  have one : ∀ (seen : List Chunk) (t : Translator) (chunk : Chunk),
      t.notes = (responseId,usageOf seen,finishReasonOf seen) →
      (t.process uuids chunk).notes = (responseId,usageOf (seen ++ [chunk]),finishReasonOf (seen ++ [chunk])) := by
    intro seen t chunk same
    obtain ⟨id,usage,reason⟩ : t.responseId = responseId ∧ t.usage = usageOf seen ∧ t.finishReason = finishReasonOf seen := by
      simpa only [notes,Prod.mk.injEq] using same
    have last : usageOf (seen ++ [chunk]) = chunk.usage.or (usageOf seen) := by
      cases told : chunk.usage <;> simp [usageOf,told]
    have reasons : finishReasonOf (seen ++ [chunk]) = (seen.flatMap (fun chunk => chunk.choices.flatMap
        (·.finishReason.toList)) ++ chunk.choices.flatMap (·.finishReason.toList)).getLast? := by
      simp [finishReasonOf]
    rw [last,reasons,← id,← usage]
    exact choices_notes (t := {t with usage := chunk.usage.or t.usage}) uuids chunk.choices reason
  have starts : (begin responseId).start.notes = (responseId,usageOf [],finishReasonOf []) := rfl
  have all := foldl_traced (fun chunk => [chunk]) one chunks starts
  rw [List.flatMap_singleton',List.nil_append] at all
  exact all

theorem closeAll_id (t : Translator) : t.closeAll.responseId = t.responseId := by
  have tools : ∀ (tools : List OpenTool) (t : Translator), (tools.foldl closeTool t).responseId = t.responseId := by
    intro tools
    induction tools with
    | nil => exact fun _ => rfl
    | cons tool rest ih => exact fun t => ih _
  unfold closeAll closeTools
  rw [tools]
  cases thought : t.reasoning <;> cases said : t.message <;> simp [closeReasoning,closeMessage,thought,said,event]

end
end Translator

-- The stream of an answer, ended or failed, is the answer as a whole in
-- brackets: numbered, each item between its own first and last event.
theorem stream_brackets_response (uuids : Uuids) (responseId : String) (chunks : List Chunk) (minted : Nat) :
    (∃ response : Response, response.Bracketed (Translator.translate uuids responseId chunks).finish.out ∧
      response.output.map Item.anonymous =
        (buildResponsesItemsFromParsed uuids minted (parsedOf chunks)).map Item.anonymous ∧
      ∀ usage, usageOf chunks = some usage → response.anonymous =
        (buildResponseFromParsed uuids minted responseId (parsedOf chunks) usage (finishReasonOf chunks)).anonymous) ∧
    ∀ message code, ∃ response : Response,
      response.Bracketed ((Translator.translate uuids responseId chunks).fail message code).out ∧
      response.status = .failed ∧ response.error = some (code,message) ∧
      response.output.map Item.anonymous =
        (buildResponsesItemsFromParsed uuids minted (parsedOf chunks)).map Item.anonymous := by
  have told := Translator.translate_notes uuids responseId chunks
  have brackets := translate_brackets uuids responseId chunks
  have running := translate_running uuids responseId chunks
  generalize Translator.translate uuids responseId chunks = t at told brackets running ⊢
  have shaped : t.collectOutput.map Item.anonymous =
      (buildResponsesItemsFromParsed uuids minted (parsedOf chunks)).map Item.anonymous := by
    have deltas := brackets
    rw [pieces_deltas] at deltas
    have same := deltas.shaped minted
    rw [← calls_deltas] at same
    exact same
  obtain ⟨id,usage,reason⟩ : t.responseId = responseId ∧ t.usage = usageOf chunks ∧ t.finishReason = finishReasonOf chunks := by
    simpa only [Translator.notes,Prod.mk.injEq] using told
  refine ⟨?_,?_⟩
  · let status := Translator.statusFor t.finishReason
    refine ⟨⟨t.closeAll.responseId,status.1,t.collectOutput,t.usage,status.2,none⟩,?_,shaped,?_⟩
    · apply brackets.bracketed running rfl
      split <;> rfl
    · intro given reported
      simp only [Response.anonymous,buildResponseFromParsed,shaped,t.closeAll_id,id,usage,reported,status,reason]
  · intro message code
    exact ⟨⟨t.closeAll.responseId,.failed,t.collectOutput,none,none,some (code,message)⟩,
      brackets.bracketed running rfl rfl,rfl,rfl,shaped⟩

-- Two calls whose indices come in the wrong order, a name that comes late, and
-- text before the thoughts.
def interleaved : List Chunk :=
  [⟨none,[⟨⟨none,some "a",[⟨1,some "call_1",none,some "x"⟩]⟩,none⟩]⟩,
    ⟨none,[⟨⟨some "so",none,[⟨0,none,some "now",none⟩]⟩,none⟩]⟩,
    ⟨some ⟨3,5,8,0,2⟩,[⟨⟨none,some "b",[⟨1,none,some "late",some "y"⟩]⟩,some "length"⟩]⟩]

theorem stream_brackets_response_interleaved : ∃ response : Response,
    response.Bracketed (Translator.translate countedUuids "resp" interleaved).finish.out ∧
    response.output.map Item.anonymous = [.reasoning "" ["so"],.message "" .completed ["ab"],
      .functionCall "" "" "now" "" .completed,.functionCall "" "" "late" "xy" .completed] ∧
    response.anonymous = (buildResponseFromParsed countedUuids 0 "resp" (parsedOf interleaved) ⟨3,5,8,0,2⟩
      (some "length")).anonymous := by
  obtain ⟨⟨response,bracketed,listed,whole⟩,_⟩ := stream_brackets_response countedUuids "resp" interleaved 0
  refine ⟨response,bracketed,?_,whole _ (by decide +kernel)⟩
  rw [listed]
  decide +kernel

end Modelship.Responses

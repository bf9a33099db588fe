import Mathlib.Data.List.Induction
import Modelship.OpenAI.Continuation

namespace Modelship.Responses
open Foundation

-- A chat stream has three channels; every tool index is one of its own.
inductive Channel where
  | reasoning
  | content
  | tool (index : Int)
  deriving DecidableEq

-- The order the output lists them in.
def Channel.before : Channel → Channel → Prop
  | .reasoning,.content => True
  | .reasoning,.tool _ => True
  | .content,.tool _ => True
  | .tool one,.tool two => one < two
  | _,_ => False

instance : DecidableRel Channel.before := fun one two => by
  cases one <;> cases two <;> simp only [Channel.before] <;> infer_instance

theorem Channel.before_irrefl (channel : Channel) : ¬channel.before channel := by
  cases channel <;> simp [before]

theorem Channel.before_asymm {one two : Channel} (first : one.before two) : ¬two.before one := by
  cases one <;> cases two <;> simp only [before,not_false_eq_true] at first ⊢
  omega

def Channel.tag : Channel → String
  | .reasoning => "rs_"
  | .content => "msg_"
  | .tool _ => "fc_"

theorem Channel.tag_append {one two : Channel} {first second : String}
    (same : one.tag ++ first = two.tag ++ second) : first = second := by
  have letters := congrArg String.toList same
  simp only [String.toList_append] at letters
  cases one <;> cases two <;>
    simp_all [tag,String.ext_iff]

-- What one delta puts on one channel.
inductive Piece where
  | reasoning (text : String)
  | content (text : String)
  | call (call : DeltaToolCall)

namespace Piece

def channel : Piece → Channel
  | .reasoning _ => .reasoning
  | .content _ => .content
  | .call delta => .tool delta.index

def said : Piece → Option String
  | .reasoning text | .content text => some text
  | .call delta => nonempty delta.arguments

def name : Piece → String
  | .reasoning _ | .content _ => ""
  | .call delta => delta.name.getD ""

end Piece

def Delta.pieces (delta : Delta) : List Piece :=
  (nonempty delta.reasoning).toList.map .reasoning ++ (nonempty delta.content).toList.map .content ++
    delta.toolCalls.map .call

def Chunk.pieces (chunk : Chunk) : List Piece := chunk.choices.flatMap (·.delta.pieces)

namespace Translator
section
variable (uuids : Uuids)

def onPiece (t : Translator) : Piece → Translator
  | .reasoning text => t.onReasoning uuids text
  | .content text => t.onContent uuids text
  | .call call => t.onToolCall uuids call

theorem onDelta_pieces (t : Translator) (delta : Delta) :
    t.onDelta uuids delta = delta.pieces.foldl (onPiece uuids) t := by
  unfold Translator.onDelta Delta.pieces
  rw [List.foldl_append,List.foldl_append,List.foldl_map]
  cases nonempty delta.reasoning <;> cases nonempty delta.content <;> rfl

-- The stream is the run over its pieces: what a piece keeps, the stream keeps.
theorem translate_traced {Traced : List Piece → Translator → Prop}
    (pieces : ∀ pieces t piece, Traced pieces t → Traced (pieces ++ [piece]) (t.onPiece uuids piece))
    (notes : ∀ pieces t usage finishReason, Traced pieces t → Traced pieces {t with usage,finishReason})
    {responseId : String} (begins : Traced [] (begin responseId).start) (chunks : List Chunk) :
    Traced (chunks.flatMap Chunk.pieces) (translate uuids responseId chunks) := by
  have choice : ∀ before (t : Translator) (choice : Choice), Traced before t →
      Traced (before ++ choice.delta.pieces) (t.onChoice uuids choice) := by
    intro before t choice traced
    have fed := foldl_traced (fun piece => [piece]) pieces choice.delta.pieces traced
    rw [List.flatMap_singleton',← onDelta_pieces] at fed
    exact notes _ _ _ _ fed
  have chunk : ∀ before (t : Translator) (chunk : Chunk), Traced before t →
      Traced (before ++ chunk.pieces) (t.process uuids chunk) := by
    intro before t chunk traced
    exact foldl_traced _ choice chunk.choices (notes before t _ _ traced)
  exact foldl_traced _ chunk chunks begins

end

def events (t : Translator) : List Event := t.out.map (·.2)

@[simp] theorem event_events (t : Translator) (event : Event) : (t.event event).events = t.events ++ [event] := by
  simp [events,Translator.event]

-- The item that is open on a channel, in the shape of a call.
def view (t : Translator) : Channel → Option OpenTool
  | .reasoning => t.reasoning.map fun item => ⟨item.id,"","",item.text,item.index⟩
  | .content => t.message.map fun item => ⟨item.id,"","",item.text,item.index⟩
  | .tool index => t.tools.get? index

end Translator

namespace Channel

-- An item opens on its channel as `item`, speaks in deltas, and ends as another.
def opened (channel : Channel) (item : OpenTool) : Item :=
  match channel with
  | .reasoning => .reasoning item.id []
  | .content => .message item.id .inProgress []
  | .tool _ => .functionCall item.id item.callId item.name "" .inProgress

def opening (channel : Channel) (item : OpenTool) : List Event :=
  .added item.index (channel.opened item) :: match channel with
  | .reasoning => [.part .reasoningPartAdded item.id item.index ""]
  | .content => [.part .contentPartAdded item.id item.index ""]
  | .tool _ => []

def delta (channel : Channel) (item : OpenTool) (text : String) : Event :=
  match channel with
  | .reasoning => .part .reasoningDelta item.id item.index text
  | .content => .part .textDelta item.id item.index text
  | .tool _ => .part .argumentsDelta item.id item.index text

def ended (channel : Channel) (item : OpenTool) : Item :=
  match channel with
  | .reasoning => .reasoning item.id [item.arguments]
  | .content => .message item.id .completed [item.arguments]
  | .tool _ => .functionCall item.id item.callId item.name item.arguments .completed

def closing (channel : Channel) (item : OpenTool) : List Event :=
  (match channel with
  | .reasoning => [.part .reasoningDone item.id item.index item.arguments,
      .part .reasoningPartDone item.id item.index item.arguments]
  | .content => [.part .textDone item.id item.index item.arguments,
      .part .contentPartDone item.id item.index item.arguments]
  | .tool _ => [.part .argumentsDone item.id item.index item.arguments]) ++ [.done item.index (channel.ended item)]

end Channel

def OpenTool.fed (item : OpenTool) (piece : Piece) : OpenTool :=
  {item with
    name := if item.name = "" then piece.name else item.name
    arguments := item.arguments ++ piece.said.getD ""}

-- All that a piece does: it opens its channel where that is still closed, and feeds it.
inductive Takes (uuids : Uuids) (piece : Piece) (t u : Translator) : Prop where
  | opens (drawn : Nat) (item : OpenTool) (absent : t.view piece.channel = none) (later : t.minted ≤ drawn)
      (minted : u.minted = drawn + 1) (id : item.id = piece.channel.tag ++ uuids.draw drawn)
      (index : item.index = t.nextIndex) (next : u.nextIndex = t.nextIndex + 1) (name : item.name = piece.name)
      (silent : item.arguments = "")
      (now : ∀ channel, u.view channel = if piece.channel = channel then some (item.fed piece) else t.view channel)
      (told : u.events = t.events ++ (piece.channel.opening item ++ piece.said.toList.map (piece.channel.delta item)))
  | feeds (item : OpenTool) (found : t.view piece.channel = some item) (minted : u.minted = t.minted)
      (next : u.nextIndex = t.nextIndex)
      (now : ∀ channel, u.view channel = if piece.channel = channel then some (item.fed piece) else t.view channel)
      (told : u.events = t.events ++ piece.said.toList.map (piece.channel.delta item))

namespace Translator
section
variable {uuids : Uuids}

theorem onReasoning_takes (t : Translator) (text : String) :
    Takes uuids (.reasoning text) t (t.onReasoning uuids text) := by
  unfold Translator.onReasoning
  split
  · rename_i absent
    refine .opens t.minted ⟨"rs_" ++ uuids.draw t.minted,"","","",t.nextIndex⟩ ?_ (Nat.le_refl _) rfl rfl rfl rfl rfl rfl
      ?_ ?_
    · simp [view,Piece.channel,absent]
    · intro channel
      cases channel <;> simp [view,event,Piece.channel,OpenTool.fed,Piece.said,Piece.name]
    · simp [events,event,Piece.channel,Piece.said,Channel.opening,Channel.opened,Channel.delta]
  · rename_i item found
    refine .feeds ⟨item.id,"","",item.text,item.index⟩ ?_ rfl rfl ?_ ?_
    · simp [view,Piece.channel,found]
    · intro channel
      cases channel <;> simp [view,event,Piece.channel,OpenTool.fed,Piece.said,Piece.name]
    · simp [events,event,Piece.channel,Piece.said,Channel.delta]

theorem onContent_takes (t : Translator) (text : String) :
    Takes uuids (.content text) t (t.onContent uuids text) := by
  unfold Translator.onContent
  split
  · rename_i absent
    refine .opens t.minted ⟨"msg_" ++ uuids.draw t.minted,"","","",t.nextIndex⟩ ?_ (Nat.le_refl _) rfl rfl rfl rfl rfl rfl
      ?_ ?_
    · simp [view,Piece.channel,absent]
    · intro channel
      cases channel <;> simp [view,event,Piece.channel,OpenTool.fed,Piece.said,Piece.name]
    · simp [events,event,Piece.channel,Piece.said,Channel.opening,Channel.opened,Channel.delta]
  · rename_i item found
    refine .feeds ⟨item.id,"","",item.text,item.index⟩ ?_ rfl rfl ?_ ?_
    · simp [view,Piece.channel,found]
    · intro channel
      cases channel <;> simp [view,event,Piece.channel,OpenTool.fed,Piece.said,Piece.name]
    · simp [events,event,Piece.channel,Piece.said,Channel.delta]

-- A call before its arguments are read.
theorem openTool_takes (t : Translator) (call : DeltaToolCall) :
    Takes uuids (.call {call with arguments := none}) t (t.openTool uuids call).1 := by
  unfold openTool
  split
  · rename_i absent
    cases nonempty call.id with
    | some id =>
        refine .opens t.minted ⟨"fc_" ++ uuids.draw t.minted,id,call.name.getD "","",t.nextIndex⟩ absent (Nat.le_refl _)
          rfl rfl rfl rfl rfl rfl ?_ ?_
        · intro channel
          cases channel <;> simp [view,event,Piece.channel,OpenTool.fed,Piece.said,Piece.name,nonempty]
        · simp [events,event,Piece.channel,Piece.said,Channel.opening,Channel.opened,nonempty]
    | none =>
        refine .opens (t.minted + 1) ⟨"fc_" ++ uuids.draw (t.minted + 1),"call_" ++ uuids.draw t.minted,call.name.getD "","",
          t.nextIndex⟩ absent (Nat.le_succ _) rfl rfl rfl rfl rfl rfl ?_ ?_
        · intro channel
          cases channel <;> simp [view,event,Piece.channel,OpenTool.fed,Piece.said,Piece.name,nonempty]
        · simp [events,event,Piece.channel,Piece.said,Channel.opening,Channel.opened,nonempty]
  · rename_i item found
    have unchanged (same : item.fed (.call {call with arguments := none}) = item) :
        Takes uuids (.call {call with arguments := none}) t t := by
      refine .feeds item found rfl rfl ?_ (by simp [Piece.said,nonempty])
      intro channel
      rw [same]
      split
      · rename_i here
        rw [← here]
        exact found
      · rfl
    cases given : nonempty call.name with
    | none =>
        apply unchanged
        have silent : call.name.getD "" = "" := nonempty_none given
        have named : (if item.name = "" then "" else item.name) = item.name := by
          split
          · rename_i unnamed
            exact unnamed.symm
          · rfl
        simp [OpenTool.fed,Piece.name,Piece.said,nonempty,silent,named]
    | some name =>
        have brought : call.name.getD "" = name := by rw [(nonempty_some given).2]; rfl
        by_cases unnamed : item.name = ""
        · simp only [unnamed,if_true]
          refine .feeds item found rfl rfl ?_ (by simp [Piece.said,nonempty,events])
          intro channel
          cases channel <;> simp [view,Piece.channel,OpenTool.fed,Piece.said,Piece.name,nonempty,unnamed,brought]
        · simp only [unnamed,if_false]
          apply unchanged
          simp [OpenTool.fed,Piece.said,nonempty,unnamed]

-- The arguments go to the item that is then open under the index.
theorem Takes.says {call : DeltaToolCall} {t u v : Translator} {current : OpenTool}
    (taken : Takes uuids (.call {call with arguments := none}) t u) (found : u.view (.tool call.index) = some current)
    (minted : v.minted = u.minted) (next : v.nextIndex = u.nextIndex)
    (now : ∀ channel, v.view channel = if Channel.tool call.index = channel then
      some {current with arguments := current.arguments ++ (nonempty call.arguments).getD ""} else u.view channel)
    (told : v.events = u.events ++ (nonempty call.arguments).toList.map ((Channel.tool call.index).delta current)) :
    Takes uuids (.call call) t v := by
  have fed {item : OpenTool} (earlier : ∀ channel, u.view channel = if Channel.tool call.index = channel then
      some (item.fed (.call {call with arguments := none})) else t.view channel) :
      current = item.fed (.call {call with arguments := none}) ∧
        ∀ channel, v.view channel = if Channel.tool call.index = channel then some (item.fed (.call call))
          else t.view channel := by
    have same : current = item.fed (.call {call with arguments := none}) := by
      rw [earlier,if_pos rfl] at found
      exact (Option.some.inj found).symm
    refine ⟨same,?_⟩
    intro channel
    rw [now,earlier,same]
    by_cases here : Channel.tool call.index = channel
    · simp [here,OpenTool.fed,Piece.said,Piece.name,nonempty.eq_def none]
    · simp [here]
  cases taken with
  | opens drawn item absent later minted_ id index next_ name silent earlier told_ =>
      obtain ⟨same,after⟩ := fed earlier
      refine .opens drawn item absent later (minted.trans minted_) id index (next.trans next_) name silent after ?_
      subst current
      rw [told,told_]
      simp [Piece.said,Piece.channel,Channel.delta,OpenTool.fed,nonempty.eq_def none]
  | feeds item open_ minted_ next_ earlier told_ =>
      obtain ⟨same,after⟩ := fed earlier
      refine .feeds item open_ (minted.trans minted_) (next.trans next_) after ?_
      subst current
      rw [told,told_]
      simp [Piece.said,Piece.channel,Channel.delta,OpenTool.fed,nonempty.eq_def none]

theorem onToolCall_takes (t : Translator) (call : DeltaToolCall) :
    Takes uuids (.call call) t (t.onToolCall uuids call) := by
  have current : (t.openTool uuids call).1.view (.tool call.index) = some (t.openTool uuids call).2 := by
    have grown := (openTool_fed uuids t call).2 call.index
    rwa [if_pos rfl] at grown
  apply Takes.says (t.openTool_takes call) current
  · unfold Translator.onToolCall
    cases nonempty call.arguments <;> rfl
  · unfold Translator.onToolCall
    cases nonempty call.arguments <;> rfl
  · intro channel
    unfold Translator.onToolCall
    cases nonempty call.arguments with
    | none =>
        simp only [Option.getD_none,String.append_empty]
        split
        · rename_i here
          rw [← here]
          exact current
        · rfl
    | some text => cases channel <;> simp [view,event]
  · unfold Translator.onToolCall
    cases nonempty call.arguments <;> simp [events,event,Channel.delta]

theorem onPiece_takes (t : Translator) (piece : Piece) : Takes uuids piece t (t.onPiece uuids piece) := by
  cases piece with
  | reasoning text => exact t.onReasoning_takes text
  | content text => exact t.onContent_takes text
  | call call => exact t.onToolCall_takes call

end
end Translator

theorem eraseDups_nodup {Entry : Type} [DecidableEq Entry] (entries : List Entry) : entries.eraseDups.Nodup := by
  induction entries using List.reverseRecOn with
  | nil => exact List.nodup_nil
  | append_singleton earlier entry ih =>
      rw [List.eraseDups_append]
      refine List.nodup_append.mpr ⟨ih,?_,?_⟩
      · by_cases there : entry ∈ earlier <;> simp [List.removeAll,there,List.eraseDups_cons]
      · intro one first two second same
        have fresh : two = entry ∧ two ∉ earlier := by
          simpa [List.removeAll] using List.mem_eraseDups.mp second
        exact fresh.2 (same ▸ List.mem_eraseDups.mp first)

-- The channels in the order the stream first speaks on them.
def firstSeen (pieces : List Piece) : List Channel := (pieces.map Piece.channel).eraseDups

-- What the stream says on one channel, and the first name it gives there.
def heard (channel : Channel) (pieces : List Piece) : List String :=
  pieces.filterMap fun piece => if piece.channel = channel then piece.said else none

def naming (channel : Channel) (pieces : List Piece) : String :=
  (((pieces.filter fun piece => piece.channel = channel).map Piece.name).find? (· ≠ "")).getD ""

section
variable (pieces : List Piece) (piece : Piece)

theorem mem_firstSeen {channel : Channel} : channel ∈ firstSeen pieces ↔ ∃ piece ∈ pieces, piece.channel = channel := by
  simp [firstSeen,List.mem_eraseDups]

theorem firstSeen_append : firstSeen (pieces ++ [piece]) =
    if piece.channel ∈ firstSeen pieces then firstSeen pieces else firstSeen pieces ++ [piece.channel] := by
  unfold firstSeen
  rw [List.map_append,List.eraseDups_append]
  by_cases there : piece.channel ∈ pieces.map Piece.channel
  · have gone : (List.map Piece.channel [piece]).removeAll (pieces.map Piece.channel) = [] := by
      simpa [List.removeAll] using there
    rw [if_pos (List.mem_eraseDups.mpr there),gone,List.eraseDups_nil,List.append_nil]
  · have left : (List.map Piece.channel [piece]).removeAll (pieces.map Piece.channel) = [piece.channel] := by
      simpa [List.removeAll] using there
    rw [if_neg fun seen => there (List.mem_eraseDups.mp seen),left]
    rfl

theorem firstSeen_nodup : (firstSeen pieces).Nodup := eraseDups_nodup _

theorem heard_append (channel : Channel) : heard channel (pieces ++ [piece]) =
    heard channel pieces ++ if piece.channel = channel then piece.said.toList else [] := by
  unfold heard
  rw [List.filterMap_append]
  by_cases here : piece.channel = channel
  · cases said : piece.said <;> simp [here,said]
  · simp [here]

theorem naming_append (channel : Channel) : naming channel (pieces ++ [piece]) =
    if piece.channel = channel ∧ naming channel pieces = "" then piece.name else naming channel pieces := by
  unfold naming
  rw [List.filter_append,List.map_append,List.find?_append]
  generalize earlier : ((pieces.filter fun piece => piece.channel = channel).map Piece.name).find? (· ≠ "") = found
  by_cases here : piece.channel = channel
  · cases found with
    | none => by_cases silent : piece.name = "" <;> simp [here,silent]
    | some name =>
        have given : name ≠ "" := by simpa using List.find?_some earlier
        simp [given]
  · cases found <;> simp [here]

theorem unheard {channel : Channel} (unseen : channel ∉ firstSeen pieces) :
    heard channel pieces = [] ∧ naming channel pieces = "" := by
  have elsewhere : ∀ piece ∈ pieces, piece.channel ≠ channel :=
    fun piece there same => unseen ((mem_firstSeen pieces).mpr ⟨piece,there,same⟩)
  constructor
  · unfold heard
    rw [List.filterMap_eq_nil_iff]
    intro piece there
    rw [if_neg (elsewhere piece there)]
  · unfold naming
    rw [List.filter_eq_nil_iff.mpr]
    · rfl
    · intro piece there
      simpa using elsewhere piece there

end

end Modelship.Responses

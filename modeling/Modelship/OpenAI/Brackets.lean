import Modelship.OpenAI.Channels

namespace Modelship.Responses
open Foundation

def Event.itemId : Event → Option String
  | .envelope _ _ => none
  | .added _ item | .done _ item => some item.id
  | .part _ itemId _ _ => some itemId

def eventsOf (id : String) (events : List Event) : List Event := events.filter fun event => event.itemId = some id

theorem eventsOf_append (id : String) (earlier later : List Event) :
    eventsOf id (earlier ++ later) = eventsOf id earlier ++ eventsOf id later := List.filter_append ..

theorem eventsOf_same {id : String} {events : List Event} (same : ∀ event ∈ events, event.itemId = some id) :
    eventsOf id events = events := by
  apply List.filter_eq_self.mpr
  intro event there
  simpa using same event there

theorem eventsOf_other {id : String} {events : List Event} (other : ∀ event ∈ events, event.itemId ≠ some id) :
    eventsOf id events = [] := by
  apply List.filter_eq_nil_iff.mpr
  intro event there
  simpa using other event there

-- What holds of an open item: its place, its id, its text so far and the events that tell it.
structure Opened (uuids : Uuids) (pieces : List Piece) (t : Translator) (channel : Channel) (item : OpenTool) : Prop where
  placed : (firstSeen pieces).idxOf channel = item.index
  drawn : ∃ number < t.minted, item.id = channel.tag ++ uuids.draw number
  heard : item.arguments = String.join (heard channel pieces)
  named : item.name = naming channel pieces
  told : ∃ first : OpenTool, first.id = item.id ∧ first.index = item.index ∧ first.callId = item.callId ∧
    eventsOf item.id t.events = channel.opening first ++ (Responses.heard channel pieces).map (channel.delta item)

structure Brackets (uuids : Uuids) (pieces : List Piece) (t : Translator) : Prop where
  seen : ∀ channel, (t.view channel).isSome ↔ channel ∈ firstSeen pieces
  next : t.nextIndex = (firstSeen pieces).length
  opened : ∀ channel item, t.view channel = some item → Opened uuids pieces t channel item
  apart : ∀ one two item other, t.view one = some item → t.view two = some other → item.id = other.id → one = two
  mentioned : ∀ event ∈ t.events, ∀ id, event.itemId = some id → ∃ channel item, t.view channel = some item ∧ item.id = id

namespace Brackets
section
variable {uuids : Uuids} {pieces : List Piece} {piece : Piece} {t u : Translator}

-- An id that is drawn now is on no open item.
theorem fresh (brackets : Brackets uuids pieces t) {drawn : Nat} (later : t.minted ≤ drawn) (on : Channel)
    {channel : Channel} {item : OpenTool} (found : t.view channel = some item) :
    item.id ≠ on.tag ++ uuids.draw drawn := by
  intro same
  obtain ⟨number,less,id⟩ := (brackets.opened channel item found).drawn
  have equal := uuids.distinct (Channel.tag_append (id.symm.trans same))
  omega

theorem absent (brackets : Brackets uuids pieces t) {channel : Channel} (closed : t.view channel = none) :
    channel ∉ firstSeen pieces := by
  intro seen
  have open_ := (brackets.seen channel).mpr seen
  rw [closed] at open_
  cases open_

theorem opening_ids (channel : Channel) (item : OpenTool) : ∀ event ∈ channel.opening item, event.itemId = some item.id := by
  cases channel <;> simp [Channel.opening,Channel.opened,Event.itemId,Item.id]

theorem delta_id (channel : Channel) (item : OpenTool) (text : String) : (channel.delta item text).itemId = some item.id := by
  cases channel <;> rfl

-- A piece tells about one item only, and leaves it as all its pieces make it.
theorem takes (brackets : Brackets uuids pieces t) (taken : Takes uuids piece t u) :
    ∃ (item : OpenTool) (new : List Event),
    (∀ channel, u.view channel = if piece.channel = channel then some (item.fed piece) else t.view channel) ∧
    u.events = t.events ++ new ∧ (∀ event ∈ new, event.itemId = some item.id) ∧ t.minted ≤ u.minted ∧
    (∀ channel other, t.view channel = some other → (other.id = item.id ↔ piece.channel = channel)) ∧
    u.nextIndex = (firstSeen (pieces ++ [piece])).length ∧
    Opened uuids (pieces ++ [piece]) u piece.channel (item.fed piece) := by
  cases taken with
  | opens drawn item absent later minted id index next name silent now told =>
      have unseen := brackets.absent absent
      have grown : firstSeen (pieces ++ [piece]) = firstSeen pieces ++ [piece.channel] := by
        rw [firstSeen_append,if_neg unseen]
      obtain ⟨quiet,nameless⟩ := unheard pieces unseen
      have others : ∀ channel other, t.view channel = some other → other.id ≠ item.id := by
        intro channel other found
        rw [id]
        exact brackets.fresh later piece.channel found
      have new : ∀ event ∈ piece.channel.opening item ++ piece.said.toList.map (piece.channel.delta item),
          event.itemId = some item.id := by
        intro event there
        rcases List.mem_append.mp there with first | said
        · exact opening_ids _ _ event first
        · obtain ⟨text,_,rfl⟩ := List.mem_map.mp said
          exact delta_id _ _ text
      refine ⟨item,_,now,told,new,by omega,?_,?_,?_⟩
      · intro channel other found
        refine iff_of_false (others channel other found) ?_
        rintro rfl
        rw [absent] at found
        cases found
      · rw [grown,List.length_append,next,brackets.next]
        rfl
      · constructor
        · rw [grown,List.idxOf_append_of_notMem unseen]
          simp [OpenTool.fed,index,brackets.next]
        · exact ⟨drawn,by omega,id⟩
        · rw [heard_append,quiet,if_pos rfl]
          cases said : piece.said <;> simp [OpenTool.fed,silent,said,String.join]
        · rw [naming_append,nameless]
          simp [OpenTool.fed,name]
        · refine ⟨item,rfl,rfl,rfl,?_⟩
          have before : eventsOf item.id t.events = [] := by
            apply eventsOf_other
            intro event there mentions
            obtain ⟨channel,other,found,same⟩ := brackets.mentioned event there _ mentions
            exact others channel other found same
          have same : (item.fed piece).id = item.id := rfl
          rw [same,told,eventsOf_append,before,eventsOf_same new,heard_append,quiet,if_pos rfl]
          rfl
  | feeds item found minted next now told =>
      have open_ := brackets.opened _ item found
      have seen : piece.channel ∈ firstSeen pieces := (brackets.seen _).mp (by rw [found]; rfl)
      have same : firstSeen (pieces ++ [piece]) = firstSeen pieces := by rw [firstSeen_append,if_pos seen]
      have new : ∀ event ∈ piece.said.toList.map (piece.channel.delta item), event.itemId = some item.id := by
        intro event there
        obtain ⟨text,_,rfl⟩ := List.mem_map.mp there
        exact delta_id _ _ text
      refine ⟨item,_,now,told,new,by omega,?_,?_,?_⟩
      · intro channel other there
        constructor
        · intro shared
          exact brackets.apart _ _ item other found there shared.symm
        · rintro rfl
          cases found.symm.trans there
          rfl
      · rw [same,next,brackets.next]
      · constructor
        · rw [same]
          exact open_.placed
        · rw [minted]
          exact open_.drawn
        · rw [heard_append,if_pos rfl]
          cases said : piece.said <;> simp [OpenTool.fed,open_.heard,said,String.join]
        · rw [naming_append,← open_.named]
          simp [OpenTool.fed]
        · obtain ⟨first,id,index,callId,told_⟩ := open_.told
          refine ⟨first,id,index,callId,?_⟩
          have same : (item.fed piece).id = item.id := rfl
          rw [same,told,eventsOf_append,told_,eventsOf_same new,heard_append,if_pos rfl,List.map_append,
            List.append_assoc]
          rfl

-- An item on another channel is left alone.
theorem leaves (brackets : Brackets uuids pieces t) {channel : Channel} {other item : OpenTool} {new : List Event}
    (apart : piece.channel ≠ channel) (found : t.view channel = some other) (more : t.minted ≤ u.minted)
    (told : u.events = t.events ++ new) (ids : ∀ event ∈ new, event.itemId = some item.id) (id : other.id ≠ item.id) :
    Opened uuids (pieces ++ [piece]) u channel other := by
  have open_ := brackets.opened channel other found
  have seen : channel ∈ firstSeen pieces := (brackets.seen _).mp (by rw [found]; rfl)
  constructor
  · rw [← open_.placed,firstSeen_append]
    split
    · rfl
    · exact List.idxOf_append_of_mem seen
  · obtain ⟨number,less,drawn⟩ := open_.drawn
    exact ⟨number,by omega,drawn⟩
  · rw [heard_append,if_neg apart,List.append_nil]
    exact open_.heard
  · rw [naming_append,if_neg fun both => apart both.1]
    exact open_.named
  · have none_new : eventsOf other.id new = [] := by
      apply eventsOf_other
      intro event there mentions
      rw [ids event there] at mentions
      exact id (Option.some.inj mentions).symm
    rw [told,eventsOf_append,none_new,List.append_nil,heard_append,if_neg apart,List.append_nil]
    exact open_.told

theorem step (brackets : Brackets uuids pieces t) (taken : Takes uuids piece t u) :
    Brackets uuids (pieces ++ [piece]) u := by
  obtain ⟨item,new,now,told,ids,more,others,next,current⟩ := brackets.takes taken
  have here : u.view piece.channel = some (item.fed piece) := by rw [now,if_pos rfl]
  have elsewhere : ∀ {channel}, piece.channel ≠ channel → u.view channel = t.view channel := by
    intro channel apart
    rw [now,if_neg apart]
  constructor
  · intro channel
    rw [mem_firstSeen]
    by_cases same : piece.channel = channel
    · rw [← same,here]
      simp
    · rw [elsewhere same,brackets.seen,mem_firstSeen]
      simp [same]
  · exact next
  · intro channel found open_
    by_cases same : piece.channel = channel
    · subst channel
      cases here.symm.trans open_
      exact current
    · rw [elsewhere same] at open_
      exact brackets.leaves same open_ more told ids fun shared => same ((others channel found open_).mp shared)
  · intro one two first second found other shared
    by_cases left : piece.channel = one <;> by_cases right : piece.channel = two
    · exact left.symm.trans right
    · subst one
      cases here.symm.trans found
      rw [elsewhere right] at other
      exact absurd ((others two second other).mp shared.symm) right
    · subst two
      cases here.symm.trans other
      rw [elsewhere left] at found
      exact absurd ((others one first found).mp shared) left
    · rw [elsewhere left] at found
      rw [elsewhere right] at other
      exact brackets.apart one two first second found other shared
  · intro event there id mentions
    rw [told] at there
    rcases List.mem_append.mp there with before | added
    · obtain ⟨channel,found,open_,same⟩ := brackets.mentioned event before id mentions
      by_cases here_ : piece.channel = channel
      · exact ⟨piece.channel,item.fed piece,here,((others channel found open_).mpr here_).symm.trans same⟩
      · exact ⟨channel,found,(elsewhere here_).trans open_,same⟩
    · have same := ids event added
      rw [mentions] at same
      exact ⟨piece.channel,item.fed piece,here,(Option.some.inj same).symm⟩

end
end Brackets

theorem translate_brackets (uuids : Uuids) (responseId : String) (chunks : List Chunk) :
    Brackets uuids (chunks.flatMap Chunk.pieces) (Translator.translate uuids responseId chunks) := by
  apply Translator.translate_traced
  · intro pieces t piece brackets
    exact brackets.step (t.onPiece_takes piece)
  · intro pieces t usage finishReason brackets
    refine ⟨brackets.seen,brackets.next,?_,brackets.apart,brackets.mentioned⟩
    intro channel item found
    have open_ := brackets.opened channel item found
    exact ⟨open_.placed,open_.drawn,open_.heard,open_.named,open_.told⟩
  · constructor
    · intro channel
      cases channel <;> simp [Translator.view,Translator.begin,Translator.start,Translator.envelope,Translator.event,firstSeen]
    · rfl
    · intro channel item found
      cases channel <;> cases found
    · intro one two item other found
      cases one <;> cases found
    · intro event there id mentions
      simp only [Translator.events,Translator.begin,Translator.start,Translator.envelope,Translator.event,List.nil_append,
        List.map_append,List.map_cons,List.map_nil,List.mem_append,List.mem_singleton] at there
      rcases there with rfl | rfl <;> cases mentions

theorem sorted_strictly {indices : List Int} (distinct : indices.Nodup) :
    (indices.insertionSort (· ≤ ·)).Pairwise (· < ·) := by
  have sorted : (indices.insertionSort (· ≤ ·)).Pairwise (· ≤ ·) := List.pairwise_insertionSort _ _
  have apart : (indices.insertionSort (· ≤ ·)).Nodup := (List.perm_insertionSort _ _).nodup_iff.mpr distinct
  refine (List.pairwise_and_iff.mpr ⟨sorted,apart⟩).imp ?_
  rintro one two ⟨less,apart⟩
  exact lt_of_le_of_ne less apart

namespace Translator

-- The open items in the order of the output.
def openItems (t : Translator) : List (Channel × OpenTool) :=
  (t.view .reasoning).toList.map (fun item => (.reasoning,item)) ++
  (t.view .content).toList.map (fun item => (.content,item)) ++
  (t.tools.entries.insertionSort fun one two => one.1 ≤ two.1).map fun entry => (.tool entry.1,entry.2)

section
variable (t : Translator)

theorem collectOutput_open : t.collectOutput = t.openItems.map fun entry => entry.1.ended entry.2 := by
  cases thought : t.reasoning <;> cases said : t.message <;>
    simp [collectOutput,openItems,view,sorted,thought,said,Channel.ended,closedReasoning,closedMessage,closedTool,
      Function.comp_def]

theorem closing_open :
    t.closingTexts ++ t.sorted.flatMap closingTool = t.openItems.flatMap fun entry => entry.1.closing entry.2 := by
  cases thought : t.reasoning <;> cases said : t.message <;>
    simp [closingTexts,closingTool,openItems,view,sorted,thought,said,Channel.closing,Channel.ended,closedReasoning,
      closedMessage,closedTool,List.flatMap_map]

theorem mem_openItems {channel : Channel} {item : OpenTool} :
    (channel,item) ∈ t.openItems ↔ t.view channel = some item := by
  have called : ∀ index, (∃ entry ∈ t.tools.entries.insertionSort fun one two => one.1 ≤ two.1,
      entry.1 = index ∧ entry.2 = item) ↔ t.tools.get? index = some item := by
    intro index
    constructor
    · rintro ⟨entry,there,rfl,rfl⟩
      exact Dict.mem_get_some ((List.mem_insertionSort _).mp there)
    · intro found
      exact ⟨(index,item),(List.mem_insertionSort _).mpr (Dict.get_some_mem found),rfl,rfl⟩
  cases channel with
  | reasoning => simp [openItems]
  | content => simp [openItems]
  | tool index =>
      rw [show t.view (.tool index) = t.tools.get? index from rfl,← called]
      simp [openItems]

-- The tool indices of the open calls, as `sorted` puts them.
def keys (t : Translator) : List Int := (t.tools.entries.map Prod.fst).insertionSort (· ≤ ·)

theorem sorted_keys :
    (t.tools.entries.insertionSort fun one two => one.1 ≤ two.1).map Prod.fst = t.keys :=
  List.map_insertionSort _ _ _ _ fun _ _ _ _ => Iff.rfl

theorem keys_ordered : t.keys.Pairwise (· < ·) := sorted_strictly t.tools.distinct

theorem mem_keys {index : Int} : index ∈ t.keys ↔ (t.view (.tool index)).isSome := by
  rw [keys,List.mem_insertionSort]
  exact Dict.get_isSome.symm

theorem openItems_channels : t.openItems.map Prod.fst = (t.view .reasoning).toList.map (fun _ => .reasoning) ++
    (t.view .content).toList.map (fun _ => .content) ++ t.keys.map .tool := by
  rw [← sorted_keys]
  simp [openItems,Function.comp_def]

theorem openItems_ordered : (t.openItems.map Prod.fst).Pairwise Channel.before := by
  have tools : (t.keys.map Channel.tool).Pairwise Channel.before := by
    rw [List.pairwise_map]
    exact t.keys_ordered
  have thought : ∀ channel ∈ t.keys.map Channel.tool, Channel.reasoning.before channel := by
    intro channel there
    obtain ⟨index,_,rfl⟩ := List.mem_map.mp there
    trivial
  have said : ∀ channel ∈ t.keys.map Channel.tool, Channel.content.before channel := by
    intro channel there
    obtain ⟨index,_,rfl⟩ := List.mem_map.mp there
    trivial
  rw [openItems_channels]
  cases t.view .reasoning <;> cases t.view .content <;>
    simp only [Option.toList_none,Option.toList_some,List.map_nil,List.map_cons,List.nil_append,List.cons_append,
      List.pairwise_cons,List.mem_cons,forall_eq_or_imp]
  · exact tools
  · exact ⟨said,tools⟩
  · exact ⟨thought,tools⟩
  · exact ⟨⟨trivial,thought⟩,said,tools⟩

end
end Translator

def Envelope.terminal : Envelope → Bool
  | .created | .inProgress => false
  | .completed | .incomplete | .failed => true

def Event.terminal : Event → Bool
  | .envelope kind _ => kind.terminal
  | _ => false

def Event.isPart : Event → Bool
  | .part _ _ _ _ => true
  | _ => false

-- The text that a delta adds, and the text that a `.done` event repeats as a whole.
def Event.deltaText : Event → Option String
  | .part .reasoningDelta _ _ text | .part .textDelta _ _ text | .part .argumentsDelta _ _ text => some text
  | _ => none

def Event.doneText : Event → Option String
  | .part .reasoningDone _ _ text | .part .reasoningPartDone _ _ text | .part .textDone _ _ text
  | .part .contentPartDone _ _ text | .part .argumentsDone _ _ text => some text
  | _ => none

def Item.text : Item → String
  | .reasoning _ summary => String.join summary
  | .message _ _ content => String.join content
  | .functionCall _ _ _ arguments _ => arguments
  | _ => ""

-- The events of one item: added once before everything else, done once after it.
structure Item.Bracketed (item : Item) (events : List Event) : Prop where
  around : ∃ index opened parts, opened.id = item.id ∧ (∀ event ∈ parts, event.isPart = true) ∧
    eventsOf item.id events = .added index opened :: parts ++ [.done index item]
  deltas : String.join ((eventsOf item.id events).filterMap Event.deltaText) = item.text
  whole : (eventsOf item.id events).filterMap Event.doneText ≠ [] ∧
    ∀ text ∈ (eventsOf item.id events).filterMap Event.doneText, text = item.text

-- A stream that ends with `response`.
structure Response.Bracketed (response : Response) (stream : List (Nat × Event)) : Prop where
  numbered : stream.map (·.1) = List.range stream.length
  last : ∃ before kind, stream.map (·.2) = before ++ [.envelope kind response] ∧ kind.terminal = true ∧
    ∀ event ∈ before, event.terminal = false
  distinct : (response.output.map Item.id).Nodup
  items : ∀ item ∈ response.output, item.Bracketed (stream.map (·.2))
  only : ∀ event ∈ stream.map (·.2), ∀ id, event.itemId = some id → id ∈ response.output.map Item.id

section
variable {uuids : Uuids} {pieces : List Piece} {t : Translator}

theorem Channel.ended_id (channel : Channel) (item : OpenTool) : (channel.ended item).id = item.id := by
  cases channel <;> rfl

theorem Channel.ended_text (channel : Channel) (item : OpenTool) : (channel.ended item).text = item.arguments := by
  cases channel <;> simp [ended,Item.text]

theorem Channel.closing_ids (channel : Channel) (item : OpenTool) :
    ∀ event ∈ channel.closing item, event.itemId = some item.id := by
  cases channel <;> simp [closing,ended,Event.itemId,Item.id]

theorem Channel.opening_texts (channel : Channel) (item : OpenTool) :
    (channel.opening item).filterMap Event.deltaText = [] ∧ (channel.opening item).filterMap Event.doneText = [] := by
  cases channel <;> exact ⟨rfl,rfl⟩

theorem Channel.delta_texts (channel : Channel) (item : OpenTool) (texts : List String) :
    (texts.map (channel.delta item)).filterMap Event.deltaText = texts ∧
      (texts.map (channel.delta item)).filterMap Event.doneText = [] := by
  rw [List.filterMap_map,List.filterMap_map,List.filterMap_eq_nil_iff]
  constructor
  · cases channel <;> exact List.filterMap_some
  · cases channel <;> exact fun _ _ => rfl

theorem Channel.closing_texts (channel : Channel) (item : OpenTool) :
    (channel.closing item).filterMap Event.deltaText = [] ∧ (channel.closing item).filterMap Event.doneText ≠ [] ∧
      ∀ text ∈ (channel.closing item).filterMap Event.doneText, text = item.arguments := by
  cases channel with
  | reasoning => exact ⟨rfl,List.cons_ne_nil _ _,by intro text there; simpa [closing,Event.doneText] using there⟩
  | content => exact ⟨rfl,List.cons_ne_nil _ _,by intro text there; simpa [closing,Event.doneText] using there⟩
  | tool index => exact ⟨rfl,List.cons_ne_nil _ _,by intro text there; simpa [closing,Event.doneText] using there⟩

-- What stands between the event that adds an item and the one that ends it.
theorem Channel.between (channel : Channel) (item : OpenTool) : ∃ lead ends,
    (∀ first : OpenTool, first.id = item.id → first.index = item.index →
      channel.opening first = .added item.index (channel.opened first) :: lead) ∧
    channel.closing item = ends ++ [.done item.index (channel.ended item)] ∧
    ∀ texts : List String, ∀ event ∈ lead ++ texts.map (channel.delta item) ++ ends, event.isPart = true := by
  have said : ∀ texts : List String, ∀ event ∈ texts.map (channel.delta item), event.isPart = true := by
    intro texts event there
    obtain ⟨text,_,rfl⟩ := List.mem_map.mp there
    cases channel <;> rfl
  have nothing : ∀ event ∈ ([] : List Event), event.isPart = true := fun _ there => absurd there List.not_mem_nil
  cases channel with
  | reasoning =>
      refine ⟨[.part .reasoningPartAdded item.id item.index ""],_,?_,rfl,?_⟩
      · intro first id index
        rw [opening,id,index]
      · intro texts
        simp only [List.forall_mem_append,List.forall_mem_cons]
        exact ⟨⟨⟨rfl,nothing⟩,said texts⟩,rfl,rfl,nothing⟩
  | content =>
      refine ⟨[.part .contentPartAdded item.id item.index ""],_,?_,rfl,?_⟩
      · intro first id index
        rw [opening,id,index]
      · intro texts
        simp only [List.forall_mem_append,List.forall_mem_cons]
        exact ⟨⟨⟨rfl,nothing⟩,said texts⟩,rfl,rfl,nothing⟩
  | tool key =>
      refine ⟨[],_,?_,rfl,?_⟩
      · intro first id index
        rw [opening,index]
      · intro texts
        simp only [List.forall_mem_append,List.forall_mem_cons]
        exact ⟨⟨nothing,said texts⟩,rfl,nothing⟩

-- Of the closing events of many items those with one id are the closing events of its item.
theorem eventsOf_closing {entries : List (Channel × OpenTool)} (distinct : (entries.map fun entry => entry.2.id).Nodup)
    {entry : Channel × OpenTool} (there : entry ∈ entries) :
    eventsOf entry.2.id (entries.flatMap fun entry => entry.1.closing entry.2) = entry.1.closing entry.2 := by
  induction entries with
  | nil => cases there
  | cons head rest ih =>
      obtain ⟨unique,distinct⟩ := List.nodup_cons.mp distinct
      rw [List.flatMap_cons,eventsOf_append]
      rcases List.mem_cons.mp there with rfl | later
      · have others : eventsOf entry.2.id (rest.flatMap fun entry => entry.1.closing entry.2) = [] := by
          apply eventsOf_other
          intro event mentioned same
          obtain ⟨other,there,closes⟩ := List.mem_flatMap.mp mentioned
          rw [other.1.closing_ids other.2 event closes] at same
          exact unique (List.mem_map.mpr ⟨other,there,Option.some.inj same⟩)
        rw [others,eventsOf_same (entry.1.closing_ids entry.2),List.append_nil]
      · have first : eventsOf entry.2.id (head.1.closing head.2) = [] := by
          apply eventsOf_other
          intro event closes same
          rw [head.1.closing_ids head.2 event closes] at same
          exact unique (List.mem_map.mpr ⟨entry,later,(Option.some.inj same).symm⟩)
        rw [first,ih distinct later,List.nil_append]

namespace Brackets

theorem distinct_ids (brackets : Brackets uuids pieces t) : (t.openItems.map fun entry => entry.2.id).Nodup := by
  have ordered := t.openItems_ordered
  rw [List.pairwise_map] at ordered
  rw [List.Nodup,List.pairwise_map]
  refine ordered.imp_of_mem ?_
  rintro ⟨one,item⟩ ⟨two,other⟩ first second before same
  have equal := brackets.apart one two item other (t.mem_openItems.mp first) (t.mem_openItems.mp second) same
  exact Channel.before_irrefl _ (equal ▸ before)

-- The whole stream of one item, when the events that close the items stand last.
theorem item_bracketed (brackets : Brackets uuids pieces t) {channel : Channel} {item : OpenTool}
    (found : t.view channel = some item) {events last : List Event} (quiet : ∀ event ∈ last, event.itemId = none)
    (told : events = t.events ++ (t.openItems.flatMap fun entry => entry.1.closing entry.2) ++ last) :
    (channel.ended item).Bracketed events := by
  have closes := eventsOf_closing brackets.distinct_ids (t.mem_openItems.mpr found)
  have silent : eventsOf item.id last = [] := by
    apply eventsOf_other
    intro event there
    rw [quiet event there]
    nofun
  obtain ⟨first,id,index,_,before⟩ := (brackets.opened channel item found).told
  have all : eventsOf item.id events =
      channel.opening first ++ (heard channel pieces).map (channel.delta item) ++ channel.closing item := by
    rw [told,eventsOf_append,eventsOf_append,before,closes,silent,List.append_nil]
  obtain ⟨whole,some_,same⟩ := channel.closing_texts item
  obtain ⟨opens,opened⟩ := channel.opening_texts first
  obtain ⟨deltas,others⟩ := channel.delta_texts item (heard channel pieces)
  constructor
  · obtain ⟨lead,ends,added,done,parts⟩ := channel.between item
    refine ⟨item.index,channel.opened first,lead ++ (heard channel pieces).map (channel.delta item) ++ ends,?_,parts _,?_⟩
    · rw [channel.ended_id,← id]
      cases channel <;> rfl
    · rw [channel.ended_id,all,added first id index,done]
      simp only [List.cons_append,List.append_assoc]
  · rw [channel.ended_id,channel.ended_text,all,List.filterMap_append,List.filterMap_append,opens,deltas,whole,
      List.nil_append,List.append_nil]
    exact (brackets.opened channel item found).heard.symm
  · rw [channel.ended_id,channel.ended_text,all,List.filterMap_append,List.filterMap_append,opened,others]
    exact ⟨some_,same⟩

end Brackets

end

-- A stream that has not ended: its events are numbered, and none is the last.
structure Running (t : Translator) : Prop where
  counted : t.out.map (·.1) = List.range t.seq
  unended : ∀ event ∈ t.events, event.terminal = false

namespace Running
section
variable {uuids : Uuids} {t : Translator}

theorem numbers (counted : t.out.map (·.1) = List.range t.seq) (event : Event) :
    (t.event event).out.map (·.1) = List.range (t.event event).out.length := by
  have length : t.out.length = t.seq := by simpa using congrArg List.length counted
  simp [Translator.event,counted,length,List.range_succ]

theorem event (running : Running t) {event : Event} (open_ : event.terminal = false) : Running (t.event event) := by
  constructor
  · simp [Translator.event,running.counted,List.range_succ]
  · intro other there
    rw [Translator.event_events] at there
    rcases List.mem_append.mp there with before | last
    · exact running.unended other before
    · rw [List.mem_singleton.mp last]
      exact open_

-- What a step changes besides the events does not matter here.
theorem same (running : Running t) {u : Translator} (out : u.out = t.out) (seq : u.seq = t.seq) : Running u := by
  constructor
  · rw [out,seq]
    exact running.counted
  · unfold Translator.events
    rw [out]
    exact running.unended

theorem steady (uuids : Uuids) : Translator.Steady uuids Running := by
  constructor
  · intro t text running
    unfold Translator.onReasoning
    split
    · refine Running.event (Running.event (Running.event (running.same ?_ ?_) ?_) ?_) ?_ <;> rfl
    · refine Running.event (running.same ?_ ?_) ?_ <;> rfl
  · intro t text running
    unfold Translator.onContent
    split
    · refine Running.event (Running.event (Running.event (running.same ?_ ?_) ?_) ?_) ?_ <;> rfl
    · refine Running.event (running.same ?_ ?_) ?_ <;> rfl
  · intro t key drawn tool _ _ _ _ running
    refine Running.event (running.same ?_ ?_) ?_ <;> rfl
  · intro t key tool name _ _ running
    exact running.same rfl rfl
  · intro t key tool text _ running
    refine Running.event (running.same ?_ ?_) ?_ <;> rfl
  · intro t usage finishReason running
    exact running.same rfl rfl

theorem closeTool (running : Running t) (tools : List OpenTool) : Running (tools.foldl Translator.closeTool t) := by
  induction tools generalizing t with
  | nil => exact running
  | cons tool rest ih => exact ih ((running.event rfl).event rfl)

theorem closeAll (running : Running t) : Running t.closeAll := by
  have thought : Running t.closeReasoning := by
    unfold Translator.closeReasoning
    split
    · exact running
    · exact ((running.event rfl).event rfl).event rfl
  have said : Running t.closeReasoning.closeMessage := by
    unfold Translator.closeMessage
    split
    · exact thought
    · exact ((thought.event rfl).event rfl).event rfl
  exact said.closeTool _

end
end Running

theorem translate_running (uuids : Uuids) (responseId : String) (chunks : List Chunk) :
    Running (Translator.translate uuids responseId chunks) := by
  have begins : Running (Translator.begin responseId) := ⟨rfl,fun _ there => absurd there List.not_mem_nil⟩
  exact (Running.steady uuids).translate ((begins.event rfl).event rfl) chunks

-- A run, closed and ended with the list of its items.
theorem Brackets.bracketed {uuids : Uuids} {pieces : List Piece} {t : Translator} (brackets : Brackets uuids pieces t)
    (running : Running t) {kind : Envelope} {response : Response} (listed : response.output = t.collectOutput)
    (terminal : kind.terminal = true) : response.Bracketed (t.closeAll.event (.envelope kind response)).out := by
  have told : (t.closeAll.event (.envelope kind response)).out.map (·.2) =
      t.events ++ (t.openItems.flatMap fun entry => entry.1.closing entry.2) ++ [.envelope kind response] := by
    rw [← t.closing_open]
    simp only [Translator.event,List.map_append,Translator.closeAll_events]
    rfl
  have output : response.output = t.openItems.map fun entry => entry.1.ended entry.2 := listed.trans t.collectOutput_open
  have ids : response.output.map Item.id = t.openItems.map fun entry => entry.2.id := by
    rw [output,List.map_map]
    exact List.map_congr_left fun entry _ => entry.1.ended_id entry.2
  constructor
  · exact Running.numbers running.closeAll.counted _
  · refine ⟨t.closeAll.events,kind,?_,terminal,running.closeAll.unended⟩
    exact Translator.event_events _ _
  · rw [ids]
    exact brackets.distinct_ids
  · intro item there
    rw [output] at there
    obtain ⟨entry,open_,rfl⟩ := List.mem_map.mp there
    refine brackets.item_bracketed (t.mem_openItems.mp open_) ?_ told
    intro event last
    rw [List.mem_singleton.mp last]
    rfl
  · intro event there id mentions
    rw [told] at there
    rw [ids]
    rcases List.mem_append.mp there with inside | last
    · rcases List.mem_append.mp inside with before | closing
      · obtain ⟨channel,item,found,rfl⟩ := brackets.mentioned event before id mentions
        exact List.mem_map.mpr ⟨(channel,item),t.mem_openItems.mpr found,rfl⟩
      · obtain ⟨entry,open_,closes⟩ := List.mem_flatMap.mp closing
        rw [entry.1.closing_ids entry.2 event closes] at mentions
        exact List.mem_map.mpr ⟨entry,open_,Option.some.inj mentions⟩
    · rw [List.mem_singleton.mp last] at mentions
      cases mentions

end Modelship.Responses

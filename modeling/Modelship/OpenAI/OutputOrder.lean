import Modelship.OpenAI.Shaping

namespace Modelship.Responses
open Foundation

def Event.addedAt : Event → Option (Nat × String)
  | .added index item => some (index,item.id)
  | _ => none

def Event.doneAt : Event → Option (Nat × String)
  | .done index item => some (index,item.id)
  | _ => none

-- The positions in the output are the indices that the events gave the items,
-- and the items are done in that order.
structure Aligned (output : List Item) (events : List Event) : Prop where
  added : ∀ index id, (index,id) ∈ events.filterMap Event.addedAt ↔ (output.map Item.id)[index]? = some id
  done : ∀ index id, (index,id) ∈ events.filterMap Event.doneAt ↔ (output.map Item.id)[index]? = some id
  ordered : ((events.filterMap Event.doneAt).map (·.1)).Pairwise (· < ·)

-- The stream first speaks on its channels in the order of the output.
def InOrder (chunks : List Chunk) : Prop := (firstSeen (chunks.flatMap Chunk.pieces)).Pairwise Channel.before

instance : DecidablePred InOrder := fun chunks =>
  inferInstanceAs (Decidable ((firstSeen (chunks.flatMap Chunk.pieces)).Pairwise Channel.before))

theorem places_self {seen : List Channel} (distinct : seen.Nodup) : seen.map seen.idxOf = List.range seen.length := by
  apply List.ext_getElem
  · simp
  · intro place _ _
    simp [distinct.idxOf_getElem]

-- Sorting a list changes no place exactly where the list is sorted.
theorem places_kept {seen sorted : List Channel} (same : sorted.Perm seen) (distinct : seen.Nodup)
    (ordered : sorted.Pairwise Channel.before) :
    (sorted.map seen.idxOf).Pairwise (· < ·) ↔ seen.Pairwise Channel.before := by
  have places : (seen.map seen.idxOf).Pairwise (· < ·) := by
    rw [places_self distinct]
    exact List.pairwise_lt_range
  rw [List.pairwise_map] at places ⊢
  constructor
  · intro increasing
    have equal : sorted = seen := same.eq_of_pairwise
      (fun one two _ _ less more => absurd less (Nat.lt_asymm more)) increasing places
    rw [← equal]
    exact ordered
  · intro inOrder
    have equal : sorted = seen := same.eq_of_pairwise
      (fun one two _ _ less more => absurd more (Channel.before_asymm less)) ordered inOrder
    rw [equal]
    exact places

theorem places_range {seen sorted : List Channel} (same : sorted.Perm seen) (distinct : seen.Nodup)
    (increasing : (sorted.map seen.idxOf).Pairwise (· < ·)) : sorted.map seen.idxOf = List.range sorted.length := by
  have perm := same.map seen.idxOf
  rw [places_self distinct,← same.length_eq] at perm
  exact perm.eq_of_pairwise (fun one two _ _ less more => absurd less (Nat.lt_asymm more)) increasing
    List.pairwise_lt_range

-- Entries that carry their own places.
theorem mem_places {entries : List (Nat × String)} (placed : entries.map (·.1) = List.range entries.length)
    (index : Nat) (id : String) : (index,id) ∈ entries ↔ (entries.map (·.2))[index]? = some id := by
  have own : ∀ (place : Nat) (entry : Nat × String), entries[place]? = some entry → entry.1 = place := by
    intro place entry found
    have first := congrArg (·[place]?) placed
    simp only [List.getElem?_map,found,Option.map_some] at first
    obtain ⟨bound,same⟩ := List.getElem?_eq_some_iff.mp first.symm
    rw [List.getElem_range] at same
    exact same.symm
  rw [List.mem_iff_getElem?,List.getElem?_map]
  constructor
  · rintro ⟨place,found⟩
    have same : index = place := own place _ found
    rw [same,found]
    rfl
  · intro there
    obtain ⟨entry,found,rfl⟩ := Option.map_eq_some_iff.mp there
    have same := own index entry found
    exact ⟨index,by rw [found,← same]⟩

namespace Brackets
section
variable {uuids : Uuids} {pieces : List Piece} {t : Translator}

theorem openItems_perm (brackets : Brackets uuids pieces t) : (t.openItems.map Prod.fst).Perm (firstSeen pieces) := by
  have distinct : (t.openItems.map Prod.fst).Nodup := by
    refine List.Pairwise.imp ?_ t.openItems_ordered
    rintro one _ before rfl
    exact one.before_irrefl before
  refine (List.perm_ext_iff_of_nodup distinct (firstSeen_nodup pieces)).mpr ?_
  intro channel
  rw [← brackets.seen,Option.isSome_iff_exists,List.mem_map]
  constructor
  · rintro ⟨entry,there,rfl⟩
    exact ⟨entry.2,t.mem_openItems.mp there⟩
  · rintro ⟨item,found⟩
    exact ⟨(channel,item),t.mem_openItems.mpr found,rfl⟩

-- Each item stands under the place of its channel in the stream.
theorem indices (brackets : Brackets uuids pieces t) :
    t.openItems.map (fun entry => entry.2.index) = (t.openItems.map Prod.fst).map (firstSeen pieces).idxOf := by
  rw [List.map_map]
  apply List.map_congr_left
  intro entry there
  exact (brackets.opened _ _ (t.mem_openItems.mp there)).placed.symm

-- What the stream says before it is closed about an item: that it is added, and its deltas.
theorem source (brackets : Brackets uuids pieces t) {event : Event} (there : event ∈ t.events) {id : String}
    (mentions : event.itemId = some id) : ∃ entry ∈ t.openItems, entry.2.id = id ∧ event.doneAt = none ∧
      ∀ place, event.addedAt = some place → place = (entry.2.index,entry.2.id) := by
  obtain ⟨channel,item,found,rfl⟩ := brackets.mentioned event there id mentions
  obtain ⟨first,same,index,_,told⟩ := (brackets.opened channel item found).told
  refine ⟨(channel,item),t.mem_openItems.mpr found,rfl,?_⟩
  have mine : event ∈ eventsOf item.id t.events := List.mem_filter.mpr ⟨there,by simpa using mentions⟩
  rw [told] at mine
  rcases List.mem_append.mp mine with opening | said
  · cases channel <;> simp only [Channel.opening,List.mem_cons,List.not_mem_nil,or_false] at opening
    · rcases opening with rfl | rfl <;> simp [Event.doneAt,Event.addedAt,Channel.opened,Item.id,index,same]
    · rcases opening with rfl | rfl <;> simp [Event.doneAt,Event.addedAt,Channel.opened,Item.id,index,same]
    · subst event
      simp [Event.doneAt,Event.addedAt,Channel.opened,Item.id,index,same]
  · obtain ⟨text,_,rfl⟩ := List.mem_map.mp said
    refine ⟨by cases channel <;> rfl,?_⟩
    intro place added
    cases channel <;> cases added

theorem adds (brackets : Brackets uuids pieces t) {entry : Channel × OpenTool} (there : entry ∈ t.openItems) :
    (entry.2.index,entry.2.id) ∈ t.events.filterMap Event.addedAt := by
  obtain ⟨first,same,index,_,told⟩ := (brackets.opened _ _ (t.mem_openItems.mp there)).told
  have present : Event.added first.index (entry.1.opened first) ∈ eventsOf entry.2.id t.events := by
    rw [told]
    exact List.mem_append_left _ List.mem_cons_self
  refine List.mem_filterMap.mpr ⟨_,(List.mem_filter.mp present).1,?_⟩
  rw [← index,← same]
  cases entry.1 <;> rfl

theorem closed_places (channel : Channel) (item : OpenTool) :
    (channel.closing item).filterMap Event.doneAt = [(item.index,item.id)] ∧
      (channel.closing item).filterMap Event.addedAt = [] := by
  cases channel <;> exact ⟨rfl,rfl⟩

def places (t : Translator) : List (Nat × String) := t.openItems.map fun entry => (entry.2.index,entry.2.id)

section
variable {events : List Event} {kind : Envelope} {response : Response}

theorem done_places (brackets : Brackets uuids pieces t)
    (told : events = t.events ++ (t.openItems.flatMap fun entry => entry.1.closing entry.2) ++ [.envelope kind response]) :
    events.filterMap Event.doneAt = places t := by
  have before : t.events.filterMap Event.doneAt = [] := by
    rw [List.filterMap_eq_nil_iff]
    intro event there
    cases mentions : event.itemId with
    | none => cases event <;> first | rfl | cases mentions
    | some id =>
        obtain ⟨_,_,_,quiet,_⟩ := brackets.source there mentions
        exact quiet
  rw [told,List.filterMap_append,List.filterMap_append,before,List.filterMap_flatMap]
  simp only [closed_places,← List.map_eq_flatMap]
  exact List.append_nil _

theorem added_places (brackets : Brackets uuids pieces t)
    (told : events = t.events ++ (t.openItems.flatMap fun entry => entry.1.closing entry.2) ++ [.envelope kind response])
    (place : Nat × String) : place ∈ events.filterMap Event.addedAt ↔ place ∈ places t := by
  have closing : (t.openItems.flatMap fun entry => entry.1.closing entry.2).filterMap Event.addedAt = [] := by
    rw [List.filterMap_flatMap]
    simp [closed_places]
  have all : events.filterMap Event.addedAt = t.events.filterMap Event.addedAt := by
    rw [told,List.filterMap_append,List.filterMap_append,closing,List.append_nil]
    exact List.append_nil _
  rw [all]
  constructor
  · intro added
    obtain ⟨event,there,adds⟩ := List.mem_filterMap.mp added
    cases event with
    | added index item =>
        obtain ⟨entry,open_,_,_,same⟩ := brackets.source there rfl
        exact List.mem_map.mpr ⟨entry,open_,(same place adds).symm⟩
    | _ => cases adds
  · intro there
    obtain ⟨entry,open_,rfl⟩ := List.mem_map.mp there
    exact brackets.adds open_

-- Ended with the list of its items, a stream is aligned exactly where it spoke in order.
theorem aligned_iff (brackets : Brackets uuids pieces t)
    (told : events = t.events ++ (t.openItems.flatMap fun entry => entry.1.closing entry.2) ++ [.envelope kind response]) :
    Aligned t.collectOutput events ↔ (firstSeen pieces).Pairwise Channel.before := by
  have done := brackets.done_places told
  have ids : t.collectOutput.map Item.id = (places t).map (·.2) := by
    rw [t.collectOutput_open,List.map_map,places,List.map_map]
    exact List.map_congr_left fun entry _ => entry.1.ended_id entry.2
  have indices : (places t).map (·.1) = (t.openItems.map Prod.fst).map (firstSeen pieces).idxOf := by
    rw [← brackets.indices,places,List.map_map]
    rfl
  have kept := places_kept brackets.openItems_perm (firstSeen_nodup pieces) t.openItems_ordered
  rw [← kept,← indices]
  constructor
  · intro aligned
    rw [← done]
    exact aligned.ordered
  · intro increasing
    have placed : (places t).map (·.1) = List.range (places t).length := by
      have range := places_range brackets.openItems_perm (firstSeen_nodup pieces) (indices ▸ increasing)
      rw [indices,range]
      simp [places]
    constructor
    · intro index id
      rw [brackets.added_places told,ids]
      exact mem_places placed index id
    · intro index id
      rw [done,ids]
      exact mem_places placed index id
    · rw [done]
      exact increasing

end
end
end Brackets

-- The places in the output are the places in the stream exactly where the
-- channels are first heard in the order of the output.
theorem positions_agree (uuids : Uuids) (responseId : String) (chunks : List Chunk) :
    let t := Translator.translate uuids responseId chunks
    (Aligned t.finish.output t.finish.events ↔ InOrder chunks) ∧
      ∀ message code, (Aligned (t.fail message code).output (t.fail message code).events ↔ InOrder chunks) := by
  intro t
  have brackets := translate_brackets uuids responseId chunks
  refine ⟨?_,?_⟩
  · obtain ⟨kind,response,_,_,out⟩ := t.finish_events
    rw [t.closing_open] at out
    rw [finish_output]
    exact brackets.aligned_iff out
  · intro message code
    obtain ⟨response,_,out⟩ := t.fail_events message code
    rw [t.closing_open] at out
    rw [fail_output]
    exact brackets.aligned_iff out

-- An answer that comes before its thoughts is listed, and done, after them.
def lateThoughts : List Chunk :=
  [⟨none,[⟨⟨none,some "so",[]⟩,none⟩]⟩,⟨none,[⟨⟨some "why",none,[]⟩,some "stop"⟩]⟩]

theorem late_thoughts_come_first :
    (Translator.translate countedUuids "resp" lateThoughts).finish.events.filterMap Event.doneAt =
      [(1,"rs_u"),(0,"msg_")] ∧
    (Translator.translate countedUuids "resp" lateThoughts).finish.output.map Item.id = ["rs_u","msg_"] ∧
    ¬Aligned (Translator.translate countedUuids "resp" lateThoughts).finish.output
      (Translator.translate countedUuids "resp" lateThoughts).finish.events := by
  have done : (Translator.translate countedUuids "resp" lateThoughts).finish.events.filterMap Event.doneAt =
      [(1,"rs_u"),(0,"msg_")] := by decide +kernel
  refine ⟨done,by decide +kernel,?_⟩
  intro aligned
  have ordered := aligned.ordered
  rw [done] at ordered
  revert ordered
  decide

end Modelship.Responses

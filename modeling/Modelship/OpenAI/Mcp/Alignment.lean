import Modelship.Foundation.Slots
import Modelship.OpenAI.Mcp.Turn

namespace Modelship.Mcp
open Foundation Responses Stitcher

-- An item the loop makes itself for a call to an MCP server.
def served : Item → Bool
  | .mcpCall _ _ _ _ _ _ _ _ | .mcpApprovalRequest _ _ _ _ => true
  | _ => false

section
variable {toolIndex : ToolIndex}

theorem positioned_byPosition (base : Nat) (t : Translator) :
    positioned toolIndex base t = byPosition (own toolIndex) t.closing base := by
  unfold positioned byPosition
  rw [← t.closing_output,List.zipIdx_map,List.filter_map,List.map_map,List.zipIdx_eq_map_add,List.filter_map,
    List.map_map]
  apply List.map_congr_left
  intro entry _
  simp [Nat.add_comm]

-- The calls for MCP servers are the rest of a turn's items.
theorem served_byIndex (base : Nat) (t : Translator) :
    (t.sorted.filter (forServer toolIndex)).map (fun tool => tool.index + base) =
      (byIndex (fun item => !own toolIndex item) t.closing base).map Prod.fst := by
  have tools : (t.sorted.map fun tool => (tool.index,Translator.closedTool tool)).filter
      (fun entry => !own toolIndex entry.2) = (t.sorted.filter (forServer toolIndex)).map fun tool =>
        (tool.index,Translator.closedTool tool) := by
    rw [List.filter_map]
    congr 1
    apply List.filter_congr
    intro tool _
    simp [own,forServer,Translator.closedTool]
  have texts : ((t.reasoning.toList.map fun item => (item.index,Translator.closedReasoning item)) ++
      t.message.toList.map fun item => (item.index,Translator.closedMessage item)).filter
        (fun entry => !own toolIndex entry.2) = [] := by
    cases t.reasoning <;> cases t.message <;> simp [own,Translator.closedReasoning,Translator.closedMessage]
  unfold byIndex Translator.closing
  rw [List.filter_append,texts,tools,List.nil_append,List.map_map,List.map_map]
  rfl

end

-- Only numbered events went out, with these items added and these done.
structure Emits (r : Run) (opened : List (Nat × String)) (items : List (Nat × Item)) (u : Run) : Prop where
  accumulator : u.accumulator = r.accumulator
  placed : u.placed = r.placed
  turns : u.turns = r.turns
  offset : u.stitcher.offset = r.stitcher.offset
  added : addeds u.stitcher.out = addeds r.stitcher.out ++ opened
  done : dones u.stitcher.out = dones r.stitcher.out ++ items
  calm : gathered envelopes u.stitcher.out = gathered envelopes r.stitcher.out
  counted : r.stitcher.out.map (·.1) = List.range r.stitcher.seq → u.stitcher.out.map (·.1) = List.range u.stitcher.seq

theorem emit_emits (r : Run) (event : Event) (calm : envelopes event = []) :
    Emits r (opens event) (closes event) (r.emit event) := by
  have sent := emit_sent r.stitcher event calm
  constructor
  case added => exact sent.added
  case done => exact sent.done
  case calm => exact sent.calm
  case counted => exact sent.counted
  all_goals rfl

theorem Emits.trans {r u v : Run} {one two : List (Nat × String)} {three four : List (Nat × Item)}
    (first : Emits r one three u) (second : Emits u two four v) : Emits r (one ++ two) (three ++ four) v := by
  constructor
  · rw [second.accumulator,first.accumulator]
  · rw [second.placed,first.placed]
  · rw [second.turns,first.turns]
  · rw [second.offset,first.offset]
  · rw [second.added,first.added,List.append_assoc]
  · rw [second.done,first.done,List.append_assoc]
  · rw [second.calm,first.calm]
  · exact fun counted => second.counted (first.counted counted)

theorem mint_emits (r : Run) : Emits r [] [] r.mint := by
  constructor
  case added => exact (List.append_nil _).symm
  case done => exact (List.append_nil _).symm
  case counted => exact id
  all_goals rfl

theorem executeMcpCall_emits (env : Environment) (r : Run) (outerId : String) (index : Nat) (name arguments : String)
    (spec : McpToolSpec) (approvalRequestId : Option String) :
    served (executeMcpCall env r outerId index name arguments spec approvalRequestId).2 = true ∧
      (executeMcpCall env r outerId index name arguments spec approvalRequestId).2.id = outerId ∧
      Emits r [] [(index,(executeMcpCall env r outerId index name arguments spec approvalRequestId).2)]
        (executeMcpCall env r outerId index name arguments spec approvalRequestId).1 := by
  have begun := emit_emits r (.part .mcpCallInProgress outerId index "") rfl
  unfold executeMcpCall
  simp only
  have called : Emits r [] [] {r.emit (.part .mcpCallInProgress outerId index "") with
      calls := (r.emit (.part .mcpCallInProgress outerId index "")).calls ++
        [⟨spec,name,arguments,approvalRequestId⟩]} :=
    ⟨begun.accumulator,begun.placed,begun.turns,begun.offset,begun.added,begun.done,begun.calm,begun.counted⟩
  split
  · exact ⟨rfl,rfl,(called.trans (emit_emits _ (.part .mcpCallCompleted outerId index "") rfl)).trans
      (emit_emits _ (.done index _) rfl)⟩
  · exact ⟨rfl,rfl,(called.trans (emit_emits _ (.part .mcpCallFailed outerId index "") rfl)).trans
      (emit_emits _ (.done index _) rfl)⟩

-- Calls for MCP servers are carried out, each in its slot.
structure Carried (r : Run) (items : List (Nat × Item)) (u : Run) : Prop where
  accumulator : u.accumulator = fill r.accumulator items
  placed : u.placed = r.placed ++ items
  turns : u.turns = r.turns
  offset : u.stitcher.offset = r.stitcher.offset
  done : dones u.stitcher.out = dones r.stitcher.out ++ items
  added : ∀ one ∈ addeds u.stitcher.out, one ∈ addeds r.stitcher.out ∨ ∃ item, (one.1,item) ∈ items ∧ item.id = one.2
  calm : gathered envelopes u.stitcher.out = gathered envelopes r.stitcher.out
  counted : r.stitcher.out.map (·.1) = List.range r.stitcher.seq → u.stitcher.out.map (·.1) = List.range u.stitcher.seq

theorem Carried.refl (r : Run) : Carried r [] r := by
  constructor
  case added => exact fun one present => .inl present
  case counted => exact id
  case placed => exact (List.append_nil _).symm
  case done => exact (List.append_nil _).symm
  all_goals rfl

theorem Carried.trans {r u v : Run} {one two : List (Nat × Item)} (first : Carried r one u) (second : Carried u two v) :
    Carried r (one ++ two) v := by
  constructor
  · rw [second.accumulator,first.accumulator,fill_append]
  · rw [second.placed,first.placed,List.append_assoc]
  · rw [second.turns,first.turns]
  · rw [second.offset,first.offset]
  · rw [second.done,first.done,List.append_assoc]
  · intro item present
    rcases second.added item present with before | ⟨later,there,id⟩
    · rcases first.added item before with prior | ⟨earlier,there,id⟩
      · exact .inl prior
      · exact .inr ⟨earlier,List.mem_append_left _ there,id⟩
    · exact .inr ⟨later,List.mem_append_right _ there,id⟩
  · rw [second.calm,first.calm]
  · exact fun counted => second.counted (first.counted counted)

theorem Emits.place {r u : Run} {opened : List (Nat × String)} {index : Nat} {item : Item}
    (emits : Emits r opened [(index,item)] u) (only : ∀ one ∈ opened, one = (index,item.id)) :
    Carried r [(index,item)] (u.place index item) := by
  constructor
  · rw [← emits.accumulator]
    rfl
  · rw [← emits.placed]
    rfl
  · exact emits.turns
  · exact emits.offset
  · exact emits.done
  · intro one present
    change one ∈ addeds u.stitcher.out at present
    rw [emits.added] at present
    rcases List.mem_append.mp present with before | now
    · exact .inl before
    · rw [only one now]
      exact .inr ⟨item,List.mem_singleton_self _,rfl⟩
  · exact emits.calm
  · exact emits.counted

section
variable {toolIndex : ToolIndex}

theorem settleOne_carried (env : Environment) {base : Nat} {tool : OpenTool} {buf : BufferedCall}
    (closed : Closed toolIndex base tool buf) (theirs : forServer toolIndex tool = true) (r : Run) :
    ∃ item, served item = true ∧ (buf.classification = some .mcp → item.id = buf.outerId) ∧
      Carried r [(tool.index + base,item)] (settleOne env r buf) := by
  obtain ⟨classification,classified,set_,slot⟩ := closed.told.slot
  have stranger : classification ≠ .client := by
    intro client
    rw [client] at set_
    rw [closed.told.client.mp set_] at theirs
    cases theirs
  have known : ∃ spec, buf.spec = some spec := by
    rcases classify_cases classified with ⟨client,_⟩ | ⟨server,_,_,same,_⟩
    · exact absurd client stranger
    · exact ⟨server,same⟩
  obtain ⟨spec,known⟩ := known
  unfold settleOne
  rw [known,slot stranger]
  simp only
  split
  · rename_i approval
    have emits := ((mint_emits r).trans (emit_emits r.mint (.added (tool.index + base) (.mcpApprovalRequest
      ("mcpr_" ++ env.uuids.draw r.stitcher.minted) buf.name buf.arguments spec.serverLabel)) rfl)).trans
      (emit_emits _ (.done (tool.index + base) (.mcpApprovalRequest
        ("mcpr_" ++ env.uuids.draw r.stitcher.minted) buf.name buf.arguments spec.serverLabel)) rfl)
    refine ⟨_,?_,?_,emits.place (by simp [opens,Item.id])⟩
    · rfl
    · intro other
      rw [approval] at other
      cases other
  · obtain ⟨ours,id,emits⟩ := executeMcpCall_emits env r buf.outerId (tool.index + base) buf.name buf.arguments spec none
    exact ⟨_,ours,fun _ => id,emits.place (by simp)⟩

-- The calls of a turn, in their order.
theorem settle_carried (env : Environment) {base : Nat} {tools : List OpenTool} {bufs : List BufferedCall}
    (closed : List.Forall₂ (Closed toolIndex base) tools bufs) (theirs : ∀ tool ∈ tools, forServer toolIndex tool = true)
    (r : Run) : ∃ items, items.map Prod.fst = tools.map (fun tool => tool.index + base) ∧
      (∀ entry ∈ items, served entry.2 = true) ∧ Carried r items (bufs.foldl (settleOne env) r) ∧
      ∀ buf ∈ bufs, buf.classification = some .mcp → ∀ index, buf.index = some index →
        ∃ item, (index,item) ∈ items ∧ item.id = buf.outerId := by
  induction closed generalizing r with
  | nil => exact ⟨[],rfl,by simp,.refl r,by simp⟩
  | @cons tool buf tools bufs first rest ih =>
      obtain ⟨item,ours,id,one⟩ := settleOne_carried env first (theirs tool List.mem_cons_self) r
      obtain ⟨items,indices,all,more,found⟩ := ih (fun other there => theirs other (List.mem_cons_of_mem _ there))
        (settleOne env r buf)
      refine ⟨(tool.index + base,item) :: items,by rw [List.map_cons,indices]; rfl,?_,one.trans more,?_⟩
      · intro entry present
        rcases List.mem_cons.mp present with rfl | later
        · exact ours
        · exact all entry later
      · intro other present runs index slot
        rcases List.mem_cons.mp present with rfl | later
        · obtain ⟨classification,_,set_,given⟩ := first.told.slot
          rw [runs] at set_
          cases set_
          rw [given (by simp)] at slot
          cases slot
          exact ⟨item,List.mem_cons_self,id runs⟩
        · obtain ⟨after,there,same⟩ := found other later runs index slot
          exact ⟨after,List.mem_cons_of_mem _ there,same⟩

-- A turn is taken over: its own items stand by their position, those made for its MCP
-- calls by their index.
structure Took (toolIndex : ToolIndex) (r : Run) (t : Translator) (items : List (Nat × Item)) (u : Run) : Prop where
  indices : items.map Prod.fst = (byIndex (fun item => !own toolIndex item) t.closing r.stitcher.offset).map Prod.fst
  served : ∀ entry ∈ items, served entry.2 = true
  accumulator : u.accumulator = fill (r.accumulator ++ List.replicate t.closing.length none)
    (byPosition (own toolIndex) t.closing r.stitcher.offset ++ items)
  placed : u.placed = r.placed ++ (byPosition (own toolIndex) t.closing r.stitcher.offset ++ items)
  turns : u.turns = r.turns + 1
  offset : u.stitcher.offset = r.stitcher.offset + t.closing.length
  done : dones u.stitcher.out = dones r.stitcher.out ++
    (byIndex (own toolIndex) t.closing r.stitcher.offset ++ items)
  added : ∀ one ∈ addeds u.stitcher.out, one ∈ addeds r.stitcher.out ∨
    ∃ item, (one.1,item) ∈ dones u.stitcher.out ∧ item.id = one.2
  calm : gathered envelopes u.stitcher.out = gathered envelopes r.stitcher.out
  counted : r.stitcher.out.map (·.1) = List.range r.stitcher.seq → u.stitcher.out.map (·.1) = List.range u.stitcher.seq

theorem places_carried (entries : List (Nat × Item)) (r : Run) :
    entries.foldl (fun r placed => r.place placed.1 placed.2) r =
      {r with accumulator := fill r.accumulator entries,placed := r.placed ++ entries} := by
  induction entries generalizing r with
  | nil => simp
  | cons entry rest ih =>
      rw [List.foldl_cons,ih]
      simp [Run.place,fill]

theorem takeOver_took (env : Environment) {r : Run} {t : Translator} {s : Stitcher}
    (turned : Turned toolIndex r.stitcher t s) : ∃ items, Took toolIndex r t items (takeOver env {r with stitcher := s}) := by
  have length : s.turnOutput.length + s.pendingMcpCalls.length = t.closing.length := by
    rw [turned.output,positioned_byPosition,← turned.pending.length_eq]
    have served : (t.sorted.filter (forServer toolIndex)).length =
        (byIndex (fun item => !own toolIndex item) t.closing r.stitcher.offset).length := by
      have same : (t.sorted.filter (forServer toolIndex)).map (fun tool => tool.index + r.stitcher.offset) = _ :=
        served_byIndex r.stitcher.offset t
      simpa using congrArg List.length same
    rw [served,split_length]
  obtain ⟨items,indices,ours,carried,runs⟩ := settle_carried env turned.pending
    (fun tool present => (List.mem_filter.mp present).2)
    {r with
      stitcher := s
      accumulator := fill (r.accumulator ++ List.replicate t.closing.length none) s.turnOutput
      placed := r.placed ++ s.turnOutput
      turns := r.turns + 1}
  have taken : takeOver env {r with stitcher := s} = s.pendingMcpCalls.foldl (settleOne env)
      {r with
        stitcher := s
        accumulator := fill (r.accumulator ++ List.replicate t.closing.length none) s.turnOutput
        placed := r.placed ++ s.turnOutput
        turns := r.turns + 1} := by
    unfold takeOver
    simp only [places_carried,length]
  rw [← taken] at carried
  have output : s.turnOutput = byPosition (own toolIndex) t.closing r.stitcher.offset := by
    rw [turned.output,positioned_byPosition]
  have own_ : dones s.out = dones r.stitcher.out ++ byIndex (own toolIndex) t.closing r.stitcher.offset := turned.done
  refine ⟨items,?_⟩
  constructor
  · rw [indices,served_byIndex]
  · exact ours
  · rw [carried.accumulator,fill_append,output]
  · rw [carried.placed,List.append_assoc,output]
  · exact carried.turns
  · rw [carried.offset,turned.offset]
  · rw [carried.done,own_,List.append_assoc]
  · intro one present
    rcases carried.added one present with before | ⟨item,there,id⟩
    · rcases turned.added one before with prior | ⟨item,there,id⟩ | ⟨buf,there,classified,index,id⟩
      · exact .inl prior
      · right
        refine ⟨item,?_,id⟩
        rw [carried.done]
        exact List.mem_append_left _ there
      · obtain ⟨item,made,same⟩ := runs buf there classified _ index
        right
        refine ⟨item,?_,same.trans id⟩
        rw [carried.done]
        exact List.mem_append_right _ made
    · right
      refine ⟨item,?_,id⟩
      rw [carried.done]
      exact List.mem_append_right _ there
  · rw [carried.calm,turned.calm]
  · exact fun counted => carried.counted (turned.counted counted)

end

-- The slots claimed so far are those of the accumulator.
structure Level (r : Run) : Prop where
  length : r.accumulator.length = r.stitcher.offset
  done : ∀ entry ∈ dones r.stitcher.out, entry.1 < r.stitcher.offset
  placed : ∀ entry ∈ r.placed, entry.1 < r.stitcher.offset

-- Output and indices agree: no slot is empty, each holds the item whose `done` event
-- carried its index, and no two items were put into one.
structure Agrees (r : Run) (output : List Item) : Prop where
  built : r.accumulator = output.map some
  done : ∀ index item, output[index]? = some item ↔ (index,item) ∈ dones r.stitcher.out
  once : ∀ index one two, (index,one) ∈ r.placed → (index,two) ∈ r.placed → one = two

-- Every item of a turn's own stands in the output where its index says.
def InOrder (toolIndex : ToolIndex) : Inner → Prop
  | .stream uuids responseId chunks _ =>
    InPlace (own toolIndex) (Translator.translate uuids responseId chunks).closing
  | .error _ => True

-- The list of slots says it all where none is empty.
theorem full_output {slots : List (Option Item)} (full : none ∉ slots) : ∃ output : List Item, slots = output.map some := by
  induction slots with
  | nil => exact ⟨[],rfl⟩
  | cons slot rest ih =>
      rw [List.mem_cons,not_or] at full
      obtain ⟨output,same⟩ := ih full.2
      cases slot with
      | none => exact absurd rfl full.1
      | some item => exact ⟨item :: output,by rw [same]; rfl⟩

theorem output_slot {output : List Item} {index : Nat} {item : Item} :
    (output.map some)[index]? = some (some item) ↔ output[index]? = some item := by
  rw [List.getElem?_map]
  simp

-- A turn's items are apart from each other and from those the loop makes.
theorem closing_distinct {uuids : Uuids} {t : Translator} (numbered : t.Numbered uuids) :
    (t.closing.map Prod.snd).Nodup := by
  have ids : (t.sorted.map (·.id)).Nodup := by
    have perm := t.sorted_perm.map (·.id)
    rw [List.map_map] at perm
    exact perm.nodup_iff.mpr numbered.ids
  have calls : (t.sorted.map Translator.closedTool).Nodup := by
    apply List.Nodup.of_map Item.id
    rw [List.map_map]
    exact ids
  have same : t.closing.map Prod.snd = t.collectOutput := t.closing_output
  rw [same,Translator.collectOutput]
  cases t.reasoning <;> cases t.message <;>
    simpa [Translator.closedReasoning,Translator.closedMessage,Translator.closedTool] using calls

theorem closing_unserved {t : Translator} {entry : Nat × Item} (present : entry ∈ t.closing) :
    served entry.2 = false := by
  unfold Translator.closing at present
  rcases List.mem_append.mp present with text | call
  · rcases List.mem_append.mp text with thought | said
    · obtain ⟨_,_,rfl⟩ := List.mem_map.mp thought
      rfl
    · obtain ⟨_,_,rfl⟩ := List.mem_map.mp said
      rfl
  · obtain ⟨_,_,rfl⟩ := List.mem_map.mp call
    rfl

section
variable {toolIndex : ToolIndex} {uuids : Uuids} {t : Translator} {r u : Run} {items : List (Nat × Item)}

theorem Took.bounds (took : Took toolIndex r t items u) (numbered : t.Numbered uuids) :
    (∀ entry ∈ byPosition (own toolIndex) t.closing r.stitcher.offset ++ items,
      r.stitcher.offset ≤ entry.1 ∧ entry.1 < u.stitcher.offset) ∧
    ∀ entry ∈ byIndex (own toolIndex) t.closing r.stitcher.offset ++ items,
      r.stitcher.offset ≤ entry.1 ∧ entry.1 < u.stitcher.offset := by
  have taken := Translator.closing_perm numbered
  have made : ∀ entry ∈ items, r.stitcher.offset ≤ entry.1 ∧ entry.1 < u.stitcher.offset := by
    intro entry present
    rw [took.offset]
    apply byIndex_bounds _ taken
    rw [← took.indices]
    exact List.mem_map.mpr ⟨entry,present,rfl⟩
  constructor
  · intro entry present
    rcases List.mem_append.mp present with plain | call
    · rw [took.offset]
      exact byPosition_bounds _ (List.mem_map.mpr ⟨entry,plain,rfl⟩)
    · exact made entry call
  · intro entry present
    rcases List.mem_append.mp present with plain | call
    · rw [took.offset]
      exact byIndex_bounds _ taken (List.mem_map.mpr ⟨entry,plain,rfl⟩)
    · exact made entry call

theorem Took.level (took : Took toolIndex r t items u) (numbered : t.Numbered uuids) (level : Level r) : Level u := by
  obtain ⟨placed,done⟩ := took.bounds numbered
  have more : r.stitcher.offset ≤ u.stitcher.offset := by
    rw [took.offset]
    exact Nat.le_add_right _ _
  constructor
  · rw [took.accumulator,fill_length,List.length_append,List.length_replicate,level.length,took.offset]
  · intro entry present
    rw [took.done] at present
    rcases List.mem_append.mp present with before | now
    · exact Nat.lt_of_lt_of_le (level.done entry before) more
    · exact (done entry now).2
  · intro entry present
    rw [took.placed] at present
    rcases List.mem_append.mp present with before | now
    · exact Nat.lt_of_lt_of_le (level.placed entry before) more
    · exact (placed entry now).2

-- Where no place is claimed twice, a turn fills its slots, each once.
theorem Took.fills (took : Took toolIndex r t items u) (numbered : t.Numbered uuids) (level : Level r)
    (unclaimed : Unclaimed (own toolIndex) t.closing) :
    ((byPosition (own toolIndex) t.closing r.stitcher.offset ++ items).map Prod.fst).Perm
      (List.range' r.accumulator.length t.closing.length) := by
  rw [List.map_append,took.indices,level.length]
  exact unclaimed_once r.stitcher.offset (Translator.closing_perm numbered) unclaimed

theorem Took.agrees (took : Took toolIndex r t items u) (numbered : t.Numbered uuids) (level : Level r)
    (place : InPlace (own toolIndex) t.closing) {output : List Item} (agrees : Agrees r output) :
    ∃ output, Agrees u output := by
  have taken := Translator.closing_perm numbered
  have distinct : (t.closing.map Prod.fst).Nodup := taken.nodup_iff.mpr List.nodup_range
  have fills := took.fills numbered level (inPlace_unclaimed distinct place)
  have full : none ∉ r.accumulator := by
    rw [agrees.built]
    simp
  have now : none ∉ u.accumulator := by
    rw [took.accumulator]
    exact fill_full fills full
  obtain ⟨after,built⟩ := full_output now
  refine ⟨after,built,?_,?_⟩
  · intro index item
    rw [← output_slot,← built,took.accumulator,fill_fresh fills,agrees.built,output_slot,agrees.done,took.done,
      inPlace_byIndex _ place]
    exact List.mem_append.symm
  · intro index one two first second
    rw [took.placed] at first second
    have apart : ∀ {item other}, (index,item) ∈ r.placed →
        (index,other) ∈ byPosition (own toolIndex) t.closing r.stitcher.offset ++ items → False := by
      intro item other before after
      have less := level.placed _ before
      have more := ((took.bounds numbered).1 _ after).1
      simp only at less more
      omega
    rcases List.mem_append.mp first with old | new
    · rcases List.mem_append.mp second with old_ | new_
      · exact agrees.once index one two old old_
      · exact (apart old new_).elim
    · rcases List.mem_append.mp second with old_ | new_
      · exact (apart old_ new).elim
      · have same := List.inj_on_of_nodup_map (fills.nodup_iff.mpr List.nodup_range') new new_ rfl
        exact congrArg Prod.snd same

-- A turn that agrees has its own items in place, and what was before it agreed.
theorem Took.inPlace (took : Took toolIndex r t items u) (numbered : t.Numbered uuids) (level : Level r)
    {output : List Item} (agrees : Agrees u output) : InPlace (own toolIndex) t.closing := by
  rintro ⟨⟨index,item⟩,position⟩ present ours
  have listed : (index,item) ∈ t.closing := List.fst_mem_of_mem_zipIdx present
  have done : (index + r.stitcher.offset,item) ∈ dones u.stitcher.out := by
    rw [took.done]
    apply List.mem_append_right
    apply List.mem_append_left
    exact List.mem_map.mpr ⟨_,List.mem_filter.mpr ⟨listed,ours⟩,rfl⟩
  have slot := output_slot.mpr ((agrees.done _ _).mpr done)
  rw [← agrees.built,took.accumulator] at slot
  rcases fill_some slot with put | before
  · rcases List.mem_append.mp put with plain | call
    · obtain ⟨⟨⟨other,found⟩,place⟩,there,equal⟩ := List.mem_map.mp plain
      simp only [Prod.mk.injEq] at equal
      obtain ⟨same,rfl⟩ := equal
      have here := (List.mem_filter.mp there).1
      have first := List.mk_mem_zipIdx_iff_getElem?.mp here
      have second := List.mk_mem_zipIdx_iff_getElem?.mp present
      have positions : place = position := by
        have inside : place < (t.closing.map Prod.snd).length := by
          rw [List.length_map]
          exact (List.getElem?_eq_some_iff.mp first).1
        apply (List.getElem?_inj inside (closing_distinct numbered)).mp
        rw [List.getElem?_map,List.getElem?_map,first,second]
        rfl
      simp only
      omega
    · have made := took.served _ call
      rw [closing_unserved listed] at made
      cases made
  · rw [List.getElem?_append_right (by rw [level.length]; omega),List.getElem?_replicate] at before
    split at before <;> cases before

theorem Took.before (took : Took toolIndex r t items u) (numbered : t.Numbered uuids) (level : Level r)
    {output : List Item} (agrees : Agrees u output) : Agrees r (output.take r.stitcher.offset) := by
  obtain ⟨placed,done⟩ := took.bounds numbered
  constructor
  · have kept : u.accumulator.take r.stitcher.offset = r.accumulator := by
      apply List.ext_getElem?
      intro index
      rw [List.getElem?_take]
      split
      · rename_i inside
        have missed : index ∉ (byPosition (own toolIndex) t.closing r.stitcher.offset ++ items).map Prod.fst := by
          intro hit
          obtain ⟨entry,there,rfl⟩ := List.mem_map.mp hit
          have more := (placed entry there).1
          omega
        rw [took.accumulator,fill_miss missed,List.getElem?_append_left (by rw [level.length]; exact inside)]
      · rename_i outside
        rw [List.getElem?_eq_none (by rw [level.length]; omega)]
    rw [← kept,agrees.built,List.map_take]
  · intro index item
    rw [List.getElem?_take]
    constructor
    · intro found
      split at found
      · rename_i inside
        have there := (agrees.done _ _).mp found
        rw [took.done] at there
        rcases List.mem_append.mp there with before | now
        · exact before
        · have more := (done _ now).1
          simp only at more
          omega
      · cases found
    · intro there
      rw [if_pos (level.done _ there)]
      apply (agrees.done _ _).mpr
      rw [took.done]
      exact List.mem_append_left _ there
  · intro index one two first second
    apply agrees.once index one two
    · rw [took.placed]
      exact List.mem_append_left _ first
    · rw [took.placed]
      exact List.mem_append_left _ second

end
-- One more slot, with the item that was done in it.
structure Slotted (r : Run) (item : Item) (u : Run) : Prop where
  accumulator : u.accumulator = r.accumulator ++ [some item]
  placed : u.placed = r.placed ++ [(r.accumulator.length,item)]
  turns : u.turns = r.turns
  offset : u.stitcher.offset = r.stitcher.offset + 1
  done : dones u.stitcher.out = dones r.stitcher.out ++ [(r.stitcher.offset,item)]
  added : ∀ one ∈ addeds u.stitcher.out, one ∈ addeds r.stitcher.out ∨ one = (r.stitcher.offset,item.id)
  calm : gathered envelopes u.stitcher.out = gathered envelopes r.stitcher.out
  counted : r.stitcher.out.map (·.1) = List.range r.stitcher.seq → u.stitcher.out.map (·.1) = List.range u.stitcher.seq

theorem Slotted.level {r u : Run} {item : Item} (slotted : Slotted r item u) (level : Level r) : Level u := by
  constructor
  · rw [slotted.accumulator,slotted.offset,List.length_append,level.length]
    rfl
  · intro entry present
    rw [slotted.done] at present
    rw [slotted.offset]
    rcases List.mem_append.mp present with before | now
    · exact Nat.lt_succ_of_lt (level.done entry before)
    · rw [List.mem_singleton.mp now]
      exact Nat.lt_succ_self _
  · intro entry present
    rw [slotted.placed] at present
    rw [slotted.offset]
    rcases List.mem_append.mp present with before | now
    · exact Nat.lt_succ_of_lt (level.placed entry before)
    · rw [List.mem_singleton.mp now,level.length]
      exact Nat.lt_succ_self _

theorem Slotted.agrees {r u : Run} {item : Item} (slotted : Slotted r item u) (level : Level r) {output : List Item}
    (agrees : Agrees r output) : Agrees u (output ++ [item]) := by
  have length : output.length = r.stitcher.offset := by
    rw [← level.length,agrees.built,List.length_map]
  constructor
  · rw [slotted.accumulator,agrees.built,List.map_append]
    rfl
  · intro index other
    rw [slotted.done,List.mem_append,List.mem_singleton,← agrees.done]
    rcases Nat.lt_trichotomy index output.length with less | rfl | more
    · rw [List.getElem?_append_left less]
      constructor
      · exact fun found => .inl found
      · rintro (found | same)
        · exact found
        · simp only [Prod.mk.injEq] at same
          omega
    · rw [List.getElem?_concat_length,← length]
      simp [eq_comm]
    · rw [List.getElem?_eq_none (by rw [List.length_append]; exact more),List.getElem?_eq_none (by omega)]
      constructor
      · exact fun found => by cases found
      · rintro (found | same)
        · cases found
        · simp only [Prod.mk.injEq] at same
          omega
  · intro index one two first second
    rw [slotted.placed] at first second
    rcases List.mem_append.mp first with old | new
    · rcases List.mem_append.mp second with old_ | new_
      · exact agrees.once index one two old old_
      · have less := level.placed _ old
        have same := congrArg Prod.fst (List.mem_singleton.mp new_)
        simp only [level.length] at less same
        omega
    · rcases List.mem_append.mp second with old_ | new_
      · have less := level.placed _ old_
        have same := congrArg Prod.fst (List.mem_singleton.mp new)
        simp only [level.length] at less same
        omega
      · exact (congrArg Prod.snd (List.mem_singleton.mp new)).trans
          (congrArg Prod.snd (List.mem_singleton.mp new_)).symm

theorem Emits.append {r u : Run} {opened : List (Nat × String)} {item : Item}
    (emits : Emits r.claimSlot opened [(r.stitcher.offset,item)] u)
    (only : ∀ one ∈ opened, one = (r.stitcher.offset,item.id)) : Slotted r item (u.append item) := by
  have length : u.accumulator = r.accumulator := emits.accumulator
  constructor
  · simp only [Run.append,length]
  · simp only [Run.append,length,emits.placed]
    rfl
  · exact emits.turns
  · exact emits.offset
  · exact emits.done
  · intro one present
    change one ∈ addeds u.stitcher.out at present
    rw [emits.added] at present
    rcases List.mem_append.mp present with before | now
    · exact .inl before
    · exact .inr (only one now)
  · exact emits.calm
  · exact emits.counted

section
variable {env : Environment}

-- A server that was asked has its slot; where it failed, so does the item that says so.
theorem discover_slotted (env : Environment) (r : Run) (spec : McpToolSpec) :
    (∃ item u tools, Slotted r item u ∧ discover env r spec = .inl (u,tools)) ∨
    (∃ item u message code, Slotted r item u ∧ discover env r spec = .inr (failedEvent env u message code)) ∨
    ∃ u listed refused, discover env r spec = .inr (u,.raised (.api refused)) ∧ filterTools spec listed = .error refused := by
  have begun := ((mint_emits r.claimSlot).trans (emit_emits r.claimSlot.mint (.added r.stitcher.offset (.mcpListTools
    ("mcpl_" ++ env.uuids.draw r.stitcher.minted) spec.serverLabel [] none)) rfl)).trans (emit_emits _
    (.part .mcpListToolsInProgress ("mcpl_" ++ env.uuids.draw r.stitcher.minted) r.stitcher.offset "") rfl)
  unfold discover
  simp only
  cases env.listTools spec with
  | error message =>
      have emits := (begun.trans (emit_emits _ (.part .mcpListToolsFailed
        ("mcpl_" ++ env.uuids.draw r.stitcher.minted) r.stitcher.offset "") rfl)).trans (emit_emits _
        (.done r.stitcher.offset (.mcpListTools ("mcpl_" ++ env.uuids.draw r.stitcher.minted) spec.serverLabel []
          (some message))) rfl)
      exact .inr (.inl ⟨_,_,_,_,emits.append (by simp [opens,Item.id]),rfl⟩)
  | ok listed =>
      simp only
      cases kept : filterTools spec listed with
      | error refused => exact .inr (.inr ⟨_,listed,refused,rfl,kept⟩)
      | ok tools =>
          have emits := (begun.trans (emit_emits _ (.part .mcpListToolsCompleted
            ("mcpl_" ++ env.uuids.draw r.stitcher.minted) r.stitcher.offset "") rfl)).trans (emit_emits _
            (.done r.stitcher.offset (.mcpListTools ("mcpl_" ++ env.uuids.draw r.stitcher.minted) spec.serverLabel tools
              none)) rfl)
          exact .inl ⟨_,_,tools,emits.append (by simp [opens,Item.id]),rfl⟩

theorem resumeOne_slotted (env : Environment) (specs : List McpToolSpec) (found : Found) (r : Run) (item : Json)
    (resolved : Resolved) : ∃ made, Slotted r made (resumeOne env specs found r item resolved) := by
  unfold resumeOne
  simp only
  split
  · rename_i spec _ _
    have begun := (((mint_emits r.claimSlot).trans (emit_emits r.claimSlot.mint (.added r.stitcher.offset (.mcpCall
      ("mcp_" ++ env.uuids.draw r.stitcher.minted) resolved.name resolved.arguments resolved.label resolved.id none
      none .inProgress)) rfl)).trans (emit_emits _ (.part .mcpArgumentsDelta
      ("mcp_" ++ env.uuids.draw r.stitcher.minted) r.stitcher.offset resolved.arguments) rfl)).trans (emit_emits _
      (.part .mcpArgumentsDone ("mcp_" ++ env.uuids.draw r.stitcher.minted) r.stitcher.offset resolved.arguments) rfl)
    obtain ⟨_,id,called⟩ := executeMcpCall_emits env _ ("mcp_" ++ env.uuids.draw r.stitcher.minted) r.stitcher.offset
      resolved.name resolved.arguments spec resolved.id
    refine ⟨_,(begun.trans called).append ?_⟩
    rw [id]
    simp [opens,Item.id]
  · have begun := ((mint_emits r.claimSlot).trans (emit_emits r.claimSlot.mint (.added r.stitcher.offset (.mcpCall
      ("mcp_" ++ env.uuids.draw r.stitcher.minted) resolved.name resolved.arguments resolved.label resolved.id
      (some (rejection specs found item resolved)) none .failed)) rfl)).trans (emit_emits _ (.part .mcpCallInProgress
      ("mcp_" ++ env.uuids.draw r.stitcher.minted) r.stitcher.offset "") rfl)
    have emits := (begun.trans (emit_emits _ (.part .mcpCallFailed ("mcp_" ++ env.uuids.draw r.stitcher.minted)
      r.stitcher.offset "") rfl)).trans (emit_emits _ (.done r.stitcher.offset (.mcpCall
      ("mcp_" ++ env.uuids.draw r.stitcher.minted) resolved.name resolved.arguments resolved.label resolved.id
      (some (rejection specs found item resolved)) none .failed)) rfl)
    exact ⟨_,emits.append (by simp [opens,Item.id])⟩

-- What a slot more keeps, discovery and resumed approvals keep.
section
variable {Keeps : Run → Prop} (slots : ∀ r item u, Keeps r → Slotted r item u → Keeps u)
include slots

theorem discoverAll_keeps {specs : List McpToolSpec} {r u : Run} {before after : Found} (kept : Keeps r)
    (found : discoverAll env r before specs = .inl (u,after)) : Keeps u := by
  induction specs generalizing r before with
  | nil =>
      cases found
      exact kept
  | cons spec rest ih =>
      unfold discoverAll at found
      split at found
      · cases found
      · exact ih kept found
      · rcases discover_slotted env r spec with ⟨item,v,tools,slotted,same⟩ | ⟨_,_,_,_,_,same⟩ | ⟨_,_,_,same,_⟩
        · rw [same] at found
          exact ih (slots r item v kept slotted) found
        · rw [same] at found
          cases found
        · rw [same] at found
          cases found

-- Discovery ends early with `response.failed`, or raises.
theorem discoverAll_ends {specs : List McpToolSpec} {r : Run} {before : Found} {ended : Run × Ending} (kept : Keeps r)
    (found : discoverAll env r before specs = .inr ended) :
    (∃ u message code, Keeps u ∧ ended = failedEvent env u message code) ∨
      ∃ u spec listed refused, ended = (u,.raised (.api refused)) ∧ spec ∈ specs ∧
        filterTools spec listed = .error refused := by
  induction specs generalizing r before with
  | nil => cases found
  | cons spec rest ih =>
      unfold discoverAll at found
      have later : ∀ {r before}, Keeps r → discoverAll env r before rest = .inr ended →
          (∃ u message code, Keeps u ∧ ended = failedEvent env u message code) ∨
            ∃ u other listed refused, ended = (u,.raised (.api refused)) ∧ other ∈ spec :: rest ∧
              filterTools other listed = .error refused := by
        intro r before kept found
        rcases ih kept found with failed | ⟨u,other,listed,refused,same,there,filtered⟩
        · exact .inl failed
        · exact .inr ⟨u,other,listed,refused,same,List.mem_cons_of_mem _ there,filtered⟩
      split at found
      · rename_i raised told
        cases found
        unfold storedTools at told
        split at told
        · cases told
        · split at told
          · split at told
            · cases told
            · split at told
              · cases told
              · rename_i refused filtered
                cases told
                exact .inr ⟨_,spec,_,refused,rfl,List.mem_cons_self,filtered⟩
          · cases told
      · exact later kept found
      · rcases discover_slotted env r spec with ⟨item,v,tools,slotted,same⟩ | ⟨item,v,message,code,slotted,same⟩ |
          ⟨v,listed,refused,same,filtered⟩
        · rw [same] at found
          exact later (slots r item v kept slotted) found
        · rw [same] at found
          cases found
          exact .inl ⟨v,message,code,slots r item v kept slotted,rfl⟩
        · rw [same] at found
          cases found
          exact .inr ⟨v,spec,listed,refused,rfl,List.mem_cons_self,filtered⟩

theorem resume_keeps {specs : List McpToolSpec} {discovered : Found} {items rest : List Json} {r u : Run}
    (kept : Keeps r) (resumed : resume env specs discovered items r rest = .inl u) : Keeps u := by
  induction rest generalizing r with
  | nil =>
      cases resumed
      exact kept
  | cons item rest ih =>
      unfold resume at resumed
      split at resumed
      · exact ih kept resumed
      · split at resumed
        · cases resumed
        · split at resumed
          · cases resumed
          · split at resumed
            · cases resumed
            · rename_i resolved _
              obtain ⟨made,slotted⟩ := resumeOne_slotted env specs discovered r item resolved
              exact ih (slots r made _ kept slotted) resumed

end

-- A turn that is taken: its stream was read to the end without a failure.
theorem turn_taken {toolIndex : ToolIndex} {maxToolCalls : Option Int} {number count : Nat} {r u : Run}
    (taken : (∃ status incomplete,
      turn env toolIndex maxToolCalls number count r = .inl (u,.reached status incomplete)) ∨
      ∃ more, turn env toolIndex maxToolCalls number count r = .inr (more,u)) :
    ∃ uuids responseId chunks ending s, env.inner number = .stream uuids responseId chunks ending ∧
      r.stitcher.runTurn env.uuids toolIndex
        ((streamed (Translator.translate uuids responseId chunks) ending).out.map (·.2)) = .ok s ∧
      s.innerFailedResponse = none ∧ takeOver env {r with stitcher := s} = u := by
  unfold turn at taken
  cases given : env.inner number with
  | error response => simp [given] at taken
  | stream uuids responseId chunks ending =>
      rw [given] at taken
      simp only at taken
      split at taken
      · simp at taken
      · rename_i s ran
        refine ⟨uuids,responseId,chunks,ending,s,rfl,ran,?_⟩
        split at taken
        · simp at taken
        · simp at taken
        · rename_i going
          refine ⟨going,?_⟩
          split at taken
          · rcases taken with ⟨_,_,same⟩ | ⟨_,same⟩
            · cases same
              rfl
            · cases same
          · split at taken
            · split at taken
              · rcases taken with ⟨_,_,same⟩ | ⟨_,same⟩
                · cases same
                  rfl
                · cases same
              · rcases taken with ⟨_,_,same⟩ | ⟨_,same⟩
                · cases same
                · cases same
                  rfl
            · rcases taken with ⟨_,_,same⟩ | ⟨_,same⟩
              · cases same
              · cases same
                rfl

theorem turnLoop_reached {toolIndex : ToolIndex} {maxToolCalls : Option Int} {left count : Nat} {r u : Run}
    {status : Status} {incomplete : Option String}
    (looped : turnLoop env toolIndex maxToolCalls (left + 1) count r = (u,.reached status incomplete)) :
    ∃ uuids responseId chunks ending s, env.inner (defaultTurnCap - (left + 1)) = .stream uuids responseId chunks ending ∧
      r.stitcher.runTurn env.uuids toolIndex
        ((streamed (Translator.translate uuids responseId chunks) ending).out.map (·.2)) = .ok s ∧
      (takeOver env {r with stitcher := s} = u ∨ ∃ count,
        turnLoop env toolIndex maxToolCalls left count (takeOver env {r with stitcher := s}) =
          (u,.reached status incomplete)) := by
  unfold turnLoop at looped
  split at looped
  · rename_i ended took
    subst looped
    obtain ⟨uuids,responseId,chunks,ending,s,given,ran,_,same⟩ := turn_taken (.inl ⟨status,incomplete,took⟩)
    exact ⟨uuids,responseId,chunks,ending,s,given,ran,.inl same⟩
  · rename_i more v took
    obtain ⟨uuids,responseId,chunks,ending,s,given,ran,_,rfl⟩ := turn_taken (.inr ⟨more,took⟩)
    exact ⟨uuids,responseId,chunks,ending,s,given,ran,.inr ⟨more,looped⟩⟩

-- Over the turns taken, output and indices agree exactly where each turn's own items do.
theorem turnLoop_agrees {toolIndex : ToolIndex} {maxToolCalls : Option Int}
    (finished : ∀ turn, ∃ uuids responseId chunks, env.inner turn = .stream uuids responseId chunks .finished)
    {left count : Nat} {r u : Run} {status : Status} {incomplete : Option String} (level : Level r)
    (counted : r.turns + left = defaultTurnCap)
    (looped : turnLoop env toolIndex maxToolCalls left count r = (u,.reached status incomplete)) :
    r.turns ≤ u.turns ∧ ((∃ output, Agrees u output) ↔
      (∃ output, Agrees r output) ∧ ∀ turn, r.turns ≤ turn → turn < u.turns → InOrder toolIndex (env.inner turn)) := by
  induction left generalizing count r with
  | zero =>
      cases looped
      refine ⟨Nat.le_refl _,?_⟩
      constructor
      · exact fun agrees => ⟨agrees,fun turn more less => by omega⟩
      · exact fun both => both.1
  | succ left ih =>
      obtain ⟨uuids,responseId,chunks,ending,s,given,ran,rest⟩ := turnLoop_reached looped
      obtain ⟨_,_,_,same⟩ := finished (defaultTurnCap - (left + 1))
      rw [given] at same
      cases same
      have numbered := Translator.translate_numbered uuids responseId chunks
      obtain ⟨items,took⟩ := takeOver_took env (finish_turned ran)
      have turn_ : defaultTurnCap - (left + 1) = r.turns := by omega
      rw [turn_] at given
      -- The turn itself: it agrees where what was before does and its items are in place.
      have here : (∃ output, Agrees (takeOver env {r with stitcher := s}) output) ↔
          (∃ output, Agrees r output) ∧ InOrder toolIndex (env.inner r.turns) := by
        rw [given]
        constructor
        · rintro ⟨output,agrees⟩
          exact ⟨⟨_,took.before numbered level agrees⟩,took.inPlace numbered level agrees⟩
        · rintro ⟨⟨output,agrees⟩,place⟩
          exact took.agrees numbered level place agrees
      rcases rest with rfl | ⟨more,looped⟩
      · rw [took.turns]
        refine ⟨Nat.le_succ _,?_⟩
        rw [here]
        constructor
        · rintro ⟨before,place⟩
          refine ⟨before,fun turn more less => ?_⟩
          have only : turn = r.turns := by omega
          rw [only]
          exact place
        · rintro ⟨before,all⟩
          exact ⟨before,all r.turns (Nat.le_refl _) (Nat.lt_succ_self _)⟩
      · have after := ih (took.level numbered level) (by rw [took.turns]; omega) looped
        rw [took.turns] at after
        refine ⟨by omega,?_⟩
        rw [after.2,here]
        constructor
        · rintro ⟨⟨before,place⟩,later⟩
          refine ⟨before,fun turn more less => ?_⟩
          rcases Nat.eq_or_lt_of_le more with first | further
          · rw [← first]
            exact place
          · exact later turn further less
        · rintro ⟨before,all⟩
          refine ⟨⟨before,all r.turns (Nat.le_refl _) (by omega)⟩,fun turn more less => ?_⟩
          exact all turn (by omega) less

end

-- The tools found for a request, by name.
def toolIndexFor (env : Environment) (request : Request) : ToolIndex :=
  match preChecks env request with
  | .error _ => .empty
  | .ok (specs,_) =>
    match discoverAll env (started env) ⟨[],.empty⟩ specs with
    | .inr _ => .empty
    | .inl (_,found) => found.toolIndex

-- The scan begins once the requests are indexed.
theorem resumeAll_cases (env : Environment) (specs : List McpToolSpec) (found : Found) (items : List Json) (r : Run) :
    indexable items = true ∧ resumeAll env specs found items r = resume env specs found items r items ∨
      indexable items = false ∧ resumeAll env specs found items r = .inr (r,.raised .lookup) := by
  unfold resumeAll
  cases indexed : indexable items with
  | true => exact .inl ⟨rfl,rfl⟩
  | false => exact .inr ⟨rfl,rfl⟩

section
variable {env : Environment} {request : Request}

theorem drive_reached {u : Run} {status : Status} {incomplete : Option String}
    (driven : drive env request = (u,.reached status incomplete)) :
    ∃ specs otherTools r found v, preChecks env request = .ok (specs,otherTools) ∧
      discoverAll env (started env) ⟨[],.empty⟩ specs = .inl (r,found) ∧
      resume env specs found request.input r request.input = .inl v ∧
      turnLoop env found.toolIndex request.maxToolCalls defaultTurnCap 0 v = (u,.reached status incomplete) := by
  have unfailed : ∀ r message code, failedEvent env r message code ≠ (u,.reached status incomplete) := by
    intro r message code same
    unfold failedEvent at same
    split at same <;> cases same
  unfold drive at driven
  split at driven
  · cases driven
  · rename_i specs otherTools checked
    split at driven
    · rename_i ended found
      have kept : ∀ r item u, True → Slotted r item u → True := fun _ _ _ _ _ => trivial
      rcases discoverAll_ends kept trivial found with ⟨r,message,code,_,same⟩ | ⟨_,_,_,_,same,_,_⟩
      · exact absurd (same.symm.trans driven) (unfailed r message code)
      · rw [same] at driven
        cases driven
    · rename_i r found discovered
      split at driven
      · exact absurd driven (unfailed r _ _)
      · cases driven
      · have stopped : ∀ (rest : List Json) (r : Run) {ended : Run × Ending},
            resume env specs found request.input r rest = .inr ended → ended ≠ (u,.reached status incomplete) := by
          intro rest
          induction rest with
          | nil =>
              intro r ended resumed
              cases resumed
          | cons item rest ih =>
              intro r ended resumed same
              unfold resume at resumed
              split at resumed
              · exact ih r resumed same
              · split at resumed
                · cases resumed
                  cases same
                · split at resumed
                  · cases resumed
                    cases same
                  · split at resumed
                    · cases resumed
                      cases same
                    · exact ih _ resumed same
        rcases resumeAll_cases env specs found request.input r with ⟨_,scanned⟩ | ⟨_,raised⟩
        · rw [scanned] at driven
          split at driven
          · rename_i ended resumed
            exact absurd driven (stopped _ _ resumed)
          · rename_i v resumed
            exact ⟨specs,otherTools,r,found,v,checked,discovered,resumed,driven⟩
        · rw [raised] at driven
          cases driven

-- What stands before the turns agrees.
theorem before_turns {specs : List McpToolSpec} {r v : Run} {found : Found}
    (discovered : discoverAll env (started env) ⟨[],.empty⟩ specs = .inl (r,found))
    (resumed : resume env specs found request.input r request.input = .inl v) :
    Level v ∧ v.turns = 0 ∧ ∃ output, Agrees v output := by
  have slots : ∀ r item u, (Level r ∧ r.turns = 0 ∧ ∃ output, Agrees r output) → Slotted r item u →
      Level u ∧ u.turns = 0 ∧ ∃ output, Agrees u output := by
    rintro r item u ⟨level,turns,output,agrees⟩ slotted
    exact ⟨slotted.level level,slotted.turns.trans turns,_,slotted.agrees level agrees⟩
  have begins : Level (started env) ∧ (started env).turns = 0 ∧ ∃ output, Agrees (started env) output := by
    refine ⟨⟨rfl,?_,?_⟩,rfl,[],rfl,?_,?_⟩
    · intro entry present
      cases present
    · intro entry present
      cases present
    · intro index item
      constructor
      · intro found
        cases found
      · intro present
        cases present
    · intro index one two first
      cases first
  exact resume_keeps slots (discoverAll_keeps slots begins discovered) resumed

theorem mapM_some (output : List Item) : (output.map some).mapM id = some output := by
  induction output with
  | nil => rfl
  | cons item rest ih => simp [ih]

-- The terminal event can be built and its output agrees with the stream exactly where, in
-- every turn taken, each item but the calls for MCP servers stands in that turn's output
-- where its index says.
theorem stitching_agrees
    (finished : ∀ turn, ∃ uuids responseId chunks, env.inner turn = .stream uuids responseId chunks .finished)
    {r : Run} {status : Status} {incomplete : Option String}
    (driven : drive env request = (r,.reached status incomplete)) :
    (∃ output, events env request = (r.emit (.envelope (if status = .completed then .completed else .incomplete)
      (response env r status output incomplete none)),.reached status incomplete) ∧ Agrees r output) ↔
    ∀ turn < r.turns, InOrder (toolIndexFor env request) (env.inner turn) := by
  obtain ⟨specs,otherTools,first,found,v,checked,discovered,resumed,looped⟩ := drive_reached driven
  obtain ⟨level,turns,before⟩ := before_turns discovered resumed
  have index : toolIndexFor env request = found.toolIndex := by
    simp only [toolIndexFor,checked,discovered]
  have loop := (turnLoop_agrees finished level (by rw [turns]; rfl) looped).2
  rw [turns] at loop
  have built : (∃ output, events env request = (r.emit (.envelope (if status = .completed then .completed else
      .incomplete) (response env r status output incomplete none)),.reached status incomplete) ∧ Agrees r output) ↔
      ∃ output, Agrees r output := by
    constructor
    · rintro ⟨output,_,agrees⟩
      exact ⟨output,agrees⟩
    · rintro ⟨output,agrees⟩
      refine ⟨output,?_,agrees⟩
      simp only [events,driven,agrees.built,mapM_some]
  rw [built,loop,index]
  constructor
  · intro both turn less
    exact both.2 turn (Nat.zero_le _) less
  · intro all
    exact ⟨before,fun turn _ less => all turn less⟩

end

-- A server with one tool that needs no approval, and turns that call it or speak.
def sampleUuids : Uuids where
  draw number := String.ofList (List.replicate number 'x')
  distinct := by
    intro one two same
    simpa using congrArg String.length same

def sampleTool : ListedTool := ⟨"search",.obj [],none,none⟩

def sampleEnvironment (inner : Nat → Inner) : Environment where
  uuids := sampleUuids
  responseId := "resp"
  complaint _ := ""
  validateServerUrl _ := .ok ()
  listings label := if label = "docs" then some ⟨"https://docs",.null,some [sampleTool]⟩ else none
  listTools _ := .ok [sampleTool]
  callTool _ := .ok "found"
  inner

def sampleRequest (approval : String) (input : List Json) (previousResponseId : Option String) : Request where
  tools := [.obj [("type",.str "mcp"),("server_label",.str "docs"),("server_url",.str "https://docs"),
    ("require_approval",.str approval)]]
  toolChoice := .null
  input
  previousResponseId
  maxToolCalls := none

def saying (text : String) : Chunk := ⟨none,[⟨⟨none,some text,[]⟩,none⟩]⟩
def calling (name : String) : Chunk := ⟨none,[⟨⟨none,none,[⟨0,some "call_1",some name,some "\x7b\x7d"⟩]⟩,none⟩]⟩

def spoken (_ : Nat) : Inner := .stream sampleUuids "inner" [saying "done"] .finished

-- The model speaks and calls, and speaks again.
def speaksAndCalls : Nat → Inner
  | 0 => .stream sampleUuids "inner" [saying "one moment",calling "search"] .finished
  | _ => .stream sampleUuids "inner" [saying "done"] .finished

theorem stitching_agrees_called : ∃ r output,
    events (sampleEnvironment speaksAndCalls) (sampleRequest "never" [] none) =
      (r.emit (.envelope .completed (response (sampleEnvironment speaksAndCalls) r .completed output none none)),
        .reached .completed none) ∧ Agrees r output ∧ r.turns = 2 ∧ r.calls.length = 1 := by
  obtain ⟨r,driven,turns,calls⟩ : ∃ r, drive (sampleEnvironment speaksAndCalls) (sampleRequest "never" [] none) =
      (r,.reached .completed none) ∧ r.turns = 2 ∧ r.calls.length = 1 := by
    have shown : (drive (sampleEnvironment speaksAndCalls) (sampleRequest "never" [] none)).2 = .reached .completed none ∧
        (drive (sampleEnvironment speaksAndCalls) (sampleRequest "never" [] none)).1.turns = 2 ∧
        (drive (sampleEnvironment speaksAndCalls) (sampleRequest "never" [] none)).1.calls.length = 1 := by decide +kernel
    exact ⟨_,Prod.ext rfl shown.1,shown.2⟩
  have finished : ∀ turn, ∃ uuids responseId chunks,
      (sampleEnvironment speaksAndCalls).inner turn = .stream uuids responseId chunks .finished := by
    intro turn
    cases turn with
    | zero => exact ⟨_,_,_,rfl⟩
    | succ turn => exact ⟨_,_,_,rfl⟩
  obtain ⟨output,built,agrees⟩ := (stitching_agrees finished driven).mpr (by
    intro turn less
    rw [turns] at less
    have either : turn = 0 ∨ turn = 1 := by omega
    rcases either with rfl | rfl
    · change InPlace _ (Translator.translate sampleUuids "inner" [saying "one moment",calling "search"]).closing
      decide +kernel
    · change InPlace _ (Translator.translate sampleUuids "inner" [saying "done"]).closing
      decide +kernel)
  exact ⟨r,output,built,agrees,turns,calls⟩

-- The model calls first and then speaks: the call takes index 0, the message position 0.
def callsThenSpeaks : Nat → Inner
  | 0 => .stream sampleUuids "inner" [calling "search",saying "one moment"] .finished
  | _ => .stream sampleUuids "inner" [saying "done"] .finished

theorem stitching_disagrees : ∃ r, drive (sampleEnvironment callsThenSpeaks) (sampleRequest "never" [] none) =
    (r,.reached .completed none) ∧
    (events (sampleEnvironment callsThenSpeaks) (sampleRequest "never" [] none)).2 ≠ .reached .completed none ∧
    ¬ ∃ output, Agrees r output := by
  refine ⟨_,rfl,?_,?_⟩
  · decide +kernel
  · rintro ⟨output,agrees⟩
    have hole : none ∈ (drive (sampleEnvironment callsThenSpeaks) (sampleRequest "never" [] none)).1.accumulator := by
      decide +kernel
    have full : none ∉ output.map some := by simp
    rw [← agrees.built] at full
    exact full hole

end Modelship.Mcp

import Modelship.Infer.EngineOps

namespace Modelship.Infer.Vllm
open Foundation Responses

theorem spoken_false {text : Option String} (silent : spoken text = false) : text.getD "" = "" := by
  rw [spoken,Option.isSome_eq_false_iff,Option.isNone_iff_eq_none] at silent
  exact nonempty_none silent

theorem spoken_iff {text : Option String} : spoken text = true ↔ text.getD "" ≠ "" := by
  cases said : spoken text with
  | false => simp [spoken_false said]
  | true =>
      obtain ⟨value,given⟩ := Option.isSome_iff_exists.mp said
      obtain ⟨apart,same⟩ := nonempty_some given
      rw [same]
      simpa using apart

section
variable {State Tops Logprobs : Type} (setup : Setup State Tops Logprobs)

-- What one output does to an open choice.
structure Takes (c d : ChoiceState State) (promptTokenIds : Option (List Nat)) (output : Output Tops)
    (delta : Option DeltaMessage) (sent : List (StreamChoice Logprobs)) : Prop where
  parsed : parseDelta c.parser promptTokenIds output = some (d.parser,delta)
  tokens : d.previousNumTokens = c.previousNumTokens + output.tokenIds.length
  ids : d.accumulatedTokenIds = c.accumulatedTokenIds ++ output.tokenIds
  tools : d.toolsStreamed = (c.toolsStreamed || delta.any fun delta => !delta.toolCalls.isEmpty)
  contents : d.contentStreamed = (c.contentStreamed || spoken (delta.bind (·.content)))
  reasonings : d.reasoningStreamed = (c.reasoningStreamed || spoken (delta.bind (·.reasoning)))
  text : d.contentStreamed = false → d.accumulatedText = c.accumulatedText ++ [output.text]
  closes : d.finishReasonSent = output.finishReason.isSome
  said : textOf sent = (delta.bind (·.content)).getD "" ++ (d.recovered setup output).getD ""
  thinks : thoughtOf sent = (delta.bind (·.reasoning)).getD ""
  calls : callsOf sent = (delta.map (·.toolCalls)).getD []
  own : ∀ choice ∈ sent, choice.index = output.index
  reason : ∀ choice ∈ sent, choice.finishReason = output.finishReason.map fun reason =>
    finishReasonForChoice setup d.toolsStreamed (some reason)
  last : output.finishReason ≠ none → ∃ choice, sent = [choice]

section
variable (c : ChoiceState State) (delta : DeltaMessage)

@[simp] theorem told_instance : (c.told delta).parser = c.parser := by
  unfold ChoiceState.told
  split <;> split <;> rfl

@[simp] theorem told_tokens : (c.told delta).previousNumTokens = c.previousNumTokens := by
  unfold ChoiceState.told
  split <;> split <;> rfl

@[simp] theorem told_ids : (c.told delta).accumulatedTokenIds = c.accumulatedTokenIds := by
  unfold ChoiceState.told
  split <;> split <;> rfl

@[simp] theorem told_finish : (c.told delta).finishReasonSent = c.finishReasonSent := by
  unfold ChoiceState.told
  split <;> split <;> rfl

@[simp] theorem told_tools : (c.told delta).toolsStreamed = c.toolsStreamed := by
  unfold ChoiceState.told
  split <;> split <;> rfl

theorem told_content : (c.told delta).contentStreamed = (c.contentStreamed || spoken delta.content) := by
  unfold ChoiceState.told
  split <;> split <;> simp_all

theorem told_reasoning : (c.told delta).reasoningStreamed = (c.reasoningStreamed || spoken delta.reasoning) := by
  unfold ChoiceState.told
  split <;> split <;> simp_all

-- While no content has gone out, none of the text is let go.
theorem told_text (silent : (c.told delta).contentStreamed = false) : (c.told delta).accumulatedText = c.accumulatedText := by
  rw [told_content,Bool.or_eq_false_iff] at silent
  simp only [ChoiceState.told,silent.2]
  split <;> rfl

theorem project_calls (calls : List DeltaToolCall) : projectDeltaToolCalls calls = calls := List.map_id' calls

-- The delta that goes out says what the parser said, and what was found trapped.
theorem choice_brings (output : Output Tops) :
    textOf [(c.told delta).choice setup output delta] =
      delta.content.getD "" ++ ((c.told delta).recovered setup output).getD "" := by
  cases found : (c.told delta).recovered setup output with
  | none => simp [textOf,ChoiceState.choice,found]
  | some content =>
      have mute : delta.content.getD "" = "" := by
        unfold ChoiceState.recovered at found
        split at found
        · rename_i asked
          simp only [ChoiceState.trapped,Bool.and_eq_true,Bool.not_eq_true',told_content,Bool.or_eq_false_iff] at asked
          exact spoken_false asked.2.1.2.2
        · cases found
      simp [textOf,ChoiceState.choice,found,mute]

end

theorem hear_takes {c d : ChoiceState State} {promptTokenIds : Option (List Nat)} {output : Output Tops}
    {one : Option (StreamChoice Logprobs)} (open_ : c.finishReasonSent = false) (loud : ¬Quiet c.previousNumTokens output)
    (heard : c.hear setup promptTokenIds output = some (d,one)) :
    ∃ delta, Takes setup c d promptTokenIds output delta one.toList := by
  unfold ChoiceState.hear at heard
  rw [if_neg (by simp [open_]),if_neg loud,Option.map_eq_some_iff] at heard
  obtain ⟨⟨instance_,delta⟩,parsed,done⟩ := heard
  refine ⟨delta,?_⟩
  dsimp only at done
  split at done
  · rename_i held
    rw [Bool.and_eq_true,Option.isNone_iff_eq_none,Option.isNone_iff_eq_none] at held
    obtain ⟨rfl,goes⟩ := held
    cases done
    constructor
    · exact parsed
    · rfl
    · rfl
    · rfl
    · simp [ChoiceState.books,spoken,nonempty]
    · simp [ChoiceState.books,spoken,nonempty]
    · intro silent
      exact if_neg (by simpa [ChoiceState.books] using silent)
    · simp [ChoiceState.books,open_,goes]
    · simp [textOf,ChoiceState.recovered,goes]
    · rfl
    · rfl
    · intro choice there
      cases there
    · intro choice there
      cases there
    · exact fun finishes => absurd goes finishes
  · cases done
    constructor
    · simpa [ChoiceState.books] using parsed
    · simp [ChoiceState.books]
    · simp [ChoiceState.books]
    · simp [ChoiceState.books]
    · cases delta <;> simp [told_content,ChoiceState.books,messageOf]
    · cases delta <;> simp [told_reasoning,ChoiceState.books,messageOf]
    · intro silent
      dsimp only at silent ⊢
      rw [told_text _ _ silent]
      rw [told_content,Bool.or_eq_false_iff] at silent
      have unheard : c.contentStreamed = false := silent.1
      exact if_neg (by simp [unheard])
    · rfl
    · rw [Option.toList_some,choice_brings]
      cases delta <;> rfl
    · cases delta <;> simp [thoughtOf,ChoiceState.choice,messageOf]
    · cases delta <;> simp [callsOf,ChoiceState.choice,messageOf,project_calls]
    · simp [ChoiceState.choice]
    · simp [ChoiceState.choice]
    · simp

-- A choice against all outputs that name it, each with its step's prompt ids.
def ChoiceState.hearAll (c : ChoiceState State) : List (Option (List Nat) × Output Tops) →
    Option (ChoiceState State × List (StreamChoice Logprobs))
  | [] => some (c,[])
  | one :: rest => (c.hear setup one.1 one.2).bind fun first =>
    (first.1.hearAll rest).map fun others => (others.1,first.2.toList ++ others.2)

theorem hearAll_cons {c d : ChoiceState State} {one : Option (List Nat) × Output Tops}
    {rest : List (Option (List Nat) × Output Tops)} {sent : List (StreamChoice Logprobs)} :
    c.hearAll setup (one :: rest) = some (d,sent) ↔ ∃ middle choice others,
      c.hear setup one.1 one.2 = some (middle,choice) ∧ middle.hearAll setup rest = some (d,others) ∧
        sent = choice.toList ++ others := by
  simp only [ChoiceState.hearAll,Option.bind_eq_some_iff,Option.map_eq_some_iff,Prod.exists,Prod.mk.injEq]
  constructor
  · rintro ⟨middle,choice,heard,last,others,ran,rfl,rfl⟩
    exact ⟨middle,choice,others,heard,ran,rfl⟩
  · rintro ⟨middle,choice,others,heard,ran,rfl⟩
    exact ⟨middle,choice,heard,d,others,ran,rfl,rfl⟩

-- The outputs that reach the parser: without the quiet ones before the choice begins, and
-- up to the one that ends it.
def attended (tokens : Nat) : List (Option (List Nat) × Output Tops) → List (Option (List Nat) × Output Tops)
  | [] => []
  | one :: rest => if Quiet tokens one.2 then attended tokens rest else
    one :: if one.2.finishReason.isSome then [] else attended (tokens + one.2.tokenIds.length) rest

-- What a parser makes of them, on its own.
def makes (instance_ : Option (Parser State × State)) : List (Option (List Nat) × Output Tops) →
    Option (List (Option DeltaMessage))
  | [] => some []
  | one :: rest => (parseDelta instance_ one.1 one.2).bind fun parsed => (makes parsed.1 rest).map (parsed.2 :: ·)

def contentsOf (deltas : List (Option DeltaMessage)) : String :=
  String.join (deltas.map fun delta => (delta.bind (·.content)).getD "")

def reasoningsOf (deltas : List (Option DeltaMessage)) : String :=
  String.join (deltas.map fun delta => (delta.bind (·.reasoning)).getD "")

def toolsOf (deltas : List (Option DeltaMessage)) : List DeltaToolCall :=
  deltas.flatMap fun delta => (delta.map (·.toolCalls)).getD []

def textsOf (outputs : List (Option (List Nat) × Output Tops)) : String := String.join (outputs.map (·.2.text))

def idsOf (outputs : List (Option (List Nat) × Output Tops)) : List Nat := outputs.flatMap (·.2.tokenIds)

-- The answer that is found trapped when the choice ends.
def ChoiceState.reconciled (c : ChoiceState State) : Option String :=
  if c.finishReasonSent && c.trapped then
    reconcileTrappedContent setup (String.join c.accumulatedText) c.accumulatedTokenIds else none

-- What a choice has done with the outputs it attended.
structure Tells (c d : ChoiceState State) (outputs : List (Option (List Nat) × Output Tops))
    (deltas : List (Option DeltaMessage)) (sent : List (StreamChoice Logprobs)) : Prop where
  made : makes c.parser outputs = some deltas
  text : textOf sent = contentsOf deltas ++ (d.reconciled setup).getD ""
  thoughts : thoughtOf sent = reasoningsOf deltas
  calls : callsOf sent = toolsOf deltas
  class_ : d.parser.isSome = c.parser.isSome
  contents : d.contentStreamed = (c.contentStreamed || decide (contentsOf deltas ≠ ""))
  reasonings : d.reasoningStreamed = (c.reasoningStreamed || decide (reasoningsOf deltas ≠ ""))
  tools : d.toolsStreamed = (c.toolsStreamed || !(toolsOf deltas).isEmpty)
  kept : d.contentStreamed = false → String.join d.accumulatedText = String.join c.accumulatedText ++ textsOf outputs
  ids : d.accumulatedTokenIds = c.accumulatedTokenIds ++ idsOf outputs
  tokens : d.previousNumTokens = c.previousNumTokens + (idsOf outputs).length
  ends : d.finishReasonSent = outputs.any (·.2.finishReason.isSome)
  goes : d.finishReasonSent = false → Open sent
  closes : d.finishReasonSent = true → ∃ body last reason, sent = body ++ [last] ∧ Open body ∧
    (outputs.getLast?.bind (·.2.finishReason)) = some reason ∧
    last.finishReason = some (finishReasonForChoice setup d.toolsStreamed (some reason))

theorem hearAll_finished {c : ChoiceState State} (finished : c.finishReasonSent = true)
    (outputs : List (Option (List Nat) × Output Tops)) : c.hearAll setup outputs = some (c,[]) := by
  induction outputs with
  | nil => rfl
  | cons one rest ih => simp [ChoiceState.hearAll,ChoiceState.hear,finished,ih]

theorem Takes.class_ {c d : ChoiceState State} {promptTokenIds : Option (List Nat)} {output : Output Tops}
    {delta : Option DeltaMessage} {sent : List (StreamChoice Logprobs)} (takes : Takes setup c d promptTokenIds output delta sent) :
    d.parser.isSome = c.parser.isSome := by
  have parsed := takes.parsed
  unfold parseDelta at parsed
  split at parsed
  · rename_i absent
    rw [absent,← (Prod.mk.inj (Option.some.inj parsed)).1]
  · rename_i present
    obtain ⟨_,_,same⟩ := Option.map_eq_some_iff.mp parsed
    rw [present,← (Prod.mk.inj same).1]
    rfl

theorem Takes.reconciled {c d : ChoiceState State} {promptTokenIds : Option (List Nat)} {output : Output Tops}
    {delta : Option DeltaMessage} {sent : List (StreamChoice Logprobs)} (takes : Takes setup c d promptTokenIds output delta sent) :
    d.recovered setup output = d.reconciled setup := by
  rw [ChoiceState.recovered,ChoiceState.reconciled,takes.closes]

theorem spoken_eq (text : Option String) : spoken text = decide (text.getD "" ≠ "") := by
  rw [Bool.eq_iff_iff,spoken_iff,decide_eq_true_iff]

theorem said_append (one rest : String) : decide (one ++ rest ≠ "") = (decide (one ≠ "") || decide (rest ≠ "")) := by
  rw [Bool.eq_iff_iff]
  simp only [decide_eq_true_iff,Bool.or_eq_true,ne_eq,String.append_eq_empty_iff,not_and_or]

section
variable (delta : Option DeltaMessage) (deltas : List (Option DeltaMessage))
  (one : Option (List Nat) × Output Tops) (outputs : List (Option (List Nat) × Output Tops))

@[simp] theorem contentsOf_cons : contentsOf (delta :: deltas) = (delta.bind (·.content)).getD "" ++ contentsOf deltas := by
  simp [contentsOf]

@[simp] theorem reasoningsOf_cons :
    reasoningsOf (delta :: deltas) = (delta.bind (·.reasoning)).getD "" ++ reasoningsOf deltas := by
  simp [reasoningsOf]

@[simp] theorem toolsOf_cons : toolsOf (delta :: deltas) = (delta.map (·.toolCalls)).getD [] ++ toolsOf deltas := by
  simp [toolsOf]

@[simp] theorem textsOf_cons : textsOf (one :: outputs) = one.2.text ++ textsOf outputs := by
  simp [textsOf]

@[simp] theorem idsOf_cons : idsOf (one :: outputs) = one.2.tokenIds ++ idsOf outputs := by
  simp [idsOf]

end

@[simp] theorem contentsOf_nil : contentsOf [] = "" := rfl
@[simp] theorem reasoningsOf_nil : reasoningsOf [] = "" := rfl
@[simp] theorem toolsOf_nil : toolsOf [] = [] := rfl
@[simp] theorem textsOf_nil : textsOf ([] : List (Option (List Nat) × Output Tops)) = "" := rfl
@[simp] theorem idsOf_nil : idsOf ([] : List (Option (List Nat) × Output Tops)) = [] := rfl

theorem any_tools (delta : Option DeltaMessage) :
    (delta.any fun delta => !delta.toolCalls.isEmpty) = !((delta.map (·.toolCalls)).getD []).isEmpty := by
  cases delta <;> rfl

section
variable {c d : ChoiceState State} {one : Option (List Nat) × Output Tops} {delta : Option DeltaMessage}
  {sent : List (StreamChoice Logprobs)}

-- The output that ends a choice.
theorem Takes.tells (takes : Takes setup c d one.1 one.2 delta sent) (finishes : one.2.finishReason.isSome = true) :
    Tells setup c d [one] [delta] sent := by
  obtain ⟨choice,rfl⟩ := takes.last (Option.isSome_iff_ne_none.mp finishes)
  constructor
  case made => simp [makes,takes.parsed]
  case text =>
    rw [takes.said,takes.reconciled setup]
    simp
  case thoughts =>
    rw [takes.thinks]
    simp
  case calls =>
    rw [takes.calls]
    simp
  case class_ => exact takes.class_ setup
  case contents =>
    rw [takes.contents,spoken_eq]
    simp
  case reasonings =>
    rw [takes.reasonings,spoken_eq]
    simp
  case tools =>
    rw [takes.tools,any_tools]
    simp
  case kept =>
    intro silent
    rw [takes.text silent]
    simp [String.join_append]
  case ids =>
    rw [takes.ids]
    simp
  case tokens =>
    rw [takes.tokens]
    simp
  case ends =>
    rw [takes.closes]
    simp
  case goes =>
    intro open_
    rw [takes.closes,finishes] at open_
    cases open_
  case closes =>
    intro _
    obtain ⟨reason,given⟩ := Option.isSome_iff_exists.mp finishes
    refine ⟨[],choice,reason,rfl,?_,?_,?_⟩
    · simp [Open]
    · simp [given]
    · rw [takes.reason choice List.mem_cons_self,given]
      rfl

theorem Takes.then {m : ChoiceState State} {outputs : List (Option (List Nat) × Output Tops)}
    {deltas : List (Option DeltaMessage)} {others : List (StreamChoice Logprobs)}
    (takes : Takes setup c m one.1 one.2 delta sent) (goes : one.2.finishReason = none)
    (tells : Tells setup m d outputs deltas others) : Tells setup c d (one :: outputs) (delta :: deltas) (sent ++ others) := by
  have open_ : Open sent := by
    intro choice there
    rw [takes.reason choice there,goes]
    rfl
  have unfinished : m.recovered setup one.2 = none := by simp [ChoiceState.recovered,goes]
  constructor
  case made => simp [makes,takes.parsed,tells.made]
  case text =>
    rw [textOf_append,takes.said,tells.text,unfinished]
    simp [String.append_assoc]
  case thoughts => rw [thoughtOf_append,takes.thinks,tells.thoughts,reasoningsOf_cons]
  case calls => rw [callsOf_append,takes.calls,tells.calls,toolsOf_cons]
  case class_ => exact tells.class_.trans (takes.class_ setup)
  case contents => rw [tells.contents,takes.contents,spoken_eq,contentsOf_cons,said_append,Bool.or_assoc]
  case reasonings => rw [tells.reasonings,takes.reasonings,spoken_eq,reasoningsOf_cons,said_append,Bool.or_assoc]
  case tools =>
    rw [tells.tools,takes.tools,any_tools,toolsOf_cons,Bool.or_assoc]
    cases (delta.map (·.toolCalls)).getD [] <;> rfl
  case kept =>
    intro silent
    have earlier : m.contentStreamed = false := by
      have said := tells.contents
      rw [silent] at said
      exact (Bool.or_eq_false_iff.mp said.symm).1
    rw [tells.kept silent,takes.text earlier]
    simp [String.join_append,String.append_assoc]
  case ids => rw [tells.ids,takes.ids,idsOf_cons,List.append_assoc]
  case tokens =>
    rw [tells.tokens,takes.tokens,idsOf_cons,List.length_append]
    omega
  case ends =>
    rw [tells.ends]
    simp [goes]
  case goes =>
    intro unended choice there
    rcases List.mem_append.mp there with earlier | later
    · exact open_ choice earlier
    · exact tells.goes unended choice later
  case closes =>
    intro ended
    obtain ⟨body,last,reason,rfl,openBody,named,given⟩ := tells.closes ended
    refine ⟨sent ++ body,last,reason,?_,?_,?_,given⟩
    · rw [List.append_assoc]
    · intro choice there
      rcases List.mem_append.mp there with earlier | later
      · exact open_ choice earlier
      · exact openBody choice later
    · cases outputs with
      | nil => cases named
      | cons first rest => rwa [List.getLast?_cons_cons]

end

theorem hearAll_tells {c d : ChoiceState State} {outputs : List (Option (List Nat) × Output Tops)}
    {sent : List (StreamChoice Logprobs)} (open_ : c.finishReasonSent = false)
    (ran : c.hearAll setup outputs = some (d,sent)) :
    ∃ deltas, Tells setup c d (attended c.previousNumTokens outputs) deltas sent := by
  induction outputs generalizing c sent with
  | nil =>
      cases ran
      refine ⟨[],?_⟩
      constructor
      all_goals simp [makes,textOf,thoughtOf,callsOf,attended,contentsOf,reasoningsOf,toolsOf,textsOf,idsOf,
        ChoiceState.reconciled,open_,Open]
  | cons one rest ih =>
      obtain ⟨middle,choice,others,heard,later,rfl⟩ := (hearAll_cons setup).mp ran
      clear ran
      unfold attended
      split
      · rename_i quiet
        have still : middle = c ∧ choice = none := by
          simpa [ChoiceState.hear,open_,quiet,eq_comm] using heard
        obtain ⟨rfl,rfl⟩ := still
        exact ih open_ later
      · rename_i loud
        obtain ⟨delta,takes⟩ := hear_takes setup open_ loud heard
        split
        · rename_i finishes
          have finished : middle.finishReasonSent = true := takes.closes.trans finishes
          rw [hearAll_finished setup finished] at later
          cases later
          rw [List.append_nil]
          exact ⟨[delta],takes.tells setup finishes⟩
        · rename_i goes
          have goes : one.2.finishReason = none := by simpa using goes
          have unfinished : middle.finishReasonSent = false := takes.closes.trans (by simp [goes])
          obtain ⟨deltas,tells⟩ := ih unfinished later
          rw [takes.tokens] at tells
          exact ⟨delta :: deltas,takes.then setup goes tells⟩

end
end Modelship.Infer.Vllm

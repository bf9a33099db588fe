import Modelship.Infer.EngineStream

namespace Modelship.Infer.Vllm
open Foundation Responses

section
variable {State Tops Logprobs : Type} (setup : Setup State Tops Logprobs)

-- What of the engine's results is for one choice, each output with its result's prompt ids.
def ofChoice (index : Nat) (promptTokenIds : Option (List Nat)) (outputs : List (Output Tops)) :
    List (Option (List Nat) × Output Tops) :=
  (outputs.filter (·.index = index)).map (Prod.mk promptTokenIds)

def heardBy (index : Nat) (results : List (RequestOutput Tops)) : List (Option (List Nat) × Output Tops) :=
  results.flatMap fun res => ofChoice index res.promptTokenIds res.outputs

def promptTokens (results : List (RequestOutput Tops)) : Nat :=
  ((results.filterMap (·.promptTokenIds)).getLast?.map List.length).getD 0

-- What a choice keeps and has sent is what hearing its outputs alone comes to.
def Follows (index : Nat) (heard : List (Option (List Nat) × Output Tops)) (s : Stream State Logprobs) : Prop :=
  ∃ c sent, s.choices[index]? = some c ∧ (ChoiceState.start setup).hearAll setup heard = some (c,sent) ∧
    choicesOf index s.sent = (if s.firstIteration then [] else [roleChoice index]) ++ sent

theorem hearAll_snoc {c d e : ChoiceState State} {heard : List (Option (List Nat) × Output Tops)}
    {sent : List (StreamChoice Logprobs)} {one : Option (List Nat) × Output Tops} {choice : Option (StreamChoice Logprobs)}
    (ran : c.hearAll setup heard = some (d,sent)) (next : d.hear setup one.1 one.2 = some (e,choice)) :
    c.hearAll setup (heard ++ [one]) = some (e,sent ++ choice.toList) := by
  induction heard generalizing c sent with
  | nil =>
      cases ran
      simp [ChoiceState.hearAll,next]
  | cons first rest ih =>
      obtain ⟨middle,own,others,heard,later,rfl⟩ := (hearAll_cons setup).mp ran
      exact (hearAll_cons setup).mpr ⟨middle,own,others ++ choice.toList,heard,ih later,List.append_assoc ..⟩

theorem hear_index {c d : ChoiceState State} {promptTokenIds : Option (List Nat)} {output : Output Tops}
    {choice : StreamChoice Logprobs} (heard : c.hear setup promptTokenIds output = some (d,some choice)) :
    choice.index = output.index := by
  unfold ChoiceState.hear at heard
  split at heard
  · cases heard
  split at heard
  · cases heard
  obtain ⟨parsed,_,done⟩ := Option.map_eq_some_iff.mp heard
  dsimp only at done
  split at done
  · cases done
  · cases done
    rfl

theorem receive_ok {promptTokenIds : Option (List Nat)} {s t : Stream State Logprobs} {output : Output Tops}
    (received : s.receive setup promptTokenIds output = .ok t) :
    ∃ c d choice, s.choices[output.index]? = some c ∧ c.hear setup promptTokenIds output = some (d,choice) ∧
      t = {s with
        choices := s.choices.set output.index d
        sent := s.sent ++ (choice.map fun choice => s.chunk setup d.previousNumTokens [choice]).toList} := by
  unfold Stream.receive at received
  split at received
  · cases received
  · rename_i c found
    split at received
    · cases received
    · rename_i d choice heard
      cases received
      exact ⟨c,d,choice,found,heard,rfl⟩

theorem receive_follows {index : Nat} {promptTokenIds : Option (List Nat)} {s t : Stream State Logprobs} {output : Output Tops}
    {heard : List (Option (List Nat) × Output Tops)} (follows : Follows setup index heard s)
    (received : s.receive setup promptTokenIds output = .ok t) :
    Follows setup index (heard ++ ofChoice index promptTokenIds [output]) t := by
  obtain ⟨c,sent,here,ran,told⟩ := follows
  obtain ⟨own,d,choice,found,next,rfl⟩ := receive_ok setup received
  have brought : choicesOf index (choice.map fun choice => s.chunk setup d.previousNumTokens [choice]).toList =
      if output.index = index then choice.toList else [] := by
    cases choice with
    | none => simp
    | some choice =>
        have named := hear_index setup next
        simp [choicesOf,Stream.chunk,named,List.filter_cons]
  by_cases mine : output.index = index
  · rw [mine] at found
    cases here.symm.trans found
    refine ⟨d,sent ++ choice.toList,?_,?_,?_⟩
    · dsimp only
      rw [mine,List.getElem?_set_self (List.getElem?_eq_some_iff.mp found).1]
    · simp only [ofChoice,List.filter_cons,mine,decide_true,if_true,List.filter_nil,List.map_cons,List.map_nil]
      exact hearAll_snoc setup ran next
    · rw [choicesOf_append,brought,if_pos mine,told,List.append_assoc]
  · refine ⟨c,sent,?_,?_,?_⟩
    · dsimp only
      rw [List.getElem?_set_ne mine]
      exact here
    · simpa [ofChoice,mine] using ran
    · rw [choicesOf_append,brought,if_neg mine,List.append_nil,told]

theorem ofChoice_snoc (index : Nat) (promptTokenIds : Option (List Nat)) (outputs : List (Output Tops)) (output : Output Tops) :
    ofChoice index promptTokenIds (outputs ++ [output]) =
      ofChoice index promptTokenIds outputs ++ ofChoice index promptTokenIds [output] := by
  simp [ofChoice]

-- The stream has followed every choice through what it heard so far.
structure Along (heard : Nat → List (Option (List Nat) × Output Tops)) (began : Bool) (prompt : Nat)
    (s : Stream State Logprobs) : Prop where
  width : s.choices.length = numChoices setup
  began : s.firstIteration = !began
  prompt : s.numPromptTokens = prompt
  own : ∀ index < numChoices setup, Follows setup index (heard index) s
  full : ∀ chunk ∈ s.sent, chunk.choices ≠ [] ∧ ∀ choice ∈ chunk.choices, choice.index < numChoices setup

theorem start_along : Along setup (fun _ => ([] : List (Option (List Nat) × Output Tops))) false 0
    (Stream.start setup : Stream State Logprobs) := by
  constructor
  · exact List.length_replicate
  · rfl
  · rfl
  · intro index asked
    exact ⟨ChoiceState.start setup,[],List.getElem?_replicate_of_lt asked,rfl,rfl⟩
  · intro chunk there
    cases there

theorem numChoices_pos : 0 < numChoices setup := by
  unfold numChoices
  rcases setup.n with _ | _ | n
  · exact Nat.zero_lt_one
  · exact Nat.zero_lt_one
  · exact Nat.succ_pos n

section
variable {heard : Nat → List (Option (List Nat) × Output Tops)} {began : Bool} {prompt : Nat} {s t : Stream State Logprobs}

theorem begin_along (along : Along setup heard began prompt s) (silent : began = false → ∀ index, heard index = [])
    (promptTokenIds : Option (List Nat)) :
    Along setup heard true ((promptTokenIds.map List.length).getD prompt) (s.begin setup promptTokenIds) := by
  have first := along.began
  cases began with
  | true =>
      have same : s.begin setup promptTokenIds =
          {s with numPromptTokens := (promptTokenIds.map List.length).getD s.numPromptTokens} := by
        simp [Stream.begin,first]
      rw [same]
      exact ⟨along.width,first,by rw [along.prompt],along.own,along.full⟩
  | false =>
      unfold Stream.begin
      rw [first]
      constructor
      · exact along.width
      · rfl
      · exact congrArg (Option.getD _) along.prompt
      · intro index asked
        obtain ⟨c,sent,here,ran,told⟩ := along.own index asked
        rw [silent rfl index] at ran ⊢
        cases ran
        refine ⟨_,[],here,rfl,?_⟩
        rw [first] at told
        have roles : ((List.range (numChoices setup)).map (fun i => (roleChoice i : StreamChoice Logprobs))).filter (·.index = index) =
            [roleChoice index] := by
          have once : (List.range (numChoices setup)).filter (· = index) = [index] := by
            rw [List.filter_eq,List.count_eq_one_of_mem List.nodup_range (List.mem_range.mpr asked)]
            rfl
          rw [List.filter_map]
          exact congrArg (List.map roleChoice) once
        simpa [choicesOf,Stream.chunk,roles] using told
      · intro chunk there
        rcases List.mem_append.mp there with earlier | role
        · exact along.full chunk earlier
        · cases List.mem_singleton.mp role
          refine ⟨?_,?_⟩
          · have some_ := numChoices_pos setup
            simp [Stream.chunk]
            omega
          · intro choice there
            obtain ⟨index,asked,rfl⟩ := List.mem_map.mp there
            exact List.mem_range.mp asked

theorem receive_along {promptTokenIds : Option (List Nat)} {output : Output Tops} (along : Along setup heard true prompt s)
    (received : s.receive setup promptTokenIds output = .ok t) :
    Along setup (fun index => heard index ++ ofChoice index promptTokenIds [output]) true prompt t := by
  have own := fun index asked => receive_follows setup (along.own index asked) received
  obtain ⟨c,d,choice,found,next,rfl⟩ := receive_ok setup received
  constructor
  · exact List.length_set.trans along.width
  · exact along.began
  · exact along.prompt
  · exact own
  · intro chunk there
    rcases List.mem_append.mp there with earlier | new
    · exact along.full chunk earlier
    · obtain ⟨one,rfl,rfl⟩ := Option.map_eq_some_iff.mp (Option.mem_toList.mp new)
      refine ⟨List.cons_ne_nil _ _,?_⟩
      intro choice there
      cases List.mem_singleton.mp there
      rw [hear_index setup next,← along.width]
      exact (List.getElem?_eq_some_iff.mp found).1

theorem outputs_along {promptTokenIds : Option (List Nat)} {outputs : List (Output Tops)}
    (along : Along setup heard true prompt s) (ran : outputs.foldlM (Stream.receive setup promptTokenIds) s = .ok t) :
    Along setup (fun index => heard index ++ ofChoice index promptTokenIds outputs) true prompt t := by
  refine foldlM_traced
    (fun before s => Along setup (fun index => heard index ++ ofChoice index promptTokenIds before) true prompt s) ?_ ?_ ran
  · intro before output s t along received
    simp only [ofChoice_snoc,← List.append_assoc]
    exact receive_along setup along received
  · simpa [ofChoice] using along

theorem step_along {res : RequestOutput Tops} (along : Along setup heard began prompt s)
    (silent : began = false → ∀ index, heard index = []) (stepped : s.step setup res = .ok t) :
    Along setup (fun index => heard index ++ ofChoice index res.promptTokenIds res.outputs) true
      ((res.promptTokenIds.map List.length).getD prompt) t :=
  outputs_along setup (begin_along setup along silent res.promptTokenIds) stepped

end

theorem heardBy_append (index : Nat) (earlier later : List (RequestOutput Tops)) :
    heardBy index (earlier ++ later) = heardBy index earlier ++ heardBy index later := by
  simp [heardBy]

theorem promptTokens_snoc (results : List (RequestOutput Tops)) (res : RequestOutput Tops) :
    promptTokens (results ++ [res]) = (res.promptTokenIds.map List.length).getD (promptTokens results) := by
  unfold promptTokens
  cases given : res.promptTokenIds <;> simp [given]

theorem heardBy_silent {results : List (RequestOutput Tops)} (none_ : (!results.isEmpty) = false) (index : Nat) :
    heardBy index results = [] := by
  have empty : results = [] := by simpa using none_
  rw [empty]
  rfl

theorem results_along {results : List (RequestOutput Tops)} {s : Stream State Logprobs}
    (ran : results.foldlM (Stream.step setup) (Stream.start setup) = .ok s) :
    Along setup (fun index => heardBy index results) (!results.isEmpty) (promptTokens results) s := by
  refine foldlM_traced
    (fun before s => Along setup (fun index => heardBy index before) (!before.isEmpty) (promptTokens before) s) ?_ ?_ ran
  · intro before res s t along stepped
    have later := step_along setup along heardBy_silent stepped
    have begun : (!(before ++ [res]).isEmpty) = true := by simp
    rw [promptTokens_snoc,begun]
    simpa [heardBy] using later
  · exact start_along setup

-- Ended or broken off, the stream is one that followed every choice through what of its
-- outputs came before the end.
theorem run_along (results : List (RequestOutput Tops)) (fails : Bool) :
    ∃ heard prompt, ∃ s : Stream State Logprobs, Along setup heard (!results.isEmpty) prompt s ∧
      (∀ index, heard index <+: heardBy index results) ∧
      (streamChatCompletion setup results fails = (s.sent,false) ∨
        (heard = fun index => heardBy index results) ∧ prompt = promptTokens results ∧
          streamChatCompletion setup results fails = (s.sent ++ s.closing setup,true)) := by
  unfold streamChatCompletion
  cases ran : results.foldlM (Stream.step setup) (Stream.start setup) with
  | ok s =>
      refine ⟨_,_,s,results_along setup ran,fun index => List.prefix_rfl,?_⟩
      cases fails with
      | true => exact Or.inl rfl
      | false => exact Or.inr ⟨rfl,rfl,rfl⟩
  | error sent =>
      obtain ⟨before,res,after,middle,rfl,passed,stopped⟩ := foldlM_stopped ran
      obtain ⟨heardOf,output,unheard,last,split_,reached,raised⟩ := foldlM_stopped stopped
      have along := outputs_along setup
        (begin_along setup (results_along setup passed) heardBy_silent res.promptTokenIds) reached
      have begun : (!(before ++ res :: after).isEmpty) = true := by simp
      have same : sent = last.sent := by
        unfold Stream.receive at raised
        split at raised
        · cases raised
          rfl
        · split at raised
          · cases raised
            rfl
          · cases raised
      rw [begun]
      refine ⟨fun index => heardBy index before ++ ofChoice index res.promptTokenIds heardOf,_,last,along,?_,
        Or.inl (by rw [same])⟩
      intro index
      rw [heardBy_append]
      refine (List.prefix_append_right_inj _).mpr ?_
      simp [heardBy,split_,ofChoice,List.append_assoc]

-- How the engine said a choice ended, if it did.
def endOf (outputs : List (Option (List Nat) × Output Tops)) : Option String := outputs.getLast?.bind (·.2.finishReason)

theorem attended_end (tokens : Nat) (outputs : List (Option (List Nat) × Output Tops)) :
    (attended tokens outputs).any (·.2.finishReason.isSome) = (endOf (attended tokens outputs)).isSome := by
  induction outputs generalizing tokens with
  | nil => rfl
  | cons one rest ih =>
      unfold attended
      split
      · exact ih tokens
      · split
        · rename_i finishes
          simp [endOf,finishes]
        · rename_i goes
          rw [List.any_cons,ih]
          cases later : attended (tokens + one.2.tokenIds.length) rest with
          | nil => simp [endOf]
          | cons next others => simp [endOf,goes]

theorem choice_tells {index : Nat} (asked : index < numChoices setup) {heard : Nat → List (Option (List Nat) × Output Tops)}
    {began : Bool} {prompt : Nat} {s : Stream State Logprobs} (along : Along setup heard began prompt s) :
    ∃ c sent deltas, s.choices[index]? = some c ∧
      choicesOf index s.sent = (if began then [roleChoice index] else []) ++ sent ∧
      Tells setup (ChoiceState.start setup) c (attended 0 (heard index)) deltas sent := by
  obtain ⟨c,sent,here,ran,told⟩ := along.own index asked
  obtain ⟨deltas,tells⟩ := hearAll_tells setup (c := ChoiceState.start setup) rfl ran
  refine ⟨c,sent,deltas,here,?_,tells⟩
  rw [told,along.began]
  cases began <;> rfl

theorem closing_choices (index : Nat) (s : Stream State Logprobs) : choicesOf index (s.closing setup) = [] := by
  unfold Stream.closing
  split <;> rfl

theorem Tells.closed {c d : ChoiceState State} {outputs : List (Option (List Nat) × Output Tops)}
    {deltas : List (Option DeltaMessage)} {sent : List (StreamChoice Logprobs)} (tells : Tells setup c d outputs deltas sent) :
    Open sent ∨ Closed sent := by
  cases finished : d.finishReasonSent with
  | false => exact Or.inl (tells.goes finished)
  | true =>
      obtain ⟨body,last,reason,rfl,openBody,_,given⟩ := tells.closes finished
      exact Or.inr (openBody.closes (by simp [given]))

-- Two choices of a model whose stream keeps all it says for thinking, and whose parse of
-- the whole text finds an answer there.
def musing : Setup Unit Unit Unit where
  requestId := "chatcmpl-1"
  modelName := "muse"
  n := some 2
  includeUsage := true
  continuousUsageStats := false
  namedTool := false
  parser := some ⟨(),fun _ text _ _ _ => some ((),some ⟨⟨some text,none,[]⟩,none⟩),fun text _ => some (none,some text,[]),true,
    List.length⟩
  wantLogprobs := false
  buildChatLogprobs := fun _ _ => ()
  mint := fun _ _ => ""

def mused : List (RequestOutput Unit) :=
  [⟨some [1,2,3],[⟨1,"",[],none,none,none⟩,⟨0,"Four",[4],none,none,none⟩]⟩,
    ⟨none,[⟨1,"Five",[5,6],none,some "length",none⟩,⟨0,"teen",[7],none,some "stop",none⟩,⟨0,"!",[8],none,none,none⟩]⟩]

-- Every choice of every stream, ended or broken off, begins with its role, gives its
-- reason to finish at most once, and then is silent; an ended stream gives it for just
-- the choices that the engine finished with an output that is attended: one without text
-- and tokens before the choice's first token is skipped, whatever its reason.
theorem stream_closes_once (results : List (RequestOutput Tops)) (fails : Bool) {index : Nat}
    (asked : index < numChoices setup) :
    ∃ sent, choicesOf index (streamChatCompletion setup results fails).1 =
        (if results.isEmpty then [] else [roleChoice index]) ++ sent ∧
      (Open sent ∨ Closed sent) ∧
      ((streamChatCompletion setup results fails).2 = true → match endOf (attended 0 (heardBy index results)) with
        | none => Open sent
        | some reason => ∃ body last, sent = body ++ [last] ∧ Open body ∧
            last.finishReason = some (finishReasonForChoice setup (!(callsOf sent).isEmpty) (some reason))) := by
  obtain ⟨heard,prompt,s,along,_,outcome⟩ := run_along setup results fails
  obtain ⟨c,sent,deltas,_,told,tells⟩ := choice_tells setup asked along
  refine ⟨sent,?_,tells.closed setup,?_⟩
  · have begins : (if (!results.isEmpty) = true then [roleChoice index] else []) =
        (if results.isEmpty then [] else ([roleChoice index] : List (StreamChoice Logprobs))) := by
      cases results.isEmpty <;> rfl
    rw [← begins,← told]
    rcases outcome with broken | ⟨_,_,ended⟩
    · rw [broken]
    · rw [ended,choicesOf_append,closing_choices,List.append_nil]
  · intro done
    rcases outcome with broken | ⟨whole,_,_⟩
    · rw [broken] at done
      cases done
    · rw [whole] at tells
      have ends := tells.ends
      rw [attended_end] at ends
      have tools : c.toolsStreamed = !(callsOf sent).isEmpty := by
        rw [tells.tools,tells.calls]
        rfl
      cases reason : endOf (attended 0 (heardBy index results)) with
      | none => exact tells.goes (by rw [ends,reason]; rfl)
      | some reason' =>
          obtain ⟨body,last,given,same,openBody,named,finish⟩ := tells.closes (by rw [ends,reason]; rfl)
          refine ⟨body,last,same,openBody,?_⟩
          change endOf _ = _ at named
          cases reason.symm.trans named
          rw [finish,tools]

theorem musing_closes : ∃ sent, choicesOf 1 (streamChatCompletion musing mused true).1 = [roleChoice 1] ++ sent ∧
    (Open sent ∨ Closed sent) := by
  obtain ⟨sent,same,closed,_⟩ := stream_closes_once musing mused true (show 1 < numChoices musing by decide)
  exact ⟨sent,same,closed⟩

-- A choice the engine finished of which the parser let out reasoning and nothing else.
def Stranded (outputs : List (Option (List Nat) × Output Tops)) (deltas : List (Option DeltaMessage)) : Prop :=
  (endOf outputs).isSome ∧ setup.parser.isSome ∧ reasoningsOf deltas ≠ "" ∧ contentsOf deltas = "" ∧ toolsOf deltas = []

instance (outputs : List (Option (List Nat) × Output Tops)) (deltas : List (Option DeltaMessage)) :
    Decidable (Stranded setup outputs deltas) :=
  inferInstanceAs (Decidable (_ ∧ _ ∧ _ ∧ _ ∧ _))

theorem Tells.reconciled {c : ChoiceState State} {tokens : Nat} {heard : List (Option (List Nat) × Output Tops)}
    {deltas : List (Option DeltaMessage)} {sent : List (StreamChoice Logprobs)}
    (tells : Tells setup (ChoiceState.start setup) c (attended tokens heard) deltas sent) :
    c.reconciled setup = if Stranded setup (attended tokens heard) deltas then
      reconcileTrappedContent setup (textsOf (attended tokens heard)) (idsOf (attended tokens heard)) else none := by
  have same : (c.finishReasonSent && c.trapped) = decide (Stranded setup (attended tokens heard) deltas) := by
    have ends := tells.ends
    have parser : c.parser.isSome = setup.parser.isSome := by
      rw [tells.class_]
      exact Option.isSome_map
    rw [attended_end] at ends
    rw [Bool.eq_iff_iff,decide_eq_true_iff (p := Stranded setup (attended tokens heard) deltas)]
    simp only [ChoiceState.trapped,ends,parser,tells.reasonings,tells.contents,tells.tools]
    simp only [ChoiceState.start,Stranded,Bool.false_or,Bool.and_eq_true,Bool.not_eq_true',Bool.not_eq_false',
      decide_eq_true_iff,decide_eq_false_iff_not,List.isEmpty_iff,ne_eq,not_not,and_assoc]
  unfold ChoiceState.reconciled
  rw [same]
  by_cases stranded : Stranded setup (attended tokens heard) deltas
  · have mute : c.contentStreamed = false := by
      rw [tells.contents]
      simp [ChoiceState.start,stranded.2.2.2.1]
    rw [if_pos stranded,if_pos (decide_eq_true stranded),tells.kept mute,tells.ids]
    rfl
  · rw [if_neg stranded,if_neg (by simpa using stranded)]

theorem Tells.answer {c : ChoiceState State} {tokens : Nat} {heard : List (Option (List Nat) × Output Tops)}
    {deltas : List (Option DeltaMessage)} {sent : List (StreamChoice Logprobs)}
    (tells : Tells setup (ChoiceState.start setup) c (attended tokens heard) deltas sent) :
    textOf sent = if Stranded setup (attended tokens heard) deltas then (reconcileTrappedContent setup
      (textsOf (attended tokens heard)) (idsOf (attended tokens heard))).getD "" else contentsOf deltas := by
  rw [tells.text,tells.reconciled setup]
  split
  · rename_i stranded
    rw [stranded.2.2.2.1,String.empty_append]
  · exact String.append_empty

theorem gathered {results : List (RequestOutput Tops)} {fails : Bool}
    (done : (streamChatCompletion setup results fails).2 = true) {index : Nat} (asked : index < numChoices setup) :
    ∃ c sent deltas, Tells setup (ChoiceState.start setup) c (attended 0 (heardBy index results)) deltas sent ∧
      textOf (choicesOf index (streamChatCompletion setup results fails).1) = textOf sent ∧
      thoughtOf (choicesOf index (streamChatCompletion setup results fails).1) = thoughtOf sent ∧
      callsOf (choicesOf index (streamChatCompletion setup results fails).1) = callsOf sent := by
  obtain ⟨heard,prompt,s,along,_,outcome⟩ := run_along setup results fails
  rcases outcome with broken | ⟨whole,_,ended⟩
  · rw [broken] at done
    cases done
  · obtain ⟨c,sent,deltas,_,told,tells⟩ := choice_tells setup asked along
    rw [whole] at tells
    refine ⟨c,sent,deltas,tells,?_⟩
    rw [ended,choicesOf_append,closing_choices,List.append_nil,told]
    cases (!results.isEmpty) <;> exact ⟨by simp [textOf,roleChoice],by simp [thoughtOf,roleChoice],by simp [callsOf,roleChoice]⟩

-- What an ended stream brings of a choice is what the parser makes of the engine's
-- outputs for it, however the outputs of the choices were mixed; a stranded answer is
-- followed by what the parse of the whole text finds.
theorem stream_gathers {results : List (RequestOutput Tops)} {fails : Bool}
    (done : (streamChatCompletion setup results fails).2 = true) {index : Nat} (asked : index < numChoices setup) :
    let outputs := attended 0 (heardBy index results)
    let mine := choicesOf index (streamChatCompletion setup results fails).1
    ∃ deltas, makes (makeParser setup) outputs = some deltas ∧
      thoughtOf mine = reasoningsOf deltas ∧ callsOf mine = toolsOf deltas ∧
      textOf mine = if Stranded setup outputs deltas then
        (reconcileTrappedContent setup (textsOf outputs) (idsOf outputs)).getD "" else contentsOf deltas := by
  obtain ⟨c,sent,deltas,tells,text,thoughts,calls⟩ := gathered setup done asked
  exact ⟨deltas,tells.made,thoughts.trans tells.thoughts,calls.trans tells.calls,text.trans (tells.answer setup)⟩

theorem musing_gathers : ∃ deltas, makes (makeParser musing) (attended 0 (heardBy 0 mused)) = some deltas ∧
    thoughtOf (choicesOf 0 (streamChatCompletion musing mused false).1) = reasoningsOf deltas := by
  obtain ⟨deltas,made,thoughts,_⟩ := stream_gathers musing (show (streamChatCompletion musing mused false).2 = true from rfl)
    (show 0 < numChoices musing by decide)
  exact ⟨deltas,made,thoughts⟩

-- The finished result of which the engine's outputs are the pieces.
structure Assembled (results : List (RequestOutput Tops)) (final : RequestOutput Tops) : Prop where
  width : final.outputs.length = numChoices setup
  pieces : ∀ index output, final.outputs[index]? = some output →
    output.text = textsOf (attended 0 (heardBy index results)) ∧ output.tokenIds = idsOf (attended 0 (heardBy index results))

section
variable {results : List (RequestOutput Tops)} {final : RequestOutput Tops}

theorem assembled_tokens (assembled : Assembled setup results final) {s : Stream State Logprobs} {began : Bool} {prompt : Nat}
    (along : Along setup (fun index => heardBy index results) began prompt s) :
    s.choices.map (·.previousNumTokens) = final.outputs.map (·.tokenIds.length) ∧
      s.choices.map (·.accumulatedTokenIds) = final.outputs.map (·.tokenIds) := by
  have paired : ∀ index : Nat, (s.choices[index]?).map (·.accumulatedTokenIds) = (final.outputs[index]?).map (·.tokenIds) ∧
      (s.choices[index]?).map (·.previousNumTokens) = (final.outputs[index]?).map (·.tokenIds.length) := by
    intro index
    by_cases asked : index < numChoices setup
    · obtain ⟨c,sent,deltas,here,_,tells⟩ := choice_tells setup asked along
      obtain ⟨_,ids⟩ := assembled.pieces index _ (List.getElem?_eq_getElem (assembled.width ▸ asked))
      rw [here,List.getElem?_eq_getElem (assembled.width ▸ asked)]
      simp only [Option.map_some,ids,tells.ids,tells.tokens]
      simp [ChoiceState.start]
    · rw [List.getElem?_eq_none (by rw [along.width]; omega),List.getElem?_eq_none (by rw [assembled.width]; omega)]
      simp
  constructor
  · apply List.ext_getElem?
    intro index
    rw [List.getElem?_map,List.getElem?_map,(paired index).2]
  · apply List.ext_getElem?
    intro index
    rw [List.getElem?_map,List.getElem?_map,(paired index).1]

theorem built_choice {choices : List (ParsedChatOutput × String × Option Logprobs)} {reasoning : Option Nat}
    (built : buildChoices setup final = some (choices,reasoning)) (index : Nat) :
    (final.outputs[index]?).map (buildChoice setup index) = (choices[index]?).map some := by
  obtain ⟨all,parsed,same⟩ := Option.map_eq_some_iff.mp built
  cases same
  have slots : final.outputs.mapIdx (buildChoice setup) = choices.map some := by
    have paired : List.Forall₂ (· = ·) (final.outputs.mapIdx (buildChoice setup)) (choices.map some) :=
      List.forall₂_map_right_iff.mpr (mapM_paired parsed)
    rwa [List.forall₂_eq_eq_eq] at paired
  rw [← List.getElem?_map,← List.getElem?_map,← slots,List.getElem?_mapIdx,List.getElem?_map]

theorem makes_plain {outputs : List (Option (List Nat) × Output Tops)} {deltas : List (Option DeltaMessage)}
    (made : makes (none : Option (Parser State × State)) outputs = some deltas) : contentsOf deltas = textsOf outputs := by
  induction outputs generalizing deltas with
  | nil =>
      cases made
      rfl
  | cons one rest ih =>
      simp only [makes,parseDelta,Option.bind_some,Option.map_eq_some_iff] at made
      obtain ⟨later,others,rfl⟩ := made
      rw [contentsOf_cons,textsOf_cons,ih others]
      rfl

-- What the parse of the whole text finds, where it does not raise.
theorem reconciled_built {number : Nat} {output : Output Tops} {parsed : ParsedChatOutput} {finish : String}
    {logprobs : Option Logprobs} (parser : setup.parser.isSome)
    (built : buildChoice setup number output = some (parsed,finish,logprobs)) :
    (reconcileTrappedContent setup output.text output.tokenIds).getD "" = parsed.content.getD "" := by
  obtain ⟨parser,given⟩ := Option.isSome_iff_exists.mp parser
  obtain ⟨fields,parse,same⟩ := Option.map_eq_some_iff.mp built
  cases same
  rw [given] at parse
  dsimp only at parse
  unfold reconcileTrappedContent
  rw [given]
  dsimp only
  rw [parse,Option.bind_some]
  cases content : nonempty fields.2.1 with
  | none => exact (nonempty_none content).symm
  | some text => rw [(nonempty_some content).2]

-- An ended stream against the result it was made of: the usage it closes with counts the
-- tokens of the whole result, and its answers are the result's where no parser stands
-- between or the parser's stream stranded them.
theorem stream_accounts {fails : Bool} (done : (streamChatCompletion setup results fails).2 = true)
    (assembled : Assembled setup results final) {choices : List (ParsedChatOutput × String × Option Logprobs)}
    {reasoning : Option Nat} (built : buildChoices setup final = some (choices,reasoning)) :
    let spent := (final.outputs.map (·.tokenIds.length)).sum
    (∃ body, (streamChatCompletion setup results fails).1 = body ++ (if setup.includeUsage then
        [⟨setup.requestId,setup.modelName,[],
          some ⟨promptTokens results,spent,promptTokens results + spent,none,reasoning⟩⟩] else []) ∧
      ∀ chunk ∈ body, chunk.choices ≠ []) ∧
    ∀ index parsed finish logprobs, choices[index]? = some (parsed,finish,logprobs) →
      let outputs := attended 0 (heardBy index results)
      ∀ deltas, makes (makeParser setup) outputs = some deltas → setup.parser = none ∨ Stranded setup outputs deltas →
        textOf (choicesOf index (streamChatCompletion setup results fails).1) = parsed.content.getD "" := by
  constructor
  · obtain ⟨heard,prompt,s,along,_,outcome⟩ := run_along setup results fails
    rcases outcome with broken | ⟨whole,rfl,ended⟩
    · rw [broken] at done
      cases done
    · rw [whole] at along
      obtain ⟨tokens,ids⟩ := assembled_tokens setup assembled along
      obtain ⟨all,_,same⟩ := Option.map_eq_some_iff.mp built
      have counted : s.reasoningTokens setup = reasoning := by
        rw [← (Prod.mk.inj same).2]
        unfold Stream.reasoningTokens
        cases setup.parser with
        | none => rfl
        | some parser =>
            have each := congrArg (List.map parser.countReasoningTokens) ids
            simp only [List.map_map] at each
            simp only [Option.bind_some]
            exact congrArg (fun counts => if parser.reasons then some counts.sum else none) each
      refine ⟨s.sent,?_,fun chunk there => (along.full chunk there).1⟩
      rw [ended]
      simp only [Stream.closing,continuousUsage,counted,along.prompt,Stream.completionTokens,tokens]
  · intro index parsed finish logprobs here outputs deltas made settled
    have paired := built_choice setup built index
    rw [here] at paired
    obtain ⟨output,there,chosen⟩ := Option.map_eq_some_iff.mp paired
    have asked : index < numChoices setup := assembled.width ▸ (List.getElem?_eq_some_iff.mp there).1
    obtain ⟨text,ids⟩ := assembled.pieces index output there
    obtain ⟨c,sent,deltas,tells,same,_,_⟩ := gathered setup done asked
    cases made.symm.trans tells.made
    rw [same,tells.answer setup]
    rcases settled with plain | stranded
    · have unstranded : ¬Stranded setup outputs deltas := by
        rintro ⟨_,present,_⟩
        rw [plain] at present
        cases present
      obtain ⟨fields,parse,built⟩ := Option.map_eq_some_iff.mp chosen
      cases built
      rw [plain] at parse
      cases parse
      have none_ : (ChoiceState.start setup).parser = none := by
        simp [ChoiceState.start,makeParser,plain]
      have made := tells.made
      rw [none_] at made
      rw [if_neg unstranded,makes_plain made,← text]
      rfl
    · rw [if_pos stranded,← text,← ids]
      exact reconciled_built setup stranded.2.1 chosen

theorem musing_accounts : ∃ body, (streamChatCompletion musing mused false).1 =
    body ++ [⟨"chatcmpl-1","muse",[],some ⟨3,4,7,none,some 4⟩⟩] := by
  have assembled : Assembled musing mused ⟨none,[⟨0,"Fourteen",[4,7],none,none,none⟩,⟨1,"Five",[5,6],none,none,none⟩]⟩ := by
    constructor
    · rfl
    · intro index output there
      rcases index with _ | _ | index
      · cases there
        exact ⟨rfl,rfl⟩
      · cases there
        exact ⟨rfl,rfl⟩
      · cases there
  obtain ⟨⟨body,same,_⟩,_⟩ := stream_accounts musing (show (streamChatCompletion musing mused false).2 = true from rfl) assembled rfl
  exact ⟨body,same⟩

end
end
end Modelship.Infer.Vllm

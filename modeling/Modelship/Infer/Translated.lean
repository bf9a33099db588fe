import Modelship.Infer.EngineRuns

namespace Modelship.Infer.Vllm
open Foundation Responses

section
variable {State Tops Logprobs : Type} (setup : Setup State Tops Logprobs)

theorem deltas_single {chunks : List (StreamResponse Logprobs)}
    (single : ∀ chunk ∈ chunks, ∀ choice ∈ chunk.choices, choice.index < 1) :
    deltasOf (chunks.map (·.responses)) = (choicesOf 0 chunks).map (·.delta.toDelta) := by
  induction chunks with
  | nil => rfl
  | cons chunk rest ih =>
      have all : chunk.choices.filter (·.index = 0) = chunk.choices := by
        rw [List.filter_eq_self]
        intro choice there
        have first := single chunk List.mem_cons_self choice there
        simpa using first
      have others := ih fun chunk there => single chunk (List.mem_cons_of_mem _ there)
      simp only [deltasOf,List.flatMap_cons,List.map_cons,choicesOf,List.filter_append,List.map_append,all] at others ⊢
      rw [others]
      simp [StreamResponse.responses,Function.comp_def]

theorem parsed_single {chunks : List (StreamResponse Logprobs)}
    (single : ∀ chunk ∈ chunks, ∀ choice ∈ chunk.choices, choice.index < 1) :
    parsedOf (chunks.map (·.responses)) = ⟨some (textOf (choicesOf 0 chunks)),some (thoughtOf (choicesOf 0 chunks)),
      (toolIndices (callsOf (choicesOf 0 chunks))).map (callAt (callsOf (choicesOf 0 chunks)))⟩ := by
  have calls : (chunks.map (·.responses)).flatMap Chunk.calls = callsOf (choicesOf 0 chunks) := by
    rw [calls_deltas,deltas_single single,List.flatMap_map]
    rfl
  unfold parsedOf
  rw [deltas_single single,calls,List.map_map,List.map_map]
  rfl

theorem indices_single (single : numChoices setup = 1) (results : List (RequestOutput Tops)) (fails : Bool) :
    ∀ chunk ∈ (streamChatCompletion setup results fails).1, ∀ choice ∈ chunk.choices, choice.index < 1 := by
  obtain ⟨heard,prompt,s,along,_,outcome⟩ := run_along setup results fails
  rw [← single]
  intro chunk there
  rcases outcome with broken | ⟨_,_,ended⟩
  · rw [broken] at there
    exact (along.full chunk there).2
  · rw [ended] at there
    rcases List.mem_append.mp there with sent | closing
    · exact (along.full chunk sent).2
    · unfold Stream.closing at closing
      split at closing
      · cases List.mem_singleton.mp closing
        intro choice there
        cases there
      · cases closing

-- A streamed response over the engine: its output is what the parser made of the engine's
-- outputs, with a stranded answer recovered, whatever ids its items got.
theorem responses_hear {results : List (RequestOutput Tops)} {fails : Bool}
    (done : (streamChatCompletion setup results fails).2 = true) (single : numChoices setup = 1) (uuids : Uuids)
    (responseId : String) (minted : Nat) :
    let outputs := attended 0 (heardBy 0 results)
    let chunks := (streamChatCompletion setup results fails).1.map (·.responses)
    ∃ deltas, ∃ response : Response, makes (makeParser setup) outputs = some deltas ∧
      response.Bracketed (Translator.translate uuids responseId chunks).finish.out ∧
      response.output.map Item.anonymous = (buildResponsesItemsFromParsed uuids minted
        ⟨some (if Stranded setup outputs deltas then
            (reconcileTrappedContent setup (textsOf outputs) (idsOf outputs)).getD "" else contentsOf deltas),
          some (reasoningsOf deltas),(toolIndices (toolsOf deltas)).map (callAt (toolsOf deltas))⟩).map Item.anonymous := by
  intro outputs chunks
  obtain ⟨c,sent,deltas,tells,text,thoughts,calls⟩ := gathered setup done (single ▸ Nat.zero_lt_one : 0 < numChoices setup)
  have heard : parsedOf chunks = ⟨some (if Stranded setup outputs deltas then
      (reconcileTrappedContent setup (textsOf outputs) (idsOf outputs)).getD "" else contentsOf deltas),
      some (reasoningsOf deltas),(toolIndices (toolsOf deltas)).map (callAt (toolsOf deltas))⟩ := by
    rw [parsed_single (indices_single setup single results fails),text,thoughts,calls,tells.answer setup,tells.thoughts,
      tells.calls]
  have brackets := translate_brackets uuids responseId chunks
  have running := translate_running uuids responseId chunks
  unfold Translator.finish
  generalize Translator.translate uuids responseId chunks = t at brackets running ⊢
  have shaped := brackets
  rw [pieces_deltas] at shaped
  have shaped := shaped.shaped minted
  rw [← calls_deltas] at shaped
  let status := Translator.statusFor t.finishReason
  refine ⟨deltas,⟨t.closeAll.responseId,status.1,t.collectOutput,t.usage,status.2,none⟩,tells.made,?_,?_⟩
  · apply brackets.bracketed running rfl
    split <;> rfl
  · rw [← heard]
    exact shaped

def alone : List (RequestOutput Unit) := [⟨some [1,2,3],[⟨0,"Four",[4],none,none,none⟩,⟨0,"teen",[7],none,some "stop",none⟩]⟩]

theorem alone_translated : ∃ response : Response, response.Bracketed (Translator.translate countedUuids "resp"
    ((streamChatCompletion {musing with n := none} alone false).1.map (·.responses))).finish.out := by
  obtain ⟨_,response,_,bracketed,_⟩ := responses_hear {musing with n := none}
    (show (streamChatCompletion {musing with n := none} alone false).2 = true from rfl) rfl countedUuids "resp" 0
  exact ⟨response,bracketed⟩

end
end Modelship.Infer.Vllm

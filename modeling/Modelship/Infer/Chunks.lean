import Modelship.OpenAI.Shaping

namespace Modelship.Infer
open Foundation Responses

-- `UsageInfo`, with the reasoning tokens where they were counted.
structure UsageInfo where
  promptTokens : Nat
  completionTokens : Nat
  totalTokens : Nat
  cachedTokens : Option Nat
  reasoningTokens : Option Nat
  deriving DecidableEq

structure DeltaMessage extends Delta where
  role : Option String

structure StreamChoice (Logprobs : Type) where
  index : Nat
  delta : DeltaMessage
  logprobs : Option Logprobs
  finishReason : Option String
  stopReason : Option Json

-- `ChatCompletionStreamResponse`.
structure StreamResponse (Logprobs : Type) where
  id : String
  model : String
  choices : List (StreamChoice Logprobs)
  usage : Option UsageInfo

-- `_usage_from_chat`.
def UsageInfo.responses (usage : UsageInfo) : Usage :=
  ⟨usage.promptTokens,usage.completionTokens,usage.totalTokens,usage.cachedTokens.getD 0,usage.reasoningTokens.getD 0⟩

section
variable {Logprobs : Type}

-- What `ResponsesStreamTranslator.process` reads of a chunk.
def StreamResponse.responses (chunk : StreamResponse Logprobs) : Chunk :=
  ⟨chunk.usage.map UsageInfo.responses,chunk.choices.map fun choice => ⟨choice.delta.toDelta,choice.finishReason⟩⟩

-- All that a stream brings of one choice, in order.
def choicesOf (index : Nat) (chunks : List (StreamResponse Logprobs)) : List (StreamChoice Logprobs) :=
  (chunks.flatMap (·.choices)).filter (·.index = index)

def textOf (choices : List (StreamChoice Logprobs)) : String := String.join (choices.map (·.delta.content.getD ""))

def thoughtOf (choices : List (StreamChoice Logprobs)) : String := String.join (choices.map (·.delta.reasoning.getD ""))

def callsOf (choices : List (StreamChoice Logprobs)) : List DeltaToolCall := choices.flatMap (·.delta.toolCalls)

@[simp] theorem choicesOf_nil (index : Nat) : choicesOf index ([] : List (StreamResponse Logprobs)) = [] := rfl

@[simp] theorem choicesOf_append (index : Nat) (earlier later : List (StreamResponse Logprobs)) :
    choicesOf index (earlier ++ later) = choicesOf index earlier ++ choicesOf index later := by
  simp [choicesOf]

@[simp] theorem textOf_append (earlier later : List (StreamChoice Logprobs)) : textOf (earlier ++ later) = textOf earlier ++ textOf later := by
  simp [textOf,String.join_append]

@[simp] theorem thoughtOf_append (earlier later : List (StreamChoice Logprobs)) :
    thoughtOf (earlier ++ later) = thoughtOf earlier ++ thoughtOf later := by
  simp [thoughtOf,String.join_append]

@[simp] theorem callsOf_append (earlier later : List (StreamChoice Logprobs)) :
    callsOf (earlier ++ later) = callsOf earlier ++ callsOf later := by
  simp [callsOf]

-- A choice that closes once: no reason to finish before its last delta, and nothing after it.
def Closed (choices : List (StreamChoice Logprobs)) : Prop :=
  ∃ body last, choices = body ++ [last] ∧ last.finishReason ≠ none ∧ ∀ choice ∈ body, choice.finishReason = none

def Open (choices : List (StreamChoice Logprobs)) : Prop := ∀ choice ∈ choices, choice.finishReason = none

theorem Open.closes {choices : List (StreamChoice Logprobs)} (open_ : Open choices) {last : StreamChoice Logprobs}
    (finishes : last.finishReason ≠ none) : Closed (choices ++ [last]) :=
  ⟨choices,last,rfl,finishes,open_⟩

end
end Modelship.Infer

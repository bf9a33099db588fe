import Mathlib.Algebra.GroupWithZero.Nat
import Modelship.Infer.Chunks

namespace Modelship.Infer.Vllm
open Foundation Responses

-- One completion's part of what the engine hands over, and its whole message.
structure Output (Tops : Type) where
  index : Nat
  text : String
  tokenIds : List Nat
  logprobs : Option Tops
  finishReason : Option String
  stopReason : Option Json

structure RequestOutput (Tops : Type) where
  promptTokenIds : Option (List Nat)
  outputs : List (Output Tops)

-- vLLM's parser class: a fresh instance, one step of its stream, its parse of a full text,
-- and its count of reasoning tokens. `none` is an exception.
structure Parser (State : Type) where
  fresh : State
  parseDelta : State → String → List Nat → Option (List Nat) → Bool → Option (State × Option DeltaMessage)
  parse : String → List Nat → Option (Option String × Option String × List (Option String × String × String))
  reasons : Bool
  countReasoningTokens : List Nat → Nat

structure Setup (State Tops Logprobs : Type) where
  requestId : String
  modelName : String
  n : Option Nat
  includeUsage : Bool
  continuousUsageStats : Bool
  namedTool : Bool
  parser : Option (Parser State)
  wantLogprobs : Bool
  buildChatLogprobs : List Nat → Tops → Logprobs
  mint : Nat → Nat → String

-- `project_delta_tool_calls`: each call's fields as they came.
def projectDeltaToolCalls (calls : List DeltaToolCall) : List DeltaToolCall :=
  calls.map fun call => ⟨call.index,call.id,call.name,call.arguments⟩

def continuousUsage (promptTokens completionTokens : Nat) : UsageInfo :=
  ⟨promptTokens,completionTokens,promptTokens + completionTokens,none,none⟩

section
variable {State Tops Logprobs : Type} (setup : Setup State Tops Logprobs)

def finishReasonForChoice (hasToolCalls : Bool) (engineFinishReason : Option String) : String :=
  let own := match engineFinishReason with
    | some "" | none => "stop"
    | some reason => reason
  if !hasToolCalls then own else if setup.namedTool then own else "tool_calls"

-- `_reconcile_trapped_content`, on a fresh parser; an exception of the parse leaves nothing.
def reconcileTrappedContent (fullText : String) (tokenIds : List Nat) : Option String :=
  match setup.parser with
  | none => none
  | some parser => (parser.parse fullText tokenIds).bind fun parsed => nonempty parsed.2.1

def numChoices : Nat := match setup.n with
  | none | some 0 => 1
  | some n => n

-- What the stream keeps of one choice; its parser is an instance of its own.
structure ChoiceState (State : Type) where
  parser : Option (Parser State × State)
  previousNumTokens : Nat
  accumulatedTokenIds : List Nat
  finishReasonSent : Bool
  toolsStreamed : Bool
  contentStreamed : Bool
  reasoningStreamed : Bool
  accumulatedText : List String

def makeParser : Option (Parser State × State) := setup.parser.map fun parser => (parser,parser.fresh)

def ChoiceState.start : ChoiceState State := ⟨makeParser setup,0,[],false,false,false,false,[]⟩

def spoken (text : Option String) : Bool := (nonempty text).isSome

-- What a parser makes of an output, or the output's text where there is no parser.
def parseDelta (instance_ : Option (Parser State × State)) (promptTokenIds : Option (List Nat)) (output : Output Tops) :
    Option (Option (Parser State × State) × Option DeltaMessage) :=
  match instance_ with
  | none => some (none,some ⟨⟨none,some output.text,[]⟩,none⟩)
  | some (parser,state) =>
    (parser.parseDelta state output.text output.tokenIds promptTokenIds output.finishReason.isSome).map fun parsed =>
      (some (parser,parsed.1),parsed.2)

-- The books on what the engine said, kept whether or not the parser lets anything out.
def ChoiceState.books (c : ChoiceState State) (instance_ : Option (Parser State × State)) (delta : Option DeltaMessage)
    (output : Output Tops) : ChoiceState State :=
  {c with
    parser := instance_
    toolsStreamed := c.toolsStreamed || delta.any fun delta => !delta.toolCalls.isEmpty
    previousNumTokens := c.previousNumTokens + output.tokenIds.length
    accumulatedTokenIds := c.accumulatedTokenIds ++ output.tokenIds
    accumulatedText := if c.contentStreamed then c.accumulatedText else c.accumulatedText ++ [output.text]}

def ChoiceState.told (c : ChoiceState State) (delta : DeltaMessage) : ChoiceState State :=
  let c := if spoken delta.content then {c with contentStreamed := true,accumulatedText := []} else c
  if spoken delta.reasoning then {c with reasoningStreamed := true} else c

def ChoiceState.trapped (c : ChoiceState State) : Bool :=
  c.parser.isSome && c.reasoningStreamed && !c.contentStreamed && !c.toolsStreamed

-- The answer a finishing choice has stranded in its reasoning.
def ChoiceState.recovered (c : ChoiceState State) (output : Output Tops) : Option String :=
  if output.finishReason.isSome && c.trapped then
    reconcileTrappedContent setup (String.join c.accumulatedText) c.accumulatedTokenIds else none

def ChoiceState.choice (c : ChoiceState State) (output : Output Tops) (message : DeltaMessage) : StreamChoice Logprobs where
  index := output.index
  delta := {message with content := (c.recovered setup output).or message.content}
  logprobs := if setup.wantLogprobs then output.logprobs.map (setup.buildChatLogprobs output.tokenIds) else none
  finishReason := output.finishReason.map fun reason => finishReasonForChoice setup c.toolsStreamed (some reason)
  stopReason := output.finishReason.bind fun _ => output.stopReason

def messageOf (delta : DeltaMessage) : DeltaMessage :=
  ⟨⟨delta.reasoning,delta.content,projectDeltaToolCalls delta.toolCalls⟩,delta.role⟩

-- Chunked prefill: nothing new to emit yet.
def Quiet (tokens : Nat) (output : Output Tops) : Prop := output.text = "" ∧ output.tokenIds = [] ∧ tokens = 0

instance (tokens : Nat) (output : Output Tops) : Decidable (Quiet tokens output) :=
  inferInstanceAs (Decidable (_ ∧ _ ∧ _))

-- One output of the engine, for one choice.
def ChoiceState.hear (c : ChoiceState State) (promptTokenIds : Option (List Nat)) (output : Output Tops) :
    Option (ChoiceState State × Option (StreamChoice Logprobs)) :=
  if c.finishReasonSent then some (c,none) else
  if Quiet c.previousNumTokens output then some (c,none) else
  (parseDelta c.parser promptTokenIds output).map fun parsed =>
    let c := c.books parsed.1 parsed.2 output
    if parsed.2.isNone && output.finishReason.isNone then (c,none) else
    let message := messageOf (parsed.2.getD ⟨⟨none,none,[]⟩,none⟩)
    let c := c.told message
    ({c with finishReasonSent := output.finishReason.isSome},some (c.choice setup output message))

structure Stream (State Logprobs : Type) where
  choices : List (ChoiceState State)
  firstIteration : Bool
  numPromptTokens : Nat
  sent : List (StreamResponse Logprobs)

def Stream.start : Stream State Logprobs := ⟨List.replicate (numChoices setup) (ChoiceState.start setup),true,0,[]⟩

def Stream.usage (s : Stream State Logprobs) (completionTokens : Nat) : Option UsageInfo :=
  if setup.includeUsage && setup.continuousUsageStats then some (continuousUsage s.numPromptTokens completionTokens) else none

def Stream.chunk (s : Stream State Logprobs) (completionTokens : Nat) (choices : List (StreamChoice Logprobs)) :
    StreamResponse Logprobs :=
  ⟨setup.requestId,setup.modelName,choices,s.usage setup completionTokens⟩

def roleChoice (index : Nat) : StreamChoice Logprobs := ⟨index,⟨⟨none,some "",[]⟩,some "assistant"⟩,none,none,none⟩

-- An output for a choice that was not asked for is an index error; an exception leaves
-- what was sent.
def Stream.receive (promptTokenIds : Option (List Nat)) (s : Stream State Logprobs) (output : Output Tops) :
    Except (List (StreamResponse Logprobs)) (Stream State Logprobs) :=
  match s.choices[output.index]? with
  | none => .error s.sent
  | some c => match c.hear setup promptTokenIds output with
    | none => .error s.sent
    | some (c,choice) =>
      .ok {s with
        choices := s.choices.set output.index c
        sent := s.sent ++ (choice.map fun choice => s.chunk setup c.previousNumTokens [choice]).toList}

-- A result's prompt, and before the first one's outputs the chunk with the roles.
def Stream.begin (s : Stream State Logprobs) (promptTokenIds : Option (List Nat)) : Stream State Logprobs :=
  let s := {s with numPromptTokens := (promptTokenIds.map List.length).getD s.numPromptTokens}
  if s.firstIteration then
    {s with
      firstIteration := false
      sent := s.sent ++ [s.chunk setup 0 ((List.range (numChoices setup)).map roleChoice)]} else s

def Stream.step (s : Stream State Logprobs) (res : RequestOutput Tops) :
    Except (List (StreamResponse Logprobs)) (Stream State Logprobs) :=
  res.outputs.foldlM (Stream.receive setup res.promptTokenIds) (s.begin setup res.promptTokenIds)

def Stream.completionTokens (s : Stream State Logprobs) : Nat := (s.choices.map (·.previousNumTokens)).sum

def Stream.reasoningTokens (s : Stream State Logprobs) : Option Nat :=
  match setup.parser with
  | some parser => if parser.reasons then
      some ((s.choices.map fun c => parser.countReasoningTokens c.accumulatedTokenIds).sum) else none
  | none => none

-- The last chunk, with the usage of the whole where it is asked for.
def Stream.closing (s : Stream State Logprobs) : List (StreamResponse Logprobs) :=
  if setup.includeUsage then
    [⟨setup.requestId,setup.modelName,[],
      some {continuousUsage s.numPromptTokens s.completionTokens with reasoningTokens := s.reasoningTokens setup}⟩] else []

-- `stream_chat_completion`: the chunks it yields, and whether it ended without an exception;
-- the engine may fail after what it has handed over.
def streamChatCompletion (results : List (RequestOutput Tops)) (fails : Bool) : List (StreamResponse Logprobs) × Bool :=
  match results.foldlM (Stream.step setup) (Stream.start setup) with
  | .error sent => (sent,false)
  | .ok s => if fails then (s.sent,false) else (s.sent ++ s.closing setup,true)

-- `build_choices`, on a finished output; `none` where the parse raises.
def buildChoice (number : Nat) (output : Output Tops) : Option (ParsedChatOutput × String × Option Logprobs) :=
  let parsed : Option (Option String × Option String × List (Option String × String × String)) := match setup.parser with
    | none => some (none,some output.text,[])
    | some parser => parser.parse output.text output.tokenIds
  parsed.map fun parsed =>
    let calls := parsed.2.2.mapIdx fun call fields => ⟨(nonempty fields.1).getD (setup.mint number call),fields.2.1,fields.2.2⟩
    (⟨parsed.2.1,parsed.1,calls⟩,finishReasonForChoice setup (!calls.isEmpty) output.finishReason,
      if setup.wantLogprobs then output.logprobs.map (setup.buildChatLogprobs output.tokenIds) else none)

def buildChoices (final : RequestOutput Tops) : Option (List (ParsedChatOutput × String × Option Logprobs) × Option Nat) :=
  (final.outputs.mapIdx (buildChoice setup)).mapM id |>.map fun choices =>
    (choices,setup.parser.bind fun parser =>
      if parser.reasons then some ((final.outputs.map fun output => parser.countReasoningTokens output.tokenIds).sum) else none)

end
end Modelship.Infer.Vllm

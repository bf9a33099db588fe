import Mathlib.Algebra.GroupWithZero.Nat
import Modelship.OpenAI.Brackets
import Modelship.OpenAI.Mcp.Approval
import Modelship.OpenAI.Mcp.Envelope

namespace Modelship.Mcp
open Foundation Responses Stitcher

namespace Stitcher
section
variable (uuids : Uuids) {toolIndex : ToolIndex}

-- A call's name leads to an answer: no server has it, or its server's policy can be read.
def decides (toolIndex : ToolIndex) (name : String) : Bool := (classify toolIndex name).isOk

-- What a step needs in order not to raise.
def Safe (toolIndex : ToolIndex) : Event → Prop
  | .added _ (.functionCall _ _ name _ _) => name ≠ "" → decides toolIndex name = true
  | .done _ item => isFunctionCall item = false
  | _ => True

end
end Stitcher

-- What a translator has said of its calls: their names so far, and no call is done.
def Announced (t : Translator) : Event → Prop
  | .added _ (.functionCall _ _ name _ _) => name ≠ "" → ∃ entry ∈ t.tools.entries, entry.2.name = name
  | .done _ _ => False
  | _ => True

theorem Announced.grows {t u : Translator} {event : Event} (announced : Announced t event)
    (kept : ∀ entry ∈ t.tools.entries, entry.2.name ≠ "" → ∃ other ∈ u.tools.entries, other.2.name = entry.2.name) :
    Announced u event := by
  cases event with
  | envelope | part => trivial
  | done => cases announced
  | added index item =>
      cases item with
      | functionCall id callId name arguments status =>
          intro named
          obtain ⟨entry,there,same⟩ := announced named
          obtain ⟨other,present,equal⟩ := kept entry there (same ▸ named)
          exact ⟨other,present,equal.trans same⟩
      | reasoning | message | mcpListTools | mcpCall | mcpApprovalRequest => trivial

-- Writing one call keeps the names, where it keeps that call's.
theorem set_names {tools : Dict Int OpenTool} {key : Int} {tool : OpenTool}
    (same : ∀ old, tools.get? key = some old → old.name = "" ∨ tool.name = old.name) :
    ∀ entry ∈ tools.entries, entry.2.name ≠ "" →
      ∃ other ∈ (tools.set key tool).entries, other.2.name = entry.2.name := by
  intro entry there named
  have found := Dict.mem_get_some there
  by_cases equal : entry.1 = key
  · rw [equal] at found
    refine ⟨(key,tool),Dict.get_some_mem (by simp),?_⟩
    exact (same _ found).resolve_left named
  · refine ⟨entry,Dict.get_some_mem ?_,rfl⟩
    rw [Dict.get_set,if_neg (fun other => equal other.symm)]
    exact found

theorem announced_steady (inner : Uuids) :
    Translator.Steady inner fun t => ∀ event ∈ t.events, Announced t event := by
  have through : ∀ {t u : Translator} {events : List Event}, u.events = t.events ++ events → u.tools = t.tools →
      (∀ event ∈ events, Announced t event) → (∀ event ∈ t.events, Announced t event) →
      ∀ event ∈ u.events, Announced u event := by
    intro t u events out tools new announced event there
    rw [out] at there
    have before : Announced t event := by
      rcases List.mem_append.mp there with old | now
      · exact announced event old
      · exact new event now
    apply before.grows
    intro entry present _
    rw [tools]
    exact ⟨entry,present,rfl⟩
  constructor
  · intro t text announced
    cases opened : t.reasoning with
    | none =>
        refine through (by simp [Translator.onReasoning,opened,Translator.events,Translator.event]; rfl)
          (by simp [Translator.onReasoning,opened,Translator.event]) ?_ announced
        simp [Announced]
    | some item =>
        refine through (by simp [Translator.onReasoning,opened,Translator.events,Translator.event]; rfl)
          (by simp [Translator.onReasoning,opened,Translator.event]) ?_ announced
        simp [Announced]
  · intro t text announced
    cases opened : t.message with
    | none =>
        refine through (by simp [Translator.onContent,opened,Translator.events,Translator.event]; rfl)
          (by simp [Translator.onContent,opened,Translator.event]) ?_ announced
        simp [Announced]
    | some item =>
        refine through (by simp [Translator.onContent,opened,Translator.events,Translator.event]; rfl)
          (by simp [Translator.onContent,opened,Translator.event]) ?_ announced
        simp [Announced]
  · intro t key drawn tool absent _ _ _ announced event there
    rw [Translator.event_events] at there
    rcases List.mem_append.mp there with old | now
    · apply (announced event old).grows
      apply set_names
      intro other found
      rw [absent] at found
      cases found
    · rw [List.mem_singleton.mp now]
      intro _
      exact ⟨(key,tool),Dict.get_some_mem (by simp [Translator.event]),rfl⟩
  · intro t key tool name found unnamed announced event there
    apply (announced event there).grows
    apply set_names
    intro old same
    rw [found] at same
    cases same
    exact .inl unnamed
  · intro t key tool text found announced event there
    rw [Translator.event_events] at there
    rcases List.mem_append.mp there with old | now
    · apply (announced event old).grows
      apply set_names
      intro other same
      rw [found] at same
      cases same
      exact .inr rfl
    · rw [List.mem_singleton.mp now]
      trivial
  · intro t usage finishReason announced event there
    exact (announced event there).grows fun entry present _ => ⟨entry,present,rfl⟩

theorem translate_announced (inner : Uuids) (responseId : String) (chunks : List Chunk) :
    ∀ event ∈ (Translator.translate inner responseId chunks).events,
      Announced (Translator.translate inner responseId chunks) event := by
  apply (announced_steady inner).translate
  intro event there
  simp only [Translator.events,Translator.begin,Translator.start,Translator.envelope,Translator.event,List.nil_append,
    List.map_append,List.map_cons,List.map_nil,List.mem_append,List.mem_singleton] at there
  rcases there with rfl | rfl <;> trivial

namespace Stitcher
section
variable (uuids : Uuids) {toolIndex : ToolIndex}

end
end Stitcher
-- The names of the calls that a stream closes.
def calledNames (events : List Event) : List String := events.filterMap fun
  | .done _ (.functionCall _ _ name _ _) => some name
  | _ => none

-- A tool of an MCP server that needs no approval.
def runsAtOnce (toolIndex : ToolIndex) (name : String) : Bool :=
  match classify toolIndex name with
  | .ok (.mcp,_) => true
  | _ => false

theorem translate_calledNames (inner : Uuids) (responseId : String) (chunks : List Chunk) :
    calledNames ((Translator.translate inner responseId chunks).finish.out.map (·.2)) =
      (Translator.translate inner responseId chunks).sorted.map (·.name) := by
  have announced := translate_announced inner responseId chunks
  generalize Translator.translate inner responseId chunks = t at *
  obtain ⟨kind,response,_,_,events⟩ := t.finish_events
  have early : calledNames (t.out.map (·.2)) = [] := by
    apply List.filterMap_eq_nil_iff.mpr
    intro event there
    have told := announced event there
    cases event with
    | envelope | part | added => rfl
    | done => cases told
  have texts : calledNames t.closingTexts = [] := by
    apply List.filterMap_eq_nil_iff.mpr
    intro event there
    have passes := closingTexts_through t event there
    cases event with
    | envelope | part | added => rfl
    | done index item =>
        cases item with
        | functionCall => cases passes
        | reasoning | message | mcpListTools | mcpCall | mcpApprovalRequest => rfl
  have tools : ∀ tools : List OpenTool, calledNames (tools.flatMap Translator.closingTool) = tools.map (·.name) := by
    intro tools
    induction tools with
    | nil => rfl
    | cons tool rest ih =>
        unfold calledNames at ih ⊢
        rw [List.flatMap_cons,List.filterMap_append,ih]
        rfl
  rw [events]
  unfold calledNames at *
  rw [List.filterMap_append,List.filterMap_append,List.filterMap_append,early,texts,tools]
  simp

-- What a turn reports of client calls is told by its output.
def Tells (s : Stitcher) : Prop := s.hadClientFunctionCall = s.turnOutput.any fun placed => isFunctionCall placed.2

namespace Stitcher
section
variable {uuids : Uuids} {toolIndex : ToolIndex}

end
end Stitcher
-- The calls that an inner turn makes: those that run at once, where it is whole and each
-- of its names is decided.
def asked (toolIndex : ToolIndex) : Inner → Nat
  | .stream uuids responseId chunks .finished =>
    let names := calledNames ((Translator.translate uuids responseId chunks).finish.out.map (·.2))
    if names.all (decides toolIndex) then (names.filter (runsAtOnce toolIndex)).length else 0
  | _ => 0

-- The loop asks for another turn after one that only has calls that run at once.
def goesOn (toolIndex : ToolIndex) : Inner → Bool
  | .stream uuids responseId chunks .finished =>
    let names := calledNames ((Translator.translate uuids responseId chunks).finish.out.map (·.2))
    !names.isEmpty && names.all (runsAtOnce toolIndex)
  | _ => false

section
variable {env : Environment} {toolIndex : ToolIndex}

-- The calls of the first turns.
def spent (env : Environment) (toolIndex : ToolIndex) (turns : Nat) : Nat :=
  ((List.range turns).map fun number => asked toolIndex (env.inner number)).sum

-- The loop comes to a turn: each turn before goes on, and leaves the limit unreached.
def Reaches (env : Environment) (toolIndex : ToolIndex) (limit : Int) (number : Nat) : Prop :=
  ∀ before < number, goesOn toolIndex (env.inner before) = true ∧ spent env toolIndex (before + 1) < limit

-- An item of the input that the scan for approvals passes.
def passes (items : List Json) (item : Json) : Bool :=
  !approvalResponse item || hashable (item.get "approval_request_id") &&
    ((requestFor items (item.get "approval_request_id")).bind (resolve item)).isSome

-- The calls that the approvals of the input lead to, up to an item the scan stops at.
def approvedCalls (specs : List McpToolSpec) (found : Found) (items : List Json) : List Call :=
  (items.takeWhile (passes items)).filterMap (executes specs found items)

-- The servers and tools of a request that is let through to its approvals and turns, whose
-- requests for approval can be indexed.
def admitted (env : Environment) (request : Request) : Option (List McpToolSpec × Found) :=
  match preChecks env request with
  | .error _ => none
  | .ok (specs,otherTools) =>
    match discoverAll env (started env) ⟨[],.empty⟩ specs with
    | .inr _ => none
    | .inl (_,found) =>
      match checkCollisions specs found.discovered otherTools with
      | .error _ => none
      | .ok _ => if indexable request.input then some (specs,found) else none

-- The limit holds the approvals that are resumed, and no turn asks for more calls than it
-- leaves after them and the turns before.
def Fits (env : Environment) (request : Request) (limit : Int) : Prop :=
  match admitted env request with
  | none => 0 ≤ limit
  | some (specs,found) =>
    (approvedCalls specs found request.input).length ≤ limit ∧
    (request.input.all (passes request.input) = true → ∀ number < defaultTurnCap,
      Reaches env found.toolIndex limit number → asked found.toolIndex (env.inner number) ≤
        limit - (approvedCalls specs found request.input).length - spent env found.toolIndex number)

end

end Modelship.Mcp

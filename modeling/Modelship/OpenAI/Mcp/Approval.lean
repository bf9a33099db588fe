import Modelship.Foundation.Runs
import Modelship.OpenAI.ResponsesState
import Modelship.OpenAI.Mcp.Alignment

namespace Modelship.Mcp
open Foundation Responses Stitcher

-- The call an item of the input leads to: an approved response whose request names a
-- server of this turn and a tool it has.
def executes (specs : List McpToolSpec) (found : Found) (items : List Json) (item : Json) : Option Call :=
  if approvalResponse item && (item.get "approve").truthy then do
    let request ← requestFor items (item.get "approval_request_id")
    let resolved ← resolve item request
    let spec ← knownTool specs found resolved
    return ⟨spec,resolved.name,resolved.arguments,resolved.id⟩
  else none

section
variable {env : Environment}

theorem executeMcpCall_calls (r : Run) (outerId : String) (index : Nat) (name arguments : String) (spec : McpToolSpec)
    (approvalRequestId : Option String) :
    (executeMcpCall env r outerId index name arguments spec approvalRequestId).1.calls =
      r.calls ++ [⟨spec,name,arguments,approvalRequestId⟩] := by
  unfold executeMcpCall
  simp only
  split <;> rfl

theorem failedEvent_calls (env : Environment) (r : Run) (message code : String) :
    (failedEvent env r message code).1.calls = r.calls := by
  unfold failedEvent
  split <;> rfl

-- Discovery calls no tool.
theorem discover_calls (env : Environment) (r : Run) (spec : McpToolSpec) :
    (∀ u tools, discover env r spec = .inl (u,tools) → u.calls = r.calls) ∧
      ∀ ended, discover env r spec = .inr ended → ended.1.calls = r.calls := by
  unfold discover
  simp only
  cases env.listTools spec with
  | error message =>
      refine ⟨fun u tools asked => (by cases asked),fun ended asked => ?_⟩
      cases asked
      exact failedEvent_calls _ _ _ _
  | ok listed =>
      simp only
      cases filterTools spec listed with
      | error refused =>
          refine ⟨fun u tools asked => (by cases asked),fun ended asked => ?_⟩
          cases asked
          rfl
      | ok tools =>
          refine ⟨fun u tools asked => ?_,fun ended asked => (by cases asked)⟩
          cases asked
          rfl

theorem discoverAll_calls {specs : List McpToolSpec} {r : Run} {before : Found} :
    (∀ u after, discoverAll env r before specs = .inl (u,after) → u.calls = r.calls) ∧
      ∀ ended, discoverAll env r before specs = .inr ended → ended.1.calls = r.calls := by
  induction specs generalizing r before with
  | nil =>
      refine ⟨fun u after found => ?_,fun ended found => (by cases found)⟩
      cases found
      rfl
  | cons spec rest ih =>
      unfold discoverAll
      split
      · refine ⟨fun u after found => (by cases found),fun ended found => ?_⟩
        cases found
        rfl
      · exact ih
      · split
        · rename_i ended asked
          refine ⟨fun u after found => (by cases found),fun other found => ?_⟩
          cases found
          exact (discover_calls env r spec).2 ended asked
        · rename_i v tools asked
          rw [← (discover_calls env r spec).1 v tools asked]
          exact ih

theorem resumeOne_calls (env : Environment) (specs : List McpToolSpec) (found : Found) {items : List Json} {item request : Json}
    {resolved : Resolved} (r : Run) (response : approvalResponse item = true)
    (known : requestFor items (item.get "approval_request_id") = some request)
    (resolves : resolve item request = some resolved) :
    (resumeOne env specs found r item resolved).calls = r.calls ++ (executes specs found items item).toList := by
  unfold resumeOne executes
  simp only [response,known,resolves,Bool.true_and,Option.bind_eq_bind,Option.bind_some]
  cases approve : (item.get "approve").truthy with
  | false =>
      simp only [Bool.false_eq_true,if_false,Option.toList_none,List.append_nil]
      rfl
  | true =>
      cases knownTool specs found resolved with
      | none => exact (List.append_nil _).symm
      | some spec => exact executeMcpCall_calls _ _ _ _ _ _ _

-- What a scan of the input executes, also where it stops early.
theorem resume_calls {specs : List McpToolSpec} {found : Found} {items rest : List Json} {r : Run} :
    (∀ u, resume env specs found items r rest = .inl u →
      u.calls = r.calls ++ rest.filterMap (executes specs found items)) ∧
    ∀ ended, resume env specs found items r rest = .inr ended →
      ∃ part, part <+: rest ∧ ended.1.calls = r.calls ++ part.filterMap (executes specs found items) := by
  induction rest generalizing r with
  | nil =>
      constructor
      · intro u resumed
        cases resumed
        exact (List.append_nil _).symm
      · intro ended resumed
        cases resumed
  | cons item rest ih =>
      unfold resume
      split
      · rename_i other
        have none_ : executes specs found items item = none := by simp [executes,other]
        rw [List.filterMap_cons_none none_]
        refine ⟨ih.1,fun ended resumed => ?_⟩
        obtain ⟨part,shorter,calls⟩ := ih.2 ended resumed
        refine ⟨item :: part,(List.prefix_cons_inj item).mpr shorter,?_⟩
        rw [List.filterMap_cons_none none_,calls]
      · rename_i response
        have response_ : approvalResponse item = true := by simpa using response
        have stops : ∀ ended : Run × Ending, ended.1 = r →
            ∃ part, part <+: item :: rest ∧ ended.1.calls = r.calls ++ part.filterMap (executes specs found items) :=
          fun ended same => ⟨[],List.nil_prefix,by rw [same]; exact (List.append_nil _).symm⟩
        split
        · refine ⟨fun u resumed => (by cases resumed),fun ended resumed => ?_⟩
          cases resumed
          exact stops _ rfl
        · split
          · refine ⟨fun u resumed => (by cases resumed),fun ended resumed => ?_⟩
            cases resumed
            exact stops _ rfl
          · rename_i request known
            split
            · refine ⟨fun u resumed => (by cases resumed),fun ended resumed => ?_⟩
              cases resumed
              exact stops _ rfl
            · rename_i resolved resolves
              have here := resumeOne_calls env specs found r response_ known resolves
              have grown : ∀ part : List Json, (item :: part).filterMap (executes specs found items) =
                  (executes specs found items item).toList ++ part.filterMap (executes specs found items) := by
                intro part
                cases one : executes specs found items item with
                | none => rw [List.filterMap_cons_none one]; rfl
                | some call => rw [List.filterMap_cons_some one]; rfl
              constructor
              · intro u resumed
                rw [ih.1 u resumed,here,grown,List.append_assoc]
              · intro ended resumed
                obtain ⟨part,shorter,calls⟩ := ih.2 ended resumed
                refine ⟨item :: part,(List.prefix_cons_inj item).mpr shorter,?_⟩
                rw [calls,here,grown,List.append_assoc]

-- A call of the turns: its tool needs no approval.
def Free (toolIndex : ToolIndex) (call : Call) : Prop :=
  call.approvalRequestId = none ∧
    ∃ tool, toolIndex.get? call.name = some (call.spec,tool) ∧ requiresApproval call.spec tool = .ok false

theorem settleOne_calls (env : Environment) {toolIndex : ToolIndex} {base : Nat} {tool : OpenTool} {buf : BufferedCall}
    (closed : Closed toolIndex base tool buf) (r : Run) :
    ∃ made, (settleOne env r buf).calls = r.calls ++ made ∧ ∀ call ∈ made, Free toolIndex call := by
  obtain ⟨classification,classified,set_,_⟩ := closed.told.slot
  unfold settleOne
  split
  · rename_i spec index known _
    split
    · exact ⟨[],(List.append_nil _).symm,by simp⟩
    · rename_i other
      refine ⟨[⟨spec,buf.name,buf.arguments,none⟩],executeMcpCall_calls _ _ _ _ _ _ _,?_⟩
      intro call present
      rw [List.mem_singleton.mp present]
      rcases classify_cases classified with ⟨_,_,missing⟩ | ⟨server,listed,entry,same,⟨approval,_⟩ | ⟨_,needless⟩⟩
      · rw [known] at missing
        cases missing
      · rw [approval] at set_
        exact absurd set_ other
      · rw [known] at same
        cases same
        exact ⟨rfl,listed,by rw [← entry,closed.told.name],needless⟩
  · exact ⟨[],(List.append_nil _).symm,by simp⟩

theorem settle_calls (env : Environment) {toolIndex : ToolIndex} {base : Nat} {tools : List OpenTool} {bufs : List BufferedCall}
    (closed : List.Forall₂ (Closed toolIndex base) tools bufs) (r : Run) :
    ∃ made, (bufs.foldl (settleOne env) r).calls = r.calls ++ made ∧ ∀ call ∈ made, Free toolIndex call := by
  induction closed generalizing r with
  | nil => exact ⟨[],(List.append_nil _).symm,by simp⟩
  | @cons tool buf tools bufs first rest ih =>
      obtain ⟨one,here,free⟩ := settleOne_calls env first r
      obtain ⟨more,later,frees⟩ := ih (settleOne env r buf)
      refine ⟨one ++ more,by rw [List.foldl_cons,later,here,List.append_assoc],?_⟩
      intro call present
      rcases List.mem_append.mp present with before | after
      · exact free call before
      · exact frees call after

theorem takeOver_calls {toolIndex : ToolIndex} {base : Nat} {tools : List OpenTool} {r : Run}
    (closed : List.Forall₂ (Closed toolIndex base) tools r.stitcher.pendingMcpCalls) :
    ∃ made, (takeOver env r).calls = r.calls ++ made ∧ ∀ call ∈ made, Free toolIndex call := by
  unfold takeOver
  simp only [places_carried]
  obtain ⟨made,calls,free⟩ := settle_calls env closed
    {r with
      accumulator := fill (r.accumulator ++ List.replicate
        (r.stitcher.turnOutput.length + r.stitcher.pendingMcpCalls.length) none) r.stitcher.turnOutput
      placed := r.placed ++ r.stitcher.turnOutput
      turns := r.turns + 1}
  exact ⟨made,calls,free⟩

theorem streamed_calls {toolIndex : ToolIndex} {uuids : Uuids} {responseId : String} {chunks : List Chunk}
    {ending : StreamEnd} {r : Run} {s : Stitcher} (ran : r.stitcher.runTurn env.uuids toolIndex
      ((streamed (Translator.translate uuids responseId chunks) ending).out.map (·.2)) = .ok s)
    (going : s.innerFailedResponse = none) :
    ∃ made, (takeOver env {r with stitcher := s}).calls = r.calls ++ made ∧ ∀ call ∈ made, Free toolIndex call := by
  -- A stream that breaks off has closed no call.
  have early : r.stitcher.runTurn env.uuids toolIndex
      ((Translator.translate uuids responseId chunks).out.map (·.2)) = .ok s → s.pendingMcpCalls = [] := by
    intro ran
    obtain ⟨_,sent⟩ := cut_sent ran
    exact sent.pending
  have unasked : s.pendingMcpCalls = [] → ∃ made, (takeOver env {r with stitcher := s}).calls = r.calls ++ made ∧
      ∀ call ∈ made, Free toolIndex call := by
    intro none_
    have closed : List.Forall₂ (Closed toolIndex 0) [] s.pendingMcpCalls := by
      rw [none_]
      exact .nil
    exact takeOver_calls (r := {r with stitcher := s}) closed
  cases ending with
  | finished => exact takeOver_calls (finish_turned ran).pending
  | failed message code =>
      obtain ⟨t,response,_,_,rfl⟩ := fail_turned ran
      cases going
  | cut => exact unasked (early ran)
  | broken => exact unasked (early ran)

-- Whatever a turn does, the calls it makes need no approval.
theorem turn_calls {toolIndex : ToolIndex} {maxToolCalls : Option Int} {number count : Nat} {r : Run} :
    (∀ ended, turn env toolIndex maxToolCalls number count r = .inl ended →
      ∃ made, ended.1.calls = r.calls ++ made ∧ ∀ call ∈ made, Free toolIndex call) ∧
    ∀ more u, turn env toolIndex maxToolCalls number count r = .inr (more,u) →
      ∃ made, u.calls = r.calls ++ made ∧ ∀ call ∈ made, Free toolIndex call := by
  have still : ∃ made, r.calls = r.calls ++ made ∧ ∀ call ∈ made, Free toolIndex call :=
    ⟨[],(List.append_nil _).symm,by simp⟩
  constructor
  · intro ended taken
    unfold turn at taken
    split at taken
    · cases taken
      exact still
    · simp only at taken
      split at taken
      · cases taken
        exact still
      · rename_i s ran
        split at taken
        · cases taken
          exact still
        · cases taken
          exact still
        · rename_i going _
          have made := streamed_calls ran going
          split at taken
          · cases taken
            exact made
          · split at taken
            · split at taken
              · cases taken
                exact made
              · cases taken
            · cases taken
  · intro more u taken
    obtain ⟨uuids,responseId,chunks,ending,s,given,ran,going,rfl⟩ := turn_taken (.inr ⟨more,taken⟩)
    exact streamed_calls ran going

theorem turnLoop_calls (env : Environment) (toolIndex : ToolIndex) (maxToolCalls : Option Int) (left count : Nat)
    (r : Run) :
    ∃ made, (turnLoop env toolIndex maxToolCalls left count r).1.calls = r.calls ++ made ∧
      ∀ call ∈ made, Free toolIndex call := by
  induction left generalizing count r with
  | zero => exact ⟨[],(List.append_nil _).symm,by simp⟩
  | succ left ih =>
      unfold turnLoop
      split
      · rename_i ended taken
        exact turn_calls.1 ended taken
      · rename_i more u taken
        obtain ⟨made,calls,free⟩ := turn_calls.2 more u taken
        obtain ⟨later,further,frees⟩ := ih more u
        refine ⟨made ++ later,by rw [further,calls,List.append_assoc],?_⟩
        intro call present
        rcases List.mem_append.mp present with before | after
        · exact free call before
        · exact frees call after

-- The servers and tools a request has found.
def scopeFor (env : Environment) (request : Request) : Option (List McpToolSpec × Found) :=
  match preChecks env request with
  | .error _ => none
  | .ok (specs,_) =>
    match discoverAll env (started env) ⟨[],.empty⟩ specs with
    | .inr _ => none
    | .inl (_,found) => some (specs,found)

-- The calls of a response: those its input approves, up to some item, then those of its
-- turns.
theorem drive_calls (env : Environment) (request : Request) : (drive env request).1.calls = [] ∨
    ∃ specs found part made, scopeFor env request = some (specs,found) ∧ part <+: request.input ∧
      (drive env request).1.calls = part.filterMap (executes specs found request.input) ++ made ∧
      ∀ call ∈ made, Free found.toolIndex call := by
  unfold drive scopeFor
  cases preChecks env request with
  | error refused => exact .inl rfl
  | ok checked =>
      obtain ⟨specs,otherTools⟩ := checked
      simp only
      cases asked : discoverAll env (started env) ⟨[],.empty⟩ specs with
      | inr ended => exact .inl (discoverAll_calls.2 ended asked)
      | inl result =>
          obtain ⟨r,found⟩ := result
          have none_ : r.calls = [] := discoverAll_calls.1 r found asked
          simp only
          split
          · left
            rw [failedEvent_calls,none_]
          · exact .inl none_
          · rcases resumeAll_cases env specs found request.input r with ⟨_,scanned⟩ | ⟨_,raised⟩
            · right
              rw [scanned]
              split
              · rename_i ended resumed
                obtain ⟨part,shorter,calls⟩ := resume_calls.2 ended resumed
                refine ⟨specs,found,part,[],rfl,shorter,?_,by simp⟩
                rw [calls,none_,List.append_nil]
                rfl
              · rename_i v resumed
                have calls := resume_calls.1 v resumed
                obtain ⟨made,later,free⟩ := turnLoop_calls env found.toolIndex request.maxToolCalls defaultTurnCap 0 v
                refine ⟨specs,found,request.input,made,rfl,List.prefix_refl _,?_,free⟩
                rw [later,calls,none_]
                rfl
            · rw [raised]
              exact .inl none_

theorem events_calls (env : Environment) (request : Request) :
    (events env request).1.calls = (drive env request).1.calls := by
  unfold events
  split
  · rename_i r status incomplete driven
    rw [driven]
    split <;> rfl
  · rfl

end

-- An item of a conversation: one the client sent, or one a response has put out.
inductive Traced where
  | sent (item : Json)
  | emitted (item : Item)

def Traced.json : Traced → Json
  | .sent item => item
  | .emitted item => item.dump

-- A tool call that was made, with the items its response was given and the tools it knew.
structure Made where
  items : List Traced
  toolIndex : ToolIndex
  call : Call

-- `stored` has, for each stored response, the items of its chain up to its own output, as
-- `history_async` gives them back; `given` all that the client has sent.
structure Conversation where
  stored : List (List Traced)
  given : List Json
  made : List Made

def Conversation.start : Conversation := ⟨[],[],[]⟩

-- A request for one response. A stream stores its response where it completes, a plain
-- request also where it fails.
structure Ask where
  previous : Option Nat
  input : List Json
  tools : List Json
  toolChoice : Json
  maxToolCalls : Option Int
  stream : Bool
  store : Bool
  uuids : Nat → String
  env : Environment

-- With `mcp` tools the gateway runs the loop; without, a loader answers with some output.
inductive Exchange where
  | mcp (ask : Ask)
  | plain (previous : Option Nat) (input : List Json) (uuids : Nat → String) (output : List Item)

def Conversation.history (c : Conversation) : Option Nat → Option (List Traced)
  | none => some []
  | some previous => c.stored[previous]?

def Ask.items (ask : Ask) (history : List Traced) : List Traced := history ++ ask.input.map .sent

def Ask.request (ask : Ask) (history : List Traced) : Request :=
  ⟨ask.tools,ask.toolChoice,(ask.items history).map Traced.json,ask.previous.map toString,ask.maxToolCalls⟩

-- The response of the terminal event, where it is one that is stored.
def storedOutput (stream : Bool) (r : Run) : Option (List Item) :=
  match r.stitcher.out.getLast? with
  | some (_,.envelope .completed response) | some (_,.envelope .incomplete response) => some response.output
  | some (_,.envelope .failed response) => if stream then none else some response.output
  | _ => none

def kept (history : List Traced) (uuids : Nat → String) (input : List Json) (output : List Item) : List Traced :=
  history ++ (ResponsesState.withIds uuids input).map .sent ++ output.map .emitted

def Conversation.next (c : Conversation) : Exchange → Option Conversation
  | .plain previous input uuids output => do
    let history ← c.history previous
    return {c with stored := c.stored ++ [kept history uuids input output],given := c.given ++ input}
  | .mcp ask => do
    let history ← c.history ask.previous
    let request := ask.request history
    let r := (events ask.env request).1
    let stored := match storedOutput ask.stream r with
      | some output => if ask.store then c.stored ++ [kept history ask.uuids ask.input output] else c.stored
      | none => c.stored
    return {
      stored
      given := c.given ++ ask.input
      made := c.made ++ r.calls.map fun call => ⟨ask.items history,toolIndexFor ask.env request,call⟩}

-- An item that answers the approval request of this id.
def answers (id : String) (item : Json) : Bool := approvalResponse item && item.get "approval_request_id" = .str id

def callsFor (id : String) (made : Made) : Bool := made.call.approvalRequestId = some id

theorem executes_parts {specs : List McpToolSpec} {found : Found} {items : List Json} {item : Json} {call : Call}
    (called : executes specs found items item = some call) :
    ∃ request resolved, approvalResponse item = true ∧
      requestFor items (item.get "approval_request_id") = some request ∧ resolve item request = some resolved ∧
      knownTool specs found resolved = some call.spec ∧ call.name = resolved.name ∧
      call.arguments = resolved.arguments ∧ call.approvalRequestId = resolved.id := by
  unfold executes at called
  split at called
  · rename_i response
    rw [Bool.and_eq_true] at response
    simp only [Option.bind_eq_bind,Option.pure_def,Option.bind_eq_some_iff,Option.some.injEq] at called
    obtain ⟨request,known,resolved,resolves,spec,tool,rfl⟩ := called
    exact ⟨request,resolved,response.1,known,resolves,tool,rfl,rfl,rfl⟩
  · cases called

theorem executes_answers {specs : List McpToolSpec} {found : Found} {items : List Json} {item : Json} {call : Call}
    {id : String} (called : executes specs found items item = some call) (named : call.approvalRequestId = some id) :
    answers id item = true := by
  obtain ⟨request,resolved,response,_,resolves,_,_,_,same⟩ := executes_parts called
  rw [named] at same
  unfold resolve at resolves
  split at resolves
  · rename_i id_ name label arguments told _ _ _
    cases resolves
    simp only at same
    subst same
    unfold approvalId at told
    split at told
    · rename_i text shape
      simp only [Option.some.injEq] at told
      simp [answers,response,shape,told]
    · cases told
    · cases told
  · cases resolves

theorem countP_filterMap_le {One Two : Type} {f : One → Option Two} {p : Two → Bool} {q : One → Bool}
    (leads : ∀ one two, f one = some two → p two = true → q one = true) (list : List One) :
    (list.filterMap f).countP p ≤ list.countP q := by
  induction list with
  | nil => exact Nat.le_refl _
  | cons one rest ih =>
      cases given : f one with
      | none =>
          rw [List.filterMap_cons_none given,List.countP_cons]
          exact Nat.le_add_right_of_le ih
      | some two =>
          rw [List.filterMap_cons_some given,List.countP_cons,List.countP_cons]
          have here : (if p two = true then 1 else 0) ≤ if q one = true then 1 else 0 := by
            by_cases counts : p two = true
            · rw [if_pos counts,if_pos (leads one two given counts)]
            · rw [if_neg counts]
              exact Nat.zero_le _
          omega

-- No approval of the history would run again: none is approved for a tool this turn has.
def unspent (c : Conversation) : Exchange → Bool
  | .plain _ _ _ _ => true
  | .mcp ask =>
    match c.history ask.previous with
    | none => true
    | some history =>
      match scopeFor ask.env (ask.request history) with
      | none => true
      | some (specs,found) =>
        history.all fun entry => (executes specs found (ask.request history).input entry.json).isNone

-- One response makes no more calls for an approval than this turn's own input has answers.
theorem response_calls (ask : Ask) (history : List Traced)
    (spent : ∀ specs found, scopeFor ask.env (ask.request history) = some (specs,found) →
      ∀ entry ∈ history, executes specs found (ask.request history).input entry.json = none) (id : String) :
    (events ask.env (ask.request history)).1.calls.countP (fun call => call.approvalRequestId = some id) ≤
      ask.input.countP (answers id) := by
  rw [events_calls]
  rcases drive_calls ask.env (ask.request history) with none_ | ⟨specs,found,part,made,scope,shorter,calls,free⟩
  · rw [none_]
    exact Nat.zero_le _
  · rw [calls,List.countP_append]
    have turns : made.countP (fun call => call.approvalRequestId = some id) = 0 := by
      apply List.countP_eq_zero.mpr
      intro call present
      simp [(free call present).1]
    have input : (ask.request history).input = history.map Traced.json ++ ask.input := by
      simp [Ask.request,Ask.items,Traced.json,Function.comp_def]
    have old : (history.map Traced.json).filterMap (executes specs found (ask.request history).input) = [] := by
      apply List.filterMap_eq_nil_iff.mpr
      intro item present
      obtain ⟨entry,there,rfl⟩ := List.mem_map.mp present
      exact spent specs found scope entry there
    have scanned := (shorter.sublist.filterMap (executes specs found (ask.request history).input)).countP_le
      (p := fun call => call.approvalRequestId = some id)
    have own_ : ((ask.request history).input.filterMap (executes specs found (ask.request history).input)).countP
        (fun call => call.approvalRequestId = some id) ≤ ask.input.countP (answers id) := by
      conv_lhs => rw [show (ask.request history).input.filterMap (executes specs found (ask.request history).input) =
        ask.input.filterMap (executes specs found (ask.request history).input) by
          conv_lhs => rw [input,List.filterMap_append]
          rw [← input,old,List.nil_append]]
      apply countP_filterMap_le
      intro item call called named
      exact executes_answers called (by simpa using named)
    omega

theorem next_parts {c d : Conversation} {exchange : Exchange} (stepped : c.next exchange = some d) :
    (∃ previous input uuids output history, exchange = .plain previous input uuids output ∧
      c.history previous = some history ∧ d.given = c.given ++ input ∧ d.made = c.made) ∨
    ∃ ask history, exchange = .mcp ask ∧ c.history ask.previous = some history ∧ d.given = c.given ++ ask.input ∧
      d.made = c.made ++ (events ask.env (ask.request history)).1.calls.map fun call =>
        ⟨ask.items history,toolIndexFor ask.env (ask.request history),call⟩ := by
  cases exchange with
  | plain previous input uuids output =>
      simp only [Conversation.next,Option.bind_eq_bind,Option.pure_def,Option.bind_eq_some_iff,
        Option.some.injEq] at stepped
      obtain ⟨history,found,rfl⟩ := stepped
      exact .inl ⟨previous,input,uuids,output,history,rfl,found,rfl,rfl⟩
  | mcp ask =>
      simp only [Conversation.next,Option.bind_eq_bind,Option.pure_def,Option.bind_eq_some_iff,
        Option.some.injEq] at stepped
      obtain ⟨history,found,rfl⟩ := stepped
      exact .inr ⟨ask,history,rfl,found,rfl,rfl⟩

def Spent (c : Conversation) : Prop := ∀ id, c.made.countP (callsFor id) ≤ c.given.countP (answers id)

theorem next_spent {c d : Conversation} {exchange : Exchange} (spent : Spent c) (fresh : unspent c exchange = true)
    (stepped : c.next exchange = some d) : Spent d := by
  intro id
  have before := spent id
  rcases next_parts stepped with ⟨previous,input,uuids,output,history,_,_,given,made⟩ |
    ⟨ask,history,rfl,found,given,made⟩
  · rw [given,made,List.countP_append]
    exact Nat.le_add_right_of_le before
  · have spent : ∀ specs discovered, scopeFor ask.env (ask.request history) = some (specs,discovered) →
        ∀ entry ∈ history, executes specs discovered (ask.request history).input entry.json = none := by
      intro specs discovered scope entry present
      unfold unspent at fresh
      simp only [found,scope,List.all_eq_true,Option.isNone_iff_eq_none] at fresh
      exact fresh entry present
    have once := response_calls ask history spent id
    rw [given,made,List.countP_append,List.countP_append,List.countP_map]
    exact Nat.add_le_add before once

-- In every conversation whose turns find no approval of their history that would run
-- again, an approval that the client has sent once leads to one call at most.
theorem approval_runs_once {exchanges : List Exchange} {c : Conversation}
    (fresh : Meets Conversation.next (fun c exchange => unspent c exchange = true) .start exchanges)
    (ran : execute Conversation.next .start exchanges = some c) (id : String)
    (sentOnce : c.given.countP (answers id) = 1) : c.made.countP (callsFor id) ≤ 1 := by
  have start : Spent .start := fun _ => Nat.le_refl _
  have spent : Spent c := meets_invariant (fun c exchange d spent fresh stepped => next_spent spent fresh stepped)
    start fresh ran
  exact Nat.le_trans (spent id) (Nat.le_of_eq sentOnce)

-- A call that waits for approval, the client's answer, and a turn that goes on from there.
def asksFirst (_ : Nat) : Inner := .stream sampleUuids "inner" [calling "search"] .finished

def sampleAsk (previous : Option Nat) (input : List Json) (inner : Nat → Inner) : Exchange :=
  .mcp {
    previous,input
    tools := (sampleRequest "always" [] none).tools
    toolChoice := .null
    maxToolCalls := none
    stream := true
    store := true
    uuids := sampleUuids.draw
    env := sampleEnvironment inner}

def approval (id : String) (approve : Json) : Json :=
  .obj [("type",.str "mcp_approval_response"),("approval_request_id",.str id),("approve",approve)]

def approving : List Exchange := [sampleAsk none [] asksFirst,sampleAsk (some 0) [approval "mcpr_" (.bool true)] spoken]

theorem approval_runs_once_approved : ∃ c, execute Conversation.next .start approving = some c ∧
    c.made.countP (callsFor "mcpr_") ≤ 1 := by
  obtain ⟨c,ran,sentOnce⟩ : ∃ c, execute Conversation.next .start approving = some c ∧
      c.given.countP (answers "mcpr_") = 1 := ⟨_,rfl,by decide +kernel⟩
  exact ⟨c,ran,approval_runs_once (by decide +kernel) ran "mcpr_" sentOnce⟩

theorem approval_runs_again : ∃ c,
    execute Conversation.next .start (approving ++ [sampleAsk (some 1) [] spoken]) = some c ∧
      c.given.countP (answers "mcpr_") = 1 ∧ c.made.countP (callsFor "mcpr_") = 2 := by
  have counted : (execute Conversation.next .start (approving ++ [sampleAsk (some 1) [] spoken])).map
      (fun c => (c.given.countP (answers "mcpr_"),c.made.countP (callsFor "mcpr_"))) = some (1,2) := by
    decide +kernel
  obtain ⟨c,ran,counts⟩ := Option.map_eq_some_iff.mp counted
  exact ⟨c,ran,congrArg Prod.fst counts,congrArg Prod.snd counts⟩

-- The policy of a tool's server asks for approval.
def needsApproval (spec : McpToolSpec) (tool : ListedTool) : Bool :=
  match requiresApproval spec tool with
  | .ok needed => needed
  | .error _ => false

-- The client approves with a real `true`, and has sent no request of its own, now or
-- earlier in the chain, under the id that it approves.
def honest (items : List Traced) (item : Json) : Bool :=
  item.get "approve" = .bool true && items.all fun
    | .sent request => !(approvalRequest request && request.get "id" = item.get "approval_request_id")
    | .emitted _ => true

-- So it does wherever an approval would run a tool that needs one.
def unforged (c : Conversation) : Exchange → Bool
  | .plain _ _ _ _ => true
  | .mcp ask =>
    match c.history ask.previous with
    | none => true
    | some history =>
      match scopeFor ask.env (ask.request history) with
      | none => true
      | some (specs,found) =>
        let input := (ask.request history).input
        input.all fun item =>
          match executes specs found input item with
          | none => true
          | some call =>
            match found.toolIndex.get? call.name with
            | none => true
            | some (spec,tool) => !(spec = call.spec && needsApproval spec tool) || honest (ask.items history) item

-- What stands behind a call whose tool needs approval: a request for it that an earlier
-- response put out, and the client's answer to that request.
def Approved (made : Made) : Prop :=
  ∀ tool, made.toolIndex.get? made.call.name = some (made.call.spec,tool) →
    requiresApproval made.call.spec tool = .ok true →
    ∃ id response, .emitted (.mcpApprovalRequest id made.call.name made.call.arguments made.call.spec.serverLabel) ∈
        made.items ∧
      .sent response ∈ made.items ∧ approvalResponse response = true ∧ response.get "approve" = .bool true ∧
      response.get "approval_request_id" = .str id

theorem knownTool_label {specs : List McpToolSpec} {found : Found} {resolved : Resolved} {spec : McpToolSpec}
    (known : knownTool specs found resolved = some spec) : spec.serverLabel = resolved.label := by
  unfold knownTool at known
  split at known
  · cases known
  · rename_i other configured
    split at known
    · cases known
      simpa using List.find?_some configured
    · cases known

-- Of what responses put out only an approval request reads as one, and nothing as an answer.
theorem dump_request {item : Item} (request : approvalRequest item.dump = true) :
    ∃ id name arguments label, item = .mcpApprovalRequest id name arguments label := by
  cases item with
  | mcpApprovalRequest id name arguments label => exact ⟨id,name,arguments,label,rfl⟩
  | reasoning | message | functionCall | mcpListTools | mcpCall =>
      simp [approvalRequest,isDict,Item.dump,Json.get,Json.find?,Json.fields] at request

theorem dump_response (item : Item) : approvalResponse item.dump = false := by
  cases item <;> simp [approvalResponse,isDict,Item.dump,Json.get,Json.find?,Json.fields]

theorem resolve_dump {item : Json} {id name arguments label : String} {resolved : Resolved}
    (resolves : resolve item (Item.mcpApprovalRequest id name arguments label).dump = some resolved) :
    resolved.name = name ∧ resolved.label = label ∧ resolved.arguments = arguments := by
  simp only [resolve,textField,Item.dump,Json.find?,Json.fields] at resolves
  split at resolves
  · rename_i one two three four _ second third fourth
    cases resolves
    simp [Json.str?] at second third fourth
    exact ⟨second.symm,third.symm,fourth.symm⟩
  · cases resolves

-- The request that counts for an id is one that a response has put out, where the client
-- has sent none under it.
theorem requestFor_emitted {items : List Traced} {item request : Json} (honest_ : honest items item = true)
    (known : requestFor (items.map Traced.json) (item.get "approval_request_id") = some request) :
    ∃ made, .emitted made ∈ items ∧ request = made.dump := by
  have counts := List.find?_some known
  obtain ⟨traced,there,rfl⟩ := List.mem_map.mp (List.mem_reverse.mp (List.mem_of_find?_eq_some known))
  unfold honest at honest_
  rw [Bool.and_eq_true,List.all_eq_true] at honest_
  cases traced with
  | emitted made => exact ⟨made,there,rfl⟩
  | sent other =>
      have apart := honest_.2 _ there
      simp only [show (Traced.sent other).json = other from rfl] at counts
      simp [counts] at apart

theorem honest_approved {ask : Ask} {history : List Traced} {specs : List McpToolSpec} {found : Found} {item : Json}
    {call : Call} {toolIndex : ToolIndex} (present : item ∈ (ask.request history).input)
    (called : executes specs found (ask.request history).input item = some call)
    (honest_ : honest (ask.items history) item = true) : Approved ⟨ask.items history,toolIndex,call⟩ := by
  intro tool _ _
  obtain ⟨request,resolved,response,known,resolves,spec,name,arguments,_⟩ := executes_parts called
  obtain ⟨made,emitted,rfl⟩ := requestFor_emitted honest_ known
  have counts := List.find?_some known
  rw [Bool.and_eq_true] at counts
  obtain ⟨id,name_,arguments_,label,rfl⟩ := dump_request counts.1
  obtain ⟨one,two,three⟩ := resolve_dump resolves
  have id_ : Json.str id = item.get "approval_request_id" := by
    simpa [Item.dump,Json.get,Json.find?,Json.fields] using counts.2
  have sent : Traced.sent item ∈ ask.items history := by
    obtain ⟨traced,there,same⟩ := List.mem_map.mp present
    cases traced with
    | sent other =>
        cases same
        exact there
    | emitted other =>
        rw [← same] at response
        rw [show (Traced.emitted other).json = other.dump from rfl,dump_response] at response
        cases response
  have approve : item.get "approve" = .bool true := by
    unfold honest at honest_
    rw [Bool.and_eq_true] at honest_
    simpa using honest_.1
  refine ⟨id,item,?_,sent,response,approve,id_.symm⟩
  rw [name,arguments,knownTool_label spec,one,two,three]
  exact emitted

theorem scope_index {env : Environment} {request : Request} {specs : List McpToolSpec} {found : Found}
    (scope : scopeFor env request = some (specs,found)) : toolIndexFor env request = found.toolIndex := by
  unfold scopeFor at scope
  unfold toolIndexFor
  cases checked : preChecks env request with
  | error raised =>
      rw [checked] at scope
      cases scope
  | ok parts =>
      obtain ⟨others,rest⟩ := parts
      rw [checked] at scope
      dsimp only at scope ⊢
      cases asked : discoverAll env (started env) ⟨[],.empty⟩ others with
      | inr ended =>
          rw [asked] at scope
          cases scope
      | inl reached =>
          obtain ⟨r,discovered⟩ := reached
          rw [asked] at scope
          cases scope
          rfl

theorem free_approved {made : Made} (free : Free made.toolIndex made.call) : Approved made := by
  intro tool found needed
  obtain ⟨_,other,entry,needless⟩ := free
  rw [found] at entry
  cases entry
  rw [needed] at needless
  cases needless

theorem next_approved {c d : Conversation} {exchange : Exchange} (approved : ∀ made ∈ c.made, Approved made)
    (real : unforged c exchange = true) (stepped : c.next exchange = some d) : ∀ made ∈ d.made, Approved made := by
  rcases next_parts stepped with ⟨previous,input,uuids,output,history,_,_,_,made⟩ | ⟨ask,history,rfl,old,_,made⟩
  · rw [made]
    exact approved
  · rw [made]
    intro one present
    rcases List.mem_append.mp present with before | now
    · exact approved one before
    · obtain ⟨call,called,rfl⟩ := List.mem_map.mp now
      rw [events_calls] at called
      rcases drive_calls ask.env (ask.request history) with none_ | ⟨specs,found,part,turns,scope,shorter,calls,free⟩
      · rw [none_] at called
        cases called
      · rw [scope_index scope]
        rw [calls] at called
        rcases List.mem_append.mp called with resumed | turn
        · obtain ⟨item,there,executed_⟩ := List.mem_filterMap.mp resumed
          have listed : item ∈ (ask.request history).input := shorter.subset there
          intro tool entry needed
          unfold unforged at real
          simp only [old,scope,List.all_eq_true] at real
          have here := real item listed
          simp only [executed_] at here
          change found.toolIndex.get? call.name = some (call.spec,tool) at entry
          simp only [entry,needsApproval,needed] at here
          exact honest_approved listed executed_ (by simpa using here) tool entry needed
        · exact free_approved (free call turn)

-- In every conversation whose client makes up no request for what it approves, each call
-- of a tool that needs approval has a request that an earlier response of its chain put
-- out, and the client's approval of it.
theorem calls_are_approved {exchanges : List Exchange} {c : Conversation}
    (real : Meets Conversation.next (fun c exchange => unforged c exchange = true) .start exchanges)
    (ran : execute Conversation.next .start exchanges = some c) : ∀ made ∈ c.made, Approved made := by
  have start : ∀ made ∈ Conversation.start.made, Approved made := by
    intro made present
    cases present
  have kept := fun c exchange d approved real stepped =>
    @next_approved c d exchange approved real stepped
  exact meets_invariant kept start real ran

theorem calls_are_approved_once : ∃ c made, execute Conversation.next .start approving = some c ∧ made ∈ c.made ∧
    Approved made := by
  have one : (execute Conversation.next .start approving).map (fun c => c.made.length) = some 1 := by decide +kernel
  obtain ⟨c,ran,length⟩ := Option.map_eq_some_iff.mp one
  obtain ⟨made,same⟩ := List.length_eq_one_iff.mp length
  have present : made ∈ c.made := by
    rw [same]
    exact List.mem_singleton_self made
  exact ⟨c,made,ran,present,calls_are_approved (by decide +kernel) ran made present⟩

-- A client that continues some response sends both the request and its answer.
def madeUp : Json :=
  .obj [("type",.str "mcp_approval_request"),("id",.str "mine"),("name",.str "search"),
    ("arguments",.str "all"),("server_label",.str "docs")]

def forging : List Exchange :=
  [sampleAsk none [] spoken,sampleAsk (some 0) [madeUp,approval "mine" (.bool true)] spoken]

-- A call of a tool that needs approval, where no response has put out a request for one.
def unasked (made : Made) : Bool :=
  (match made.toolIndex.get? made.call.name with
  | some (spec,tool) => spec = made.call.spec && needsApproval spec tool
  | none => false) &&
  made.items.all fun
    | .emitted (.mcpApprovalRequest _ _ _ _) => false
    | _ => true

theorem unasked_unapproved {made : Made} (unasked_ : unasked made = true) : ¬ Approved made := by
  intro approved
  unfold unasked at unasked_
  rw [Bool.and_eq_true,List.all_eq_true] at unasked_
  obtain ⟨needed,none_⟩ := unasked_
  split at needed
  · rename_i spec tool entry
    rw [Bool.and_eq_true,decide_eq_true_eq] at needed
    obtain ⟨rfl,needs⟩ := needed
    unfold needsApproval at needs
    split at needs
    · rename_i value told
      subst needs
      obtain ⟨id,_,emitted,_⟩ := approved tool entry told
      have refused := none_ _ emitted
      cases refused
    · cases needs
  · cases needed

theorem calls_are_forged : ∃ c made, execute Conversation.next .start forging = some c ∧ made ∈ c.made ∧
    ¬ Approved made := by
  have shown : (execute Conversation.next .start forging).map (fun c => c.made.map unasked) = some [true] := by
    decide +kernel
  obtain ⟨c,ran,calls⟩ := Option.map_eq_some_iff.mp shown
  obtain ⟨made,rest,same,forged,_⟩ := List.map_eq_cons_iff.mp calls
  refine ⟨c,made,ran,?_,unasked_unapproved forged⟩
  rw [same]
  exact List.mem_cons_self

end Modelship.Mcp

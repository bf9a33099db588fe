import Modelship.OpenAI.Continuation
import Modelship.OpenAI.ResponsesState
import Modelship.OpenAI.Mcp.Envelope

namespace Modelship.Mcp
open Foundation Responses ResponsesState Stitcher

-- What a response generator yields: event dicts, one `ResponseObject`, or an error.
inductive Yielded where
  | event (event : Event)
  | response (response : Response)
  | error (response : ErrorResponse)

def terminalResponse : Event → Option Response
  | .envelope kind response => if terminal kind = true then some response else none
  | _ => none

-- `run_mcp_response` over a run of `_events`; an exception passes through it.
def runMcpResponse (stream : Bool) (run : Run × Ending) : List Yielded :=
  let events := run.1.stitcher.out.map (·.2)
  if stream then
    events.map .event ++ match run.2 with
      | .error refused => [.error refused]
      | _ => []
  else match run.2 with
    | .error refused => [.error refused]
    | .raised _ => []
    | _ => (events.filterMap terminalResponse).getLast?.toList.map .response

-- The arguments of a `write_async`.
structure Kept where
  responseId : String
  response : Response
  parent : Option Position
  inputItems : List Json

-- The turns that `persist_response` writes while the items pass.
def persistResponse (parent : Option Position) (inputItems : List Json) (yielded : List Yielded) : List Kept :=
  yielded.filterMap fun item => match item with
    | .response response => some ⟨response.id,response,parent,inputItems⟩
    | .event (.envelope .completed response) | .event (.envelope .incomplete response) =>
      if response.id = "" then none else some ⟨response.id,response,parent,inputItems⟩
    | _ => none

-- `response_id or f"resp_{random_uuid()}"`.
def identified (env : Environment) (responseId : Option String) : Environment :=
  {env with responseId := (nonempty responseId).getD ("resp_" ++ env.uuids.draw 0)}

theorem identified_id (env : Environment) (responseId : Option String) : (identified env responseId).responseId ≠ "" := by
  unfold identified
  cases given : nonempty responseId with
  | none => simp
  | some id => exact (nonempty_some given).1

-- No terminal event is out.
def Calm (r : Run) : Prop := ∀ kind ∈ gathered envelopes r.stitcher.out, terminal kind = false

theorem Calm.same {r u : Run} (calm : Calm r)
    (same : gathered envelopes u.stitcher.out = gathered envelopes r.stitcher.out) : Calm u := by
  unfold Calm
  rw [same]
  exact calm

-- How a run leaves off: before its terminal event, or with `response.failed`.
inductive Ends (env : Environment) : Run → Ending → Prop where
  | error {u : Run} (refused : ErrorResponse) (calm : Calm u) : Ends env u (.error refused)
  | raised {u : Run} (exception : Raised) (calm : Calm u) : Ends env u (.raised exception)
  | reached {u : Run} (status : Status) (incomplete : Option String) (calm : Calm u)
      (final : status = .completed ∨ status = .incomplete) : Ends env u (.reached status incomplete)
  | failed (r : Run) (response : Response) (calm : Calm r) (id : response.id = env.responseId) :
      Ends env (r.emit (.envelope .failed response)) .failed

section
variable (env : Environment) (toolIndex : ToolIndex)

theorem failedEvent_ends {r : Run} (calm : Calm r) (message code : String) :
    Ends env (failedEvent env r message code).1 (failedEvent env r message code).2 := by
  unfold failedEvent
  split
  · exact .raised _ calm
  · exact .failed r _ calm rfl

-- A turn whose stream was read leaves the envelope alone.
theorem runTurn_calm {inner : Uuids} {responseId : String} {chunks : List Chunk} {ending : StreamEnd} {start s : Stitcher}
    (ran : start.runTurn env.uuids toolIndex
      ((streamed (Translator.translate inner responseId chunks) ending).out.map (·.2)) = .ok s) :
    gathered envelopes s.out = gathered envelopes start.out := by
  cases ending with
  | finished => exact (finish_turned ran).calm
  | failed message code =>
      obtain ⟨t,response,shut,_,rfl⟩ := fail_turned ran
      exact shut.calm
  | cut | broken =>
      obtain ⟨_,sent⟩ := cut_sent ran
      exact sent.calm

-- Neither does taking it over.
theorem takeOver_calm {inner : Uuids} {responseId : String} {chunks : List Chunk} {ending : StreamEnd} {r : Run}
    {s : Stitcher} (ran : r.stitcher.runTurn env.uuids toolIndex
      ((streamed (Translator.translate inner responseId chunks) ending).out.map (·.2)) = .ok s)
    (unfailed : s.innerFailedResponse = none) (calm : Calm r) : Calm (takeOver env {r with stitcher := s}) := by
  have emptied : ending = .cut ∨ ending = .broken → Calm (takeOver env {r with stitcher := s}) := by
    intro stopped
    have ran_ : r.stitcher.runTurn env.uuids toolIndex
        ((Translator.translate inner responseId chunks).out.map (·.2)) = .ok s := by
      rcases stopped with rfl | rfl <;> exact ran
    obtain ⟨_,sent⟩ := cut_sent ran_
    have output : s.turnOutput = [] := sent.output
    have pending : s.pendingMcpCalls = [] := sent.pending
    have taken : takeOver env {r with stitcher := s} = {r with stitcher := s,turns := r.turns + 1} := by
      simp [takeOver,output,pending]
    rw [taken]
    exact calm.same sent.calm
  cases ending with
  | finished =>
      obtain ⟨items,took⟩ := takeOver_took env (finish_turned ran)
      exact calm.same took.calm
  | failed message code =>
      obtain ⟨t,response,_,_,rfl⟩ := fail_turned ran
      cases unfailed
  | cut => exact emptied (.inl rfl)
  | broken => exact emptied (.inr rfl)

-- A turn ends the run, or goes on calm.
theorem turn_ends (maxToolCalls : Option Int) (number count : Nat) {r : Run} (calm : Calm r) :
    (turn env toolIndex maxToolCalls number count r).elim (fun ended => Ends env ended.1 ended.2) (fun next => Calm next.2) := by
  unfold turn
  cases given : env.inner number with
  | error refused => exact .error refused calm
  | stream inner responseId chunks ending =>
      simp only
      split
      · exact .raised _ calm
      · rename_i s ran
        have still : Calm {r with stitcher := s} := calm.same (runTurn_calm env toolIndex ran)
        split
        · exact .raised _ still
        · rename_i failed _ _
          exact .failed _ _ still rfl
        · rename_i unfailed
          have taken := takeOver_calm env toolIndex ran unfailed calm
          generalize takeOver env {r with stitcher := s} = taken_ at taken ⊢
          split
          · exact .reached _ _ taken (.inl rfl)
          · split
            · split
              · exact .reached _ _ taken (.inr rfl)
              · exact taken
            · exact taken

theorem turnLoop_ends (maxToolCalls : Option Int) (left count : Nat) {r : Run} (calm : Calm r) :
    Ends env (turnLoop env toolIndex maxToolCalls left count r).1 (turnLoop env toolIndex maxToolCalls left count r).2 := by
  induction left generalizing count r with
  | zero => exact .reached _ _ calm (.inr rfl)
  | succ left ih =>
      have turned := turn_ends env toolIndex maxToolCalls (defaultTurnCap - (left + 1)) count calm
      unfold turnLoop
      cases taken : turn env toolIndex maxToolCalls (defaultTurnCap - (left + 1)) count r with
      | inl ended =>
          rw [taken] at turned
          exact turned
      | inr next =>
          rw [taken] at turned
          exact ih next.1 turned

theorem Calm.emit {r : Run} (calm : Calm r) {event : Event} (silent : envelopes event = []) : Calm (r.emit event) := by
  apply calm.same
  change gathered envelopes (r.stitcher.emit event).out = _
  rw [gathered_emit,silent,List.append_nil]

theorem Calm.append {r : Run} (calm : Calm r) (item : Item) : Calm (r.append item) := calm

theorem discover_ends {r : Run} (calm : Calm r) (spec : McpToolSpec) :
    (discover env r spec).elim (fun found => Calm found.1) (fun ended => Ends env ended.1 ended.2) := by
  have claimed : Calm r.claimSlot.mint := calm
  unfold discover
  split
  · exact failedEvent_ends env (Calm.append ((((claimed.emit rfl).emit rfl).emit rfl).emit rfl) _) _ _
  · split
    · exact .raised _ ((claimed.emit rfl).emit rfl)
    · exact (((claimed.emit rfl).emit rfl).emit rfl).emit rfl

theorem discoverAll_calm (specs : List McpToolSpec) (before : Found) {r : Run} (calm : Calm r) :
    (discoverAll env r before specs).elim (fun found => Calm found.1) (fun ended => Ends env ended.1 ended.2) := by
  induction specs generalizing r before with
  | nil => exact calm
  | cons spec rest ih =>
      have discovered := discover_ends env calm spec
      unfold discoverAll
      split
      · exact .raised _ calm
      · exact ih _ calm
      · split
        · rename_i ended found
          rw [found] at discovered
          exact discovered
        · rename_i u tools found
          rw [found] at discovered
          exact ih _ discovered

theorem resume_ends (specs : List McpToolSpec) (found : Found) (items rest : List Json) {r : Run} (calm : Calm r) :
    (resume env specs found items r rest).elim Calm (fun ended => Ends env ended.1 ended.2) := by
  induction rest generalizing r with
  | nil => exact calm
  | cons item rest ih =>
      unfold resume
      split
      · exact ih calm
      · split
        · exact .raised _ calm
        · split
          · exact .error _ calm
          · split
            · exact .raised _ calm
            · rename_i resolved _
              obtain ⟨made,slotted⟩ := resumeOne_slotted env specs found r item resolved
              exact ih (calm.same slotted.calm)

theorem resumeAll_ends (specs : List McpToolSpec) (found : Found) (items : List Json) {r : Run} (calm : Calm r) :
    (resumeAll env specs found items r).elim Calm (fun ended => Ends env ended.1 ended.2) := by
  rcases resumeAll_cases env specs found items r with ⟨_,scanned⟩ | ⟨_,raised⟩
  · rw [scanned]
    exact resume_ends env specs found items items calm
  · rw [raised]
    exact .raised _ calm

theorem drive_ends (request : Request) :
    Ends env (drive env request).1 (drive env request).2 := by
  have begins : Calm (started env) := by
    intro kind present
    rw [(started_accounts env).only] at present
    rcases List.mem_cons.mp present with rfl | later
    · rfl
    · rw [List.mem_singleton.mp later]
      rfl
  unfold drive
  split
  · exact .error _ (by intro kind present; cases present)
  · rename_i specs otherTools checked
    have discovered := discoverAll_calm env specs ⟨[],.empty⟩ begins
    split
    · rename_i ended told
      rw [told] at discovered
      exact discovered
    · rename_i r found told
      rw [told] at discovered
      split
      · exact failedEvent_ends env discovered _ _
      · exact .raised _ discovered
      · have resumed := resumeAll_ends env specs found request.input discovered
        split
        · rename_i ended left
          rw [left] at resumed
          exact resumed
        · rename_i u left
          rw [left] at resumed
          exact turnLoop_ends env found.toolIndex request.maxToolCalls defaultTurnCap 0 resumed

-- The terminal event is the last, where there is one.
theorem calm_terminals {r : Run} (calm : Calm r) :
    (r.stitcher.out.map (·.2)).filterMap terminalResponse = [] := by
  rw [List.filterMap_eq_nil_iff]
  intro event there
  obtain ⟨entry,present,rfl⟩ := List.mem_map.mp there
  cases sent : entry.2 with
  | envelope kind response =>
      have silent := calm kind (List.mem_flatMap.mpr ⟨entry,present,by rw [sent]; exact List.mem_singleton_self _⟩)
      simp [terminalResponse,silent]
  | _ => rfl

theorem emit_terminals {r : Run} (calm : Calm r) {kind : Envelope} (last : terminal kind = true) (response : Response) :
    ((r.emit (.envelope kind response)).stitcher.out.map (·.2)).filterMap terminalResponse = [response] := by
  have out : (r.emit (.envelope kind response)).stitcher.out.map (·.2) =
      r.stitcher.out.map (·.2) ++ [.envelope kind response] := by
    simp [Run.emit,Stitcher.emit]
  rw [out,List.filterMap_append,calm_terminals calm]
  simp [terminalResponse,last]

-- The response that a run has to leave behind.
def concluded (run : Run × Ending) : Option Response :=
  ((run.1.stitcher.out.map (·.2)).filterMap terminalResponse).getLast?.filter fun response =>
    response.status = .completed || response.status = .incomplete

-- Streamed or not, that response is what is written, and nothing else.
def StoredAlike (run : Run × Ending) : Prop :=
  ∀ stream parent inputItems, persistResponse parent inputItems (runMcpResponse stream run) =
    (concluded run).toList.map fun response => ⟨response.id,response,parent,inputItems⟩

section
variable (parent : Option Position) (inputItems : List Json)

theorem persist_calm {r : Run} (calm : Calm r) :
    persistResponse parent inputItems ((r.stitcher.out.map (·.2)).map .event) = [] := by
  unfold persistResponse
  rw [List.filterMap_map,List.filterMap_eq_nil_iff]
  intro event there
  have silent := List.filterMap_eq_nil_iff.mp (calm_terminals calm) event there
  cases event with
  | envelope kind response =>
      cases kind with
      | created | inProgress | failed => rfl
      | completed | incomplete => simp [terminalResponse,terminal] at silent
  | _ => rfl

theorem persist_last {r : Run} (calm : Calm r) {kind : Envelope} {response : Response} {written : List Kept}
    (last : persistResponse parent inputItems [.event (.envelope kind response)] = written) :
    persistResponse parent inputItems
      (((r.emit (.envelope kind response)).stitcher.out.map (·.2)).map .event) = written := by
  have out : ((r.emit (.envelope kind response)).stitcher.out.map (·.2)).map Yielded.event =
      (r.stitcher.out.map (·.2)).map .event ++ [.event (.envelope kind response)] := by
    simp [Run.emit,Stitcher.emit]
  have before := persist_calm parent inputItems calm
  unfold persistResponse at *
  rw [out,List.filterMap_append,before,last]
  rfl

end

-- A run with no terminal event leaves nothing behind.
theorem calm_alike {r : Run} (calm : Calm r) {ending : Ending}
    (stops : (∃ refused, ending = .error refused) ∨ ∃ exception, ending = .raised exception) :
    StoredAlike (r,ending) := by
  intro stream parent inputItems
  have nothing : concluded (r,ending) = none := by
    unfold concluded
    rw [calm_terminals calm]
    rfl
  have before := persist_calm parent inputItems calm
  rw [nothing]
  unfold persistResponse runMcpResponse at *
  rcases stops with ⟨refused,rfl⟩ | ⟨exception,rfl⟩
  · cases stream with
    | true =>
        simp only [if_true,List.filterMap_append,before]
        rfl
    | false => rfl
  · cases stream with
    | true =>
        simp only [if_true,List.append_nil,before]
        rfl
    | false => rfl

-- One that reaches its end leaves the same response behind in both forms.
theorem reached_alike {r : Run} (calm : Calm r) {kind : Envelope} {response : Response} (named : response.id ≠ "")
    (ended : kind = .completed ∧ response.status = .completed ∨ kind = .incomplete ∧ response.status = .incomplete)
    (status : Status) (incomplete : Option String) :
    StoredAlike (r.emit (.envelope kind response),.reached status incomplete) := by
  have last : terminal kind = true := by
    rcases ended with ⟨rfl,_⟩ | ⟨rfl,_⟩ <;> rfl
  have terminals := emit_terminals calm last response
  have leaves : concluded (r.emit (.envelope kind response),.reached status incomplete) = some response := by
    unfold concluded
    rw [terminals]
    rcases ended with ⟨_,status⟩ | ⟨_,status⟩ <;> simp [status]
  intro stream parent inputItems
  rw [leaves]
  unfold runMcpResponse
  cases stream with
  | true =>
      simp only [if_true,List.append_nil]
      apply persist_last parent inputItems calm
      rcases ended with ⟨rfl,_⟩ | ⟨rfl,_⟩ <;> simp [persistResponse,named]
  | false =>
      simp only [Bool.false_eq_true,if_false]
      rw [terminals]
      rfl

-- One that fails is written where it is not streamed.
theorem failed_unalike {r : Run} (calm : Calm r) (response : Response) :
    ¬StoredAlike (r.emit (.envelope .failed response),.failed) := by
  intro alike
  have streamed := alike true none []
  have whole := alike false none []
  rw [← streamed] at whole
  unfold runMcpResponse at whole
  simp only [if_true,List.append_nil,Bool.false_eq_true,if_false] at whole
  rw [persist_last none [] calm rfl,emit_terminals calm rfl response] at whole
  cases whole

-- A turn is stored in both forms, or in neither, exactly where the run did not fail.
theorem stored_alike (env : Environment) (responseId : Option String) (request : Request) :
    StoredAlike (events (identified env responseId) request) ↔
      (events (identified env responseId) request).2 ≠ .failed := by
  have named := identified_id env responseId
  generalize identified env responseId = env at named ⊢
  have ends := drive_ends env request
  unfold events
  cases driven : drive env request with
  | mk r ending =>
      rw [driven] at ends
      cases ends with
      | error refused calm => exact iff_of_true (calm_alike calm (.inl ⟨refused,rfl⟩)) nofun
      | raised exception calm => exact iff_of_true (calm_alike calm (.inr ⟨exception,rfl⟩)) nofun
      | reached status incomplete calm final =>
          simp only
          split
          · exact iff_of_true (calm_alike calm (.inr ⟨_,rfl⟩)) nofun
          · refine iff_of_true (reached_alike calm named ?_ status incomplete) nofun
            rcases final with rfl | rfl
            · exact .inl ⟨rfl,rfl⟩
            · exact .inr ⟨rfl,rfl⟩
      | failed r response calm id => exact iff_of_false (failed_unalike calm response) (fun unfailed => unfailed rfl)

end

-- Where the second inner turn fails, only the plain form stores the failed response.
theorem failed_run_is_stored :
    ¬StoredAlike (events (identified (sampleEnvironment callsThenFails) none) (sampleRequest "never" [] none)) ∧
    persistResponse none [] (runMcpResponse true
      (events (identified (sampleEnvironment callsThenFails) none) (sampleRequest "never" [] none))) = [] ∧
    ∃ kept, persistResponse none [] (runMcpResponse false
      (events (identified (sampleEnvironment callsThenFails) none) (sampleRequest "never" [] none))) = [kept] ∧
      kept.response.status = .failed := by
  have streamed : persistResponse none [] (runMcpResponse true
      (events (identified (sampleEnvironment callsThenFails) none) (sampleRequest "never" [] none))) = [] := rfl
  refine ⟨?_,streamed,_,rfl,?_⟩
  · intro alike
    have same := (alike true none []).symm.trans streamed
    have whole := (alike false none []).trans same
    cases whole
  · decide +kernel

end Modelship.Mcp

import Modelship.OpenAI.Mcp.Alignment

namespace Modelship.Mcp
open Foundation Responses Stitcher

def terminal : Envelope → Bool
  | .completed | .incomplete | .failed => true
  | .created | .inProgress => false

-- A stream that ends with its one terminal event.
structure Ended (out : List (Nat × Event)) (earlier : List (Nat × Event)) (response : Response) : Prop where
  last : ∃ number kind, out = earlier ++ [(number,.envelope kind response)] ∧ terminal kind = true
  only : gathered envelopes earlier = [.created,.inProgress]

-- Each item that was added is done.
def Shut (out : List (Nat × Event)) : Prop := ∀ one ∈ addeds out, ∃ item, (one.1,item) ∈ dones out ∧ item.id = one.2

-- The run's last turn was cut off: its loader stops in the middle of the stream where the
-- client is gone.
def CutOff (env : Environment) (u : Run) : Prop :=
  ∃ last uuids responseId chunks, u.turns = last + 1 ∧ env.inner last = .stream uuids responseId chunks .cut

-- The request came to its turns.
def Entered (env : Environment) (request : Request) : Prop :=
  ∃ specs otherTools r found v, preChecks env request = .ok (specs,otherTools) ∧
    discoverAll env (started env) ⟨[],.empty⟩ specs = .inl (r,found) ∧
    checkCollisions specs found.discovered otherTools = .ok () ∧ resumeAll env specs found request.input r = .inl v

-- The turn after those taken over failed, and the response passed on has its output.
def PassedOn (env : Environment) (request : Request) (u : Run) (response : Response) : Prop :=
  Entered env request ∧ ∃ uuids responseId chunks message code,
    env.inner u.turns = .stream uuids responseId chunks (.failed message code) ∧
    response.output = (Translator.translate uuids responseId chunks).collectOutput

-- The turn after those taken over was refused, or an approval of the input names no request.
def Rejected (env : Environment) (request : Request) (u : Run) (refused : ErrorResponse) : Prop :=
  Entered env request ∧ env.inner u.turns = .error refused ∨
  ∃ item ∈ request.input, approvalResponse item = true ∧
    requestFor request.input (item.get "approval_request_id") = none ∧ refused = unknownApproval item

-- What went out is accounted for by the output, and all that was opened is closed, unless
-- the last stream was cut off.
structure Complete (env : Environment) (u : Run) (earlier : List (Nat × Event)) (response : Response) : Prop where
  output : ∀ entry ∈ dones earlier, entry.2 ∈ response.output
  closed : CutOff env u ∨ Shut earlier

-- The stream is open, and where no slot is empty the accumulator has every item that is done.
structure Accounts (r : Run) : Prop where
  level : Level r
  counted : r.stitcher.out.map (·.1) = List.range r.stitcher.seq
  only : gathered envelopes r.stitcher.out = [.created,.inProgress]
  listed : none ∉ r.accumulator → ∀ entry ∈ dones r.stitcher.out, some entry.2 ∈ r.accumulator

theorem started_accounts (env : Environment) : Accounts (started env) := by
  constructor
  · constructor
    · rfl
    · intro entry present
      cases present
    · intro entry present
      cases present
  · rfl
  · rfl
  · intro _ entry present
    cases present

theorem started_shut (env : Environment) : Shut (started env).stitcher.out := by
  intro one present
  cases present

section
variable {env : Environment}

theorem Slotted.accounts {r u : Run} {item : Item} (slotted : Slotted r item u) (accounts : Accounts r) :
    Accounts u := by
  constructor
  · exact slotted.level accounts.level
  · exact slotted.counted accounts.counted
  · rw [slotted.calm]
    exact accounts.only
  · intro full entry present
    rw [slotted.done] at present
    rw [slotted.accumulator] at full ⊢
    rcases List.mem_append.mp present with before | now
    · have full_ : none ∉ r.accumulator := fun hole => full (List.mem_append_left _ hole)
      exact List.mem_append_left _ (accounts.listed full_ entry before)
    · rw [List.mem_singleton.mp now]
      exact List.mem_append_right _ (List.mem_singleton_self _)

theorem Slotted.shut {r u : Run} {item : Item} (slotted : Slotted r item u) (shut : Shut r.stitcher.out) :
    Shut u.stitcher.out := by
  intro one present
  rw [slotted.done]
  rcases slotted.added one present with before | rfl
  · obtain ⟨other,there,id⟩ := shut one before
    exact ⟨other,List.mem_append_left _ there,id⟩
  · exact ⟨item,List.mem_append_right _ (List.mem_singleton_self _),rfl⟩

section
variable {toolIndex : ToolIndex} {uuids : Uuids} {t : Translator} {r u : Run} {items : List (Nat × Item)}

theorem Took.earlier (took : Took toolIndex r t items u) (numbered : t.Numbered uuids) (level : Level r) {index : Nat}
    (inside : index < r.accumulator.length) : u.accumulator[index]? = r.accumulator[index]? := by
  have missed : index ∉ (byPosition (own toolIndex) t.closing r.stitcher.offset ++ items).map Prod.fst := by
    intro hit
    obtain ⟨entry,there,rfl⟩ := List.mem_map.mp hit
    have more := ((took.bounds numbered).1 entry there).1
    have length := level.length
    omega
  rw [took.accumulator,fill_miss missed,List.getElem?_append_left inside]

theorem Took.accounts (took : Took toolIndex r t items u) (numbered : t.Numbered uuids) (accounts : Accounts r) :
    Accounts u := by
  have level := accounts.level
  constructor
  · exact took.level numbered level
  · exact took.counted accounts.counted
  · rw [took.calm]
    exact accounts.only
  · intro full entry present
    have before : none ∉ r.accumulator := by
      intro hole
      obtain ⟨index,inside,empty⟩ := List.mem_iff_getElem.mp hole
      have same := took.earlier numbered level inside
      rw [List.getElem?_eq_getElem inside,empty] at same
      exact full (List.mem_of_getElem? same)
    have length : (byPosition (own toolIndex) t.closing r.stitcher.offset ++ items).length = t.closing.length := by
      have made := congrArg List.length took.indices
      rw [List.length_map,List.length_map] at made
      rw [List.length_append,made,split_length]
    -- With no slot empty, each of the turn's items has one of its own.
    have filled : ∀ index item, (index,item) ∈ byPosition (own toolIndex) t.closing r.stitcher.offset ++ items →
        some item ∈ u.accumulator := by
      intro index item put
      rw [took.accumulator] at full
      have slot := (fill_fresh (fill_once length full) index item).mpr (.inr put)
      rw [← took.accumulator] at slot
      exact List.mem_of_getElem? slot
    rw [took.done] at present
    rcases List.mem_append.mp present with old | now
    · obtain ⟨index,inside,slot⟩ := List.mem_iff_getElem.mp (accounts.listed before entry old)
      have same := took.earlier numbered level inside
      rw [List.getElem?_eq_getElem inside,slot] at same
      exact List.mem_of_getElem? same
    · rcases List.mem_append.mp now with plain | call
      · obtain ⟨⟨index,item⟩,listed,rfl⟩ := List.mem_map.mp plain
        rw [List.mem_filter] at listed
        obtain ⟨position,inside,there⟩ := List.mem_iff_getElem.mp listed.1
        apply filled (position + r.stitcher.offset) item
        apply List.mem_append_left
        refine List.mem_map.mpr ⟨((index,item),position),List.mem_filter.mpr ⟨?_,listed.2⟩,rfl⟩
        apply List.mk_mem_zipIdx_iff_getElem?.mpr
        rw [List.getElem?_eq_getElem inside,there]
      · exact filled entry.1 entry.2 (List.mem_append_right _ call)

theorem Took.shut (took : Took toolIndex r t items u) (shut : Shut r.stitcher.out) : Shut u.stitcher.out := by
  intro one present
  rcases took.added one present with before | now
  · obtain ⟨item,there,id⟩ := shut one before
    rw [took.done]
    exact ⟨item,List.mem_append_left _ there,id⟩
  · exact now

end

-- How a run leaves off that no exception leaves: with an error response and no terminal
-- event, with an inner turn's failure passed on, or with a terminal event that accounts
-- for all that went out.
structure Closes (env : Environment) (request : Request) (u : Run) (ending : Ending) : Prop where
  counted : u.stitcher.out.map (·.1) = List.range u.stitcher.out.length
  ends : (∃ refused, ending = .error refused ∧ Rejected env request u refused ∧
      gathered envelopes u.stitcher.out = [.created,.inProgress]) ∨
    ∃ earlier response, Ended u.stitcher.out earlier response ∧
      (ending = .failed ∧ PassedOn env request u response ∨ Complete env u earlier response)

-- The ways a run stops short of building its terminal event.
def stopped : Ending → Bool
  | .error _ | .failed => true
  | .raised _ | .reached _ _ => false

theorem counted_length {s : Stitcher} (counted : s.out.map (·.1) = List.range s.seq) :
    s.out.map (·.1) = List.range s.out.length := by
  have length := congrArg List.length counted
  rw [List.length_map,List.length_range] at length
  rw [counted,length]

theorem Accounts.error {request : Request} {r : Run} (accounts : Accounts r) {refused : ErrorResponse}
    (given : Rejected env request r refused) : Closes env request r (.error refused) :=
  ⟨counted_length accounts.counted,.inl ⟨refused,rfl,given,accounts.only⟩⟩

theorem mapM_full {slots : List (Option Item)} {output : List Item} (built : slots.mapM id = some output) :
    slots = output.map some := by
  induction slots generalizing output with
  | nil =>
      cases built
      rfl
  | cons slot rest ih =>
      cases slot with
      | none => simp at built
      | some item =>
          cases later : rest.mapM id with
          | none => simp [later] at built
          | some items =>
              simp only [List.mapM_cons,id_eq,later,Option.pure_def,Option.bind_eq_bind,Option.bind_some,
                Option.some.injEq] at built
              rw [← built,ih later]
              rfl

theorem Accounts.ended {request : Request} {r : Run} (accounts : Accounts r)
    (closed : CutOff env r ∨ Shut r.stitcher.out) {output : List Item} (built : r.accumulator.mapM id = some output)
    {kind : Envelope} (last : terminal kind = true) {response : Response} (same : response.output = output)
    (ending : Ending) : Closes env request (r.emit (.envelope kind response)) ending := by
  have slots := mapM_full built
  have full : none ∉ r.accumulator := by
    rw [slots]
    simp
  constructor
  · exact counted_length (emit_counted accounts.counted _)
  · right
    refine ⟨r.stitcher.out,response,⟨⟨r.stitcher.seq,kind,rfl,last⟩,accounts.only⟩,.inr ⟨?_,closed⟩⟩
    intro entry present
    have there := accounts.listed full entry present
    rw [slots] at there
    obtain ⟨item,listed,equal⟩ := List.mem_map.mp there
    cases equal
    rw [same]
    exact listed

theorem failedEvent_closes (request : Request) {r : Run} (accounts : Accounts r) (shut : Shut r.stitcher.out)
    (message code : String) :
    (∃ u exception, failedEvent env r message code = (u,.raised exception)) ∨
      ∃ u ending, failedEvent env r message code = (u,ending) ∧ stopped ending = true ∧ Closes env request u ending := by
  unfold failedEvent
  split
  · exact .inl ⟨_,_,rfl⟩
  · rename_i output built
    exact .inr ⟨_,_,rfl,rfl,accounts.ended (.inr shut) built rfl rfl _⟩

-- An inner failure that is passed on is the last event, and the only terminal one.
theorem failed_closes {request : Request} {toolIndex : ToolIndex} {r : Run} (accounts : Accounts r) {t : Translator}
    {s : Stitcher} (shut : Shuttered toolIndex r.stitcher t s) {response : Response}
    (passed : PassedOn env request r response) (failed : Option Response) :
    Closes env request (Run.emit {r with stitcher := {s with innerFailedResponse := failed}} (.envelope .failed response))
      .failed := by
  constructor
  · apply counted_length
    exact emit_counted (s := {s with innerFailedResponse := failed}) (shut.counted accounts.counted) _
  · right
    refine ⟨s.out,response,⟨⟨s.seq,.failed,rfl,rfl⟩,?_⟩,.inl ⟨rfl,passed⟩⟩
    rw [shut.calm]
    exact accounts.only

-- A stream that was cut off leaves nothing to take over.
theorem cut_accounts {toolIndex : ToolIndex} {r : Run} (accounts : Accounts r) {inner : Uuids} {responseId : String}
    {chunks : List Chunk} {s : Stitcher}
    (ran : r.stitcher.runTurn env.uuids toolIndex ((Translator.translate inner responseId chunks).out.map (·.2)) = .ok s) :
    Accounts (takeOver env {r with stitcher := s}) ∧ (takeOver env {r with stitcher := s}).turns = r.turns + 1 ∧
      s.pendingMcpCalls = [] := by
  obtain ⟨opened,sent⟩ := cut_sent ran
  have output : s.turnOutput = [] := sent.output
  have pending : s.pendingMcpCalls = [] := sent.pending
  have offset : s.offset = r.stitcher.offset := sent.offset
  have done : dones s.out = dones r.stitcher.out := sent.done.trans (List.append_nil _)
  have taken : takeOver env {r with stitcher := s} = {r with stitcher := s,turns := r.turns + 1} := by
    simp [takeOver,output,pending]
  rw [taken]
  refine ⟨?_,rfl,pending⟩
  constructor
  · constructor
    · exact accounts.level.length.trans offset.symm
    · intro entry present
      change entry ∈ dones s.out at present
      rw [done] at present
      rw [offset]
      exact accounts.level.done entry present
    · intro entry present
      rw [offset]
      exact accounts.level.placed entry present
  · exact sent.counted accounts.counted
  · exact sent.calm.trans accounts.only
  · intro full entry present
    change entry ∈ dones s.out at present
    rw [done] at present
    exact accounts.listed full entry present

-- One turn: it leaves the stream open for the next, or at its terminal event, or it has
-- closed it.
theorem turn_accounts {request : Request} (entered : Entered env request) (toolIndex : ToolIndex) (maxToolCalls : Option Int) (count : Nat) {r : Run}
    (accounts : Accounts r) (shut : Shut r.stitcher.out) :
    (∃ more u, turn env toolIndex maxToolCalls r.turns count r = .inr (more,u) ∧ Accounts u ∧ Shut u.stitcher.out ∧
      u.turns = r.turns + 1) ∨
    (∃ u status incomplete, turn env toolIndex maxToolCalls r.turns count r = .inl (u,.reached status incomplete) ∧
      Accounts u ∧ (CutOff env u ∨ Shut u.stitcher.out)) ∨
    (∃ u exception, turn env toolIndex maxToolCalls r.turns count r = .inl (u,.raised exception)) ∨
    ∃ u ending, turn env toolIndex maxToolCalls r.turns count r = .inl (u,ending) ∧ stopped ending = true ∧
      Closes env request u ending := by
  unfold turn
  cases given : env.inner r.turns with
  | error refused => exact .inr (.inr (.inr ⟨r,_,rfl,rfl,accounts.error (.inl ⟨entered,given⟩)⟩))
  | stream uuids responseId chunks ending =>
      simp only
      split
      · exact .inr (.inr (.inl ⟨r,_,rfl⟩))
      · rename_i s ran
        have numbered := Translator.translate_numbered uuids responseId chunks
        cases ending with
        | finished =>
            have turned := finish_turned ran
            obtain ⟨items,took⟩ := takeOver_took env turned
            have after := took.accounts numbered accounts
            have shut_ := took.shut shut
            rw [turned.failed]
            simp only
            split
            · exact .inr (.inl ⟨_,_,_,rfl,after,.inr shut_⟩)
            · split
              · split
                · exact .inr (.inl ⟨_,_,_,rfl,after,.inr shut_⟩)
                · exact .inl ⟨_,_,rfl,after,shut_,took.turns⟩
              · exact .inl ⟨_,_,rfl,after,shut_,took.turns⟩
        | failed message code =>
            obtain ⟨t,response,closing,output,rfl⟩ := fail_turned ran
            have passed : PassedOn env request r {response with id := env.responseId} :=
              ⟨entered,uuids,responseId,chunks,message,code,given,output⟩
            exact .inr (.inr (.inr ⟨_,_,rfl,rfl,failed_closes accounts closing passed _⟩))
        | cut =>
            obtain ⟨after,turns,pending⟩ := cut_accounts accounts ran
            obtain ⟨_,sent⟩ := cut_sent ran
            have going : s.innerFailedResponse = none := sent.failed
            rw [going]
            simp only
            split
            · exact .inr (.inl ⟨_,_,_,rfl,after,.inl ⟨r.turns,uuids,responseId,chunks,turns,given⟩⟩)
            · rename_i continues
              rw [pending] at continues
              simp at continues
        | broken => exact .inr (.inr (.inl ⟨_,_,rfl⟩))

theorem turnLoop_accounts {request : Request} (entered : Entered env request) {toolIndex : ToolIndex}
    {maxToolCalls : Option Int} {left count : Nat} {r : Run} (accounts : Accounts r) (shut : Shut r.stitcher.out) (counted : r.turns + left = defaultTurnCap) :
    (∃ u status incomplete, turnLoop env toolIndex maxToolCalls left count r = (u,.reached status incomplete) ∧
      Accounts u ∧ (CutOff env u ∨ Shut u.stitcher.out)) ∨
    (∃ u exception, turnLoop env toolIndex maxToolCalls left count r = (u,.raised exception)) ∨
    ∃ u ending, turnLoop env toolIndex maxToolCalls left count r = (u,ending) ∧ stopped ending = true ∧
      Closes env request u ending := by
  induction left generalizing count r with
  | zero => exact .inl ⟨r,_,_,rfl,accounts,.inr shut⟩
  | succ left ih =>
      unfold turnLoop
      rw [show defaultTurnCap - (left + 1) = r.turns by omega]
      rcases turn_accounts entered toolIndex maxToolCalls count accounts shut with
        ⟨more,u,taken,after,shut_,turns⟩ | ⟨u,status,incomplete,taken,after,closed⟩ | ⟨u,exception,taken⟩ |
        ⟨u,ending,taken,stops,closes⟩
      · rw [taken]
        exact ih after shut_ (by omega)
      · rw [taken]
        exact .inl ⟨u,status,incomplete,rfl,after,closed⟩
      · rw [taken]
        exact .inr (.inl ⟨u,exception,rfl⟩)
      · rw [taken]
        exact .inr (.inr ⟨u,ending,rfl,stops,closes⟩)

-- Approvals are resumed, or refused before any turn.
theorem resume_accounts (request : Request) (specs : List McpToolSpec) (discovered : Found) (rest : List Json)
    (inside : ∀ item ∈ rest, item ∈ request.input) {r : Run} (accounts : Accounts r) (shut : Shut r.stitcher.out) :
    (∃ u, resume env specs discovered request.input r rest = .inl u ∧ Accounts u ∧ Shut u.stitcher.out ∧
      u.turns = r.turns) ∨
    (∃ u exception, resume env specs discovered request.input r rest = .inr (u,.raised exception)) ∨
    ∃ u refused, resume env specs discovered request.input r rest = .inr (u,.error refused) ∧
      Closes env request u (.error refused) := by
  induction rest generalizing r with
  | nil => exact .inl ⟨r,rfl,accounts,shut,rfl⟩
  | cons item rest ih =>
      have here := inside item List.mem_cons_self
      have within : ∀ other ∈ rest, other ∈ request.input := fun other there => inside other (List.mem_cons_of_mem _ there)
      unfold resume
      split
      · exact ih within accounts shut
      · rename_i response
        split
        · exact .inr (.inl ⟨r,_,rfl⟩)
        · split
          · rename_i unknown
            exact .inr (.inr ⟨r,_,rfl,accounts.error (.inr ⟨item,here,by simpa using response,unknown,rfl⟩)⟩)
          · split
            · exact .inr (.inl ⟨r,_,rfl⟩)
            · rename_i resolved _
              obtain ⟨made,slotted⟩ := resumeOne_slotted env specs discovered r item resolved
              rw [← slotted.turns]
              exact ih within (slotted.accounts accounts) (slotted.shut shut)

theorem drive_accounts {request : Request} {specs : List McpToolSpec} {otherTools : List Json}
    (created : preChecks env request = .ok (specs,otherTools)) :
    (∃ u status incomplete, drive env request = (u,.reached status incomplete) ∧ Accounts u ∧
      (CutOff env u ∨ Shut u.stitcher.out)) ∨
    (∃ u exception, drive env request = (u,.raised exception)) ∨
    ∃ u ending, drive env request = (u,ending) ∧ stopped ending = true ∧ Closes env request u ending := by
  have slots : ∀ r item u, (Accounts r ∧ Shut r.stitcher.out ∧ r.turns = 0) → Slotted r item u →
      Accounts u ∧ Shut u.stitcher.out ∧ u.turns = 0 :=
    fun r item u ⟨accounts,shut,turns⟩ slotted =>
      ⟨slotted.accounts accounts,slotted.shut shut,slotted.turns.trans turns⟩
  have begins : Accounts (started env) ∧ Shut (started env).stitcher.out ∧ (started env).turns = 0 :=
    ⟨started_accounts env,started_shut env,rfl⟩
  unfold drive
  rw [created]
  simp only
  cases found : discoverAll env (started env) ⟨[],.empty⟩ specs with
  | inr ended =>
      rcases discoverAll_ends slots begins found with ⟨u,message,code,⟨accounts,shut,_⟩,rfl⟩ | ⟨u,_,_,refused,rfl,_,_⟩
      · exact .inr (failedEvent_closes request accounts shut message code)
      · exact .inr (.inl ⟨u,_,rfl⟩)
  | inl result =>
      obtain ⟨r,discovered⟩ := result
      obtain ⟨accounts,shut,turns⟩ := discoverAll_keeps slots begins found
      simp only
      split
      · exact .inr (failedEvent_closes request accounts shut _ _)
      · exact .inr (.inl ⟨r,_,rfl⟩)
      · rename_i apart
        rcases resumeAll_cases env specs discovered request.input r with ⟨_,scanned⟩ | ⟨_,raised⟩
        · rw [scanned]
          rcases resume_accounts request specs discovered request.input (fun _ there => there) accounts shut with
            ⟨u,resumed,after,shut_,turns_⟩ | ⟨u,exception,resumed⟩ | ⟨u,refused,resumed,closes⟩
          · have entered : Entered env request := ⟨specs,otherTools,r,discovered,u,created,found,apart,scanned.trans resumed⟩
            rw [resumed]
            exact turnLoop_accounts entered after shut_ (by omega)
          · rw [resumed]
            exact .inr (.inl ⟨u,exception,rfl⟩)
          · rw [resumed]
            exact .inr (.inr ⟨u,_,rfl,rfl,closes⟩)
        · rw [raised]
          exact .inr (.inl ⟨r,_,rfl⟩)

-- Once the stream is open, a run that no exception leaves numbers its events 0, 1, ...
-- and leaves off with the error response of its last turn or of an approval and no
-- terminal event, or with one terminal event that comes last. Unless it passes on its last
-- turn's failure, that event accounts for every item, and each item that was added is done
-- unless the last turn was cut off.
theorem envelope_closes {request : Request} {specs : List McpToolSpec} {otherTools : List Json}
    (created : preChecks env request = .ok (specs,otherTools))
    (unraised : ∀ exception, (events env request).2 ≠ .raised exception) :
    Closes env request (events env request).1 (events env request).2 := by
  rcases drive_accounts created with
    ⟨u,status,incomplete,driven,accounts,closed⟩ | ⟨u,exception,driven⟩ | ⟨u,ending,driven,stops,closes⟩
  · unfold events at *
    rw [driven] at unraised ⊢
    simp only at unraised ⊢
    split at unraised
    · exact absurd rfl (unraised _)
    · rename_i output built
      refine accounts.ended closed built ?_ rfl _
      split <;> rfl
  · have same : events env request = (u,.raised exception) := by
      simp only [events,driven]
    rw [same] at unraised
    exact absurd rfl (unraised exception)
  · have same : events env request = (u,ending) := by
      unfold events
      rw [driven]
      cases ending with
      | error | failed => rfl
      | raised | reached => cases stops
    rw [same]
    exact closes

end

theorem envelope_closes_called :
    (∃ specs otherTools, preChecks (sampleEnvironment speaksAndCalls) (sampleRequest "never" [] none) =
      .ok (specs,otherTools)) ∧
    Closes (sampleEnvironment speaksAndCalls) (sampleRequest "never" [] none)
      (events (sampleEnvironment speaksAndCalls) (sampleRequest "never" [] none)).1 (.reached .completed none) := by
  have reached : (events (sampleEnvironment speaksAndCalls) (sampleRequest "never" [] none)).2 =
      .reached .completed none := by decide +kernel
  obtain ⟨specs,otherTools,created⟩ : ∃ specs otherTools, preChecks (sampleEnvironment speaksAndCalls)
      (sampleRequest "never" [] none) = .ok (specs,otherTools) := ⟨_,_,rfl⟩
  refine ⟨⟨specs,otherTools,created⟩,?_⟩
  have closes := envelope_closes created (by
    intro exception raised
    rw [reached] at raised
    cases raised)
  rw [reached] at closes
  exact closes

-- An inner turn that is refused, one that fails after a call was made, and one cut off.
def refusing (_ : Nat) : Inner := .error ⟨"bad request","invalid_request_error",400,none⟩

def callsThenFails : Nat → Inner
  | 0 => .stream sampleUuids "inner" [calling "search"] .finished
  | _ => .stream sampleUuids "inner" [] (.failed "Internal error during generation" "server_error")

def breaksOff (_ : Nat) : Inner := .stream sampleUuids "inner" [saying "one"] .cut

theorem envelope_stays_open :
    ((events (sampleEnvironment refusing) (sampleRequest "never" [] none)).2 =
        .error ⟨"bad request","invalid_request_error",400,none⟩ ∧
      gathered envelopes (events (sampleEnvironment refusing) (sampleRequest "never" [] none)).1.stitcher.out =
        [.created,.inProgress]) ∧
    (∃ number response,
      (events (sampleEnvironment callsThenFails) (sampleRequest "never" [] none)).1.stitcher.out.getLast? =
        some (number,.envelope .failed response) ∧
      ∃ entry ∈ dones (events (sampleEnvironment callsThenFails) (sampleRequest "never" [] none)).1.stitcher.out,
        entry.2 ∉ response.output) ∧
    ∃ one ∈ addeds (events (sampleEnvironment breaksOff) (sampleRequest "never" [] none)).1.stitcher.out,
      ∀ entry ∈ dones (events (sampleEnvironment breaksOff) (sampleRequest "never" [] none)).1.stitcher.out,
        entry.2.id ≠ one.2 := by
  refine ⟨by decide +kernel,⟨_,_,rfl,?_⟩,?_⟩
  · decide +kernel
  · decide +kernel

end Modelship.Mcp

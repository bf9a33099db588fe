import Modelship.Deploy.Coordinator

namespace Modelship.Deploy
open Foundation

section
variable {apps : List Json → List (String × String)}

-- What a worker does on its own, one constructor for each branch of the source.
inductive Works (entry : Entry) (diff : Option Diff) : Action → WorkerPoint → Option Diff → Stage → Prop where
  | unwound (found) : entry.cancelled = true →
      Works entry diff (.diffed found) .diffing diff (.working (.unwinding .cancelled))
  | unread : entry.cancelled = false → Works entry diff (.diffed none) .diffing diff (.working .diffing)
  | diffed (found) : entry.cancelled = false →
      Works entry diff (.diffed (some found)) .diffing (some found)
        (.working (.applying found (phases entry.strategy found)))
  | stopped (ended found phase rest) : entry.cancelled = true →
      Works entry diff (.poll ended) (.applying found (phase :: rest)) diff (.working (.unwinding .cancelled))
  | polled (ended found phase rest left) : entry.cancelled = false →
      Works entry diff (.poll ended) (.applying found (phase :: rest)) diff (.working (.applying found left))
  | switches (found models) : found.commits = true → found.models = some models →
      Works entry diff .proceed (.applying found []) diff (.working (.switching models))
  | asserts (found) : found.commits = true →
      Works entry diff .proceed (.applying found []) diff (.working (.unwinding .failed))
  | applied (found) : found.commits = false →
      Works entry diff .proceed (.applying found []) diff (.working .retiring)
  | confirmed (models) :
      Works entry diff (.confirm true) (.confirming models) diff (.working (.committing models))
  | unconfirmed (models) :
      Works entry diff (.confirm false) (.confirming models) diff (.working (.unwinding .failed))
  | retired : Works entry diff .retire .retiring diff (.working (.returned .succeeded))
  | rolled (outcome) : Works entry diff .rolled (.restoring outcome) diff (.working (.returned outcome))
  | died (point) : (∀ outcome, point ≠ .returned outcome) →
      Works entry diff .dies point diff (.lost point.transit)

-- What a step of the coordinator does, with what it asks of the state it is taken in.
inductive Moves (apps : List Json → List (String × String)) (s : Coordinator) : Action → Coordinator → Prop where
  | submits (id strategy) : id ∉ s.ids →
      Moves apps s (.submit id strategy) {s with queue := s.queue ++ [⟨id,strategy,.queued,false,false⟩]}
  | drops (id entry) : s.queue.find? (·.id == id) = some entry →
      Moves apps s (.cancel id) {s with
        queue := s.queue.filter (·.id != id)
        outcomes := s.outcomes ++ [⟨entry,none,.cancelled⟩]
        granted := s.granted ++ [id]}
  | grants (entry stage diff restored) : s.running = some ⟨entry,stage,diff,restored⟩ →
      entry.state ≠ .committing → entry.state ≠ .retiring →
      (entry.state = .rollingBack → entry.cancelled = true) →
      Moves apps s (.cancel entry.id) {s with
        running := some ⟨{entry with cancelled := true},stage,diff,restored⟩
        granted := s.granted ++ [entry.id]}
  | refuses (id) : Moves apps s (.cancel id) s
  | recovers : s.recovery = .waiting → Moves apps s .recover {s with recovery := .rolling .sent}
  | recoveryArrives : s.recovery = .rolling .sent →
      Moves apps s .recoveryArrives
        {s with recovery := .rolling .queued,lock := s.lock ++ [.reset .recovery]}
  | recovered (strays) : s.recovery ≠ .over →
      Moves apps s .recovered {s with recovery := .over,strays}
  | starts (entry rest) : s.running = none → s.recovery = .over → s.queue = entry :: rest →
      Moves apps s .start {s with
        queue := rest,running := some ⟨{entry with state := .applying},.working .diffing,none,false⟩}
  | works (entry point diff restored action later stage) :
      s.running = some ⟨entry,.working point,diff,restored⟩ → Works entry diff action point later stage →
      Moves apps s action {s with running := some ⟨entry,stage,later,restored⟩}
  | raises (entry point diff restored after) : s.running = some ⟨entry,.working point,diff,restored⟩ →
      raises point = some after →
      Moves apps s .raises
        {s with strays := s.strays + point.leftBehind,running := some ⟨entry,.working after,diff,restored⟩}
  | switches (entry stage diff restored models) : s.running = some ⟨entry,stage,diff,restored⟩ →
      stage.transit = some (.switch models) → entry.state ≠ .rollingBack →
      Moves apps s .arrive {s.route apps (some models) with
        running := some ⟨{entry with state := .switching,switched := true},
          answer ⟨entry,stage,diff,restored⟩ true stage,diff,false⟩}
  | commits (entry stage diff restored models) : s.running = some ⟨entry,stage,diff,restored⟩ →
      stage.transit = some (.commit models) → entry.state ≠ .rollingBack → entry.cancelled = false →
      Moves apps s .arrive {s with
        lock := s.lock ++ [.commit entry.id models]
        running := some ⟨{entry with state := .committing},answer ⟨entry,stage,diff,restored⟩ true stage,
          diff,restored⟩}
  | turned (entry stage diff restored models) : s.running = some ⟨entry,stage,diff,restored⟩ →
      stage.transit = some (.switch models) ∨ stage.transit = some (.commit models) →
      Moves apps s .arrive
        {s with running := some ⟨entry,answer ⟨entry,stage,diff,restored⟩ false stage,diff,restored⟩}
  | unwinds (entry stage diff restored) : s.running = some ⟨entry,stage,diff,restored⟩ →
      stage.transit = some .rollingBack →
      Moves apps s .arrive {s with
        running := some ⟨{entry with state := .rollingBack},answer ⟨entry,stage,diff,restored⟩ true stage,
          diff,restored⟩}
  | resets (entry stage diff restored) : s.running = some ⟨entry,stage,diff,restored⟩ →
      stage.transit = some .reset →
      Moves apps s .arrive {s with
        lock := s.lock ++ [.reset (.worker entry.id)]
        running := some ⟨entry,answer ⟨entry,stage,diff,restored⟩ true stage,diff,restored⟩}
  | notices (entry transit diff restored) : s.running = some ⟨entry,.lost transit,diff,restored⟩ →
      Moves apps s .notice (notice s ⟨entry,.lost transit,diff,restored⟩ transit)
  | rollbackArrives (entry late diff restored) : s.running = some ⟨entry,.rolling .sent late,diff,restored⟩ →
      Moves apps s .rollbackArrives {s with
        lock := s.lock ++ [.reset (.rollback entry.id)]
        running := some ⟨entry,.rolling .queued late,diff,restored⟩}
  | lateArrives (entry reset diff restored) : s.running = some ⟨entry,.rolling reset true,diff,restored⟩ →
      Moves apps s .lateArrives
        {s with running := some ⟨{entry with state := .rollingBack},.rolling reset false,diff,restored⟩}
  | rollbackOver (entry reset late diff restored) :
      s.running = some ⟨entry,.rolling reset late,diff,restored⟩ →
      Moves apps s .rollbackOver {s with
        strays := s.strays + reset.leftBehind,running := none
        outcomes := s.outcomes ++ [⟨entry,diff,lostOutcome entry⟩]}
  | collects (entry outcome diff restored) :
      s.running = some ⟨entry,.working (.returned outcome),diff,restored⟩ →
      Moves apps s .collect {s with running := none,outcomes := s.outcomes ++ [⟨entry,diff,outcome⟩]}
  | strayArrives : s.strays ≠ 0 →
      Moves apps s .strayArrives {s with strays := s.strays - 1,lock := s.lock ++ [.reset .stray]}
  | lands (id models rest) : s.lock = .commit id models :: rest →
      Moves apps s (.serve true) {s with
        lock := rest,running := s.running.map (landed true id)
        cell := (commitVersion s.cell models).1
        writes := s.writes ++ [⟨id,models,s.cell,(commitVersion s.cell models).1⟩]}
  | unwritten (id models rest) : s.lock = .commit id models :: rest →
      Moves apps s (.serve false) {s with lock := rest,running := s.running.map (landed false id)}
  | answers (ok owner rest recovery) : s.lock = .reset owner :: rest → (s.recovery = .over → recovery = .over) →
      (ok = true → s.routing.map Routing.models = some (committedModels s.cell)) →
      Moves apps s (.serve ok) {s with lock := rest,recovery,running := s.running.map (restored ok owner)}
  | reroutes (owner rest recovery) : s.lock = .reset owner :: rest → (s.recovery = .over → recovery = .over) →
      Moves apps s (.serve true) ({s with
        lock := rest,recovery,running := s.running.map (restored true owner)}.route apps (committedModels s.cell))
  | looks : s.routing = none → Moves apps s .look {s with lookups := s.lookups ++ [committedModels s.cell]}
  | overtaken (index) : s.routing ≠ none →
      Moves apps s (.looked index) {s with lookups := s.lookups.eraseIdx index,seq := s.seq + 1}
  | looked (index models) : s.lookups[index]? = some models → s.routing = none →
      Moves apps s (.looked index) ({s with lookups := s.lookups.eraseIdx index}.route apps models)

theorem stepWorker_works {entry : Entry} {point : WorkerPoint} {diff : Option Diff} {restored : Bool}
    {action : Action} {after : Running}
    (taken : stepWorker ⟨entry,.working point,diff,restored⟩ point action = some after) :
    ∃ later stage, after = ⟨entry,stage,later,restored⟩ ∧ Works entry diff action point later stage := by
  unfold stepWorker at taken
  split at taken
  · split at taken
    · split at taken
      · cases taken
        exact ⟨_,_,rfl,.unwound _ ‹_›⟩
      · split at taken
        · cases taken
          exact ⟨_,_,rfl,.unread (Bool.eq_false_iff.mpr ‹_›)⟩
        · cases taken
          exact ⟨_,_,rfl,.diffed _ (Bool.eq_false_iff.mpr ‹_›)⟩
    · cases taken
  · split at taken
    · split at taken
      · cases taken
        exact ⟨_,_,rfl,.stopped _ _ _ _ ‹_›⟩
      · cases taken
        exact ⟨_,_,rfl,.polled _ _ _ _ _ (Bool.eq_false_iff.mpr ‹_›)⟩
    · cases taken
  · split at taken
    · split at taken
      · split at taken
        · cases taken
          exact ⟨_,_,rfl,.switches _ _ ‹_› ‹_›⟩
        · cases taken
          exact ⟨_,_,rfl,.asserts _ ‹_›⟩
      · cases taken
        exact ⟨_,_,rfl,.applied _ (Bool.eq_false_iff.mpr ‹_›)⟩
    · cases taken
  · rename_i switched
    split at taken
    · cases switched with
      | true => cases taken; exact ⟨_,_,rfl,.confirmed _⟩
      | false => cases taken; exact ⟨_,_,rfl,.unconfirmed _⟩
    · cases taken
  · split at taken
    · cases taken
      exact ⟨_,_,rfl,.retired⟩
    · cases taken
  · split at taken
    · cases taken
      exact ⟨_,_,rfl,.rolled _⟩
    · cases taken
  · split at taken
    · cases taken
    · cases taken
      exact ⟨_,_,rfl,.died _ ‹_›⟩
  · cases taken

theorem cancel_moves (s : Coordinator) (id : String) : Moves apps s (.cancel id) (cancel s id) := by
  unfold cancel
  split
  · exact .drops id _ ‹_›
  · split
    · exact .refuses id
    · rename_i running here
      obtain ⟨entry,stage,diff,restored⟩ := running
      dsimp only
      split
      · exact .refuses id
      · split
        · exact .refuses id
        · split
          · exact .refuses id
          · rename_i same open_ rolling
            have equal : entry.id = id := by simpa using same
            subst equal
            rw [not_or] at open_
            exact .grants entry stage diff restored here open_.1 open_.2 (by simpa using rolling)

theorem arrive_moves {s t : Coordinator} {running : Running} (here : s.running = some running)
    (taken : arrive apps s running = some t) : Moves apps s .arrive t := by
  obtain ⟨entry,stage,diff,restored⟩ := running
  unfold arrive at taken
  obtain ⟨call,sent,rfl⟩ := Option.map_eq_some_iff.mp taken
  cases call with
  | switch models =>
      simp only [receive]
      split
      · exact .turned entry stage diff restored models here (.inl sent)
      · exact .switches entry stage diff restored models here sent ‹_›
  | commit models =>
      simp only [receive]
      split
      · exact .turned entry stage diff restored models here (.inr sent)
      · rename_i fits
        rw [not_or] at fits
        exact .commits entry stage diff restored models here sent fits.1 (by simpa using fits.2)
  | rollingBack => exact .unwinds entry stage diff restored here sent
  | reset => exact .resets entry stage diff restored here sent

theorem serve_moves {s t : Coordinator} {ok : Bool} (taken : serve apps ok s = some t) :
    Moves apps s (.serve ok) t := by
  unfold serve at taken
  split at taken
  · cases taken
  · rename_i id models rest held
    cases ok with
    | true => cases taken; exact .lands id models rest held
    | false => cases taken; exact .unwritten id models rest held
  · rename_i owner rest held
    have ended : s.recovery = .over →
        (if owner = .recovery ∧ s.recovery = .rolling .queued then Recovery.rolling .answered else s.recovery) = .over := by
      intro ended
      simp [ended]
    dsimp only at taken
    split at taken
    · rename_i differs
      obtain ⟨rfl,_⟩ := differs
      cases taken
      exact .reroutes owner rest _ held ended
    · rename_i same
      cases taken
      exact .answers ok owner rest _ held ended (by simpa using same)

theorem next_moves {s t : Coordinator} {action : Action} (taken : next apps s action = some t) :
    Moves apps s action t := by
  unfold next at taken
  split at taken
  · split at taken
    · cases taken
    · cases taken
      exact .submits _ _ ‹_›
  · cases taken
    exact cancel_moves s _
  · split at taken
    · cases taken
      exact .recovers ‹_›
    · cases taken
  · split at taken
    · cases taken
      exact .recoveryArrives ‹_›
    · cases taken
  · split at taken
    · cases taken
      exact .recovered s.strays (by simp [*])
    · cases taken
      exact .recovered _ (by simp [*])
    · cases taken
  · split at taken
    · cases taken
      exact .starts _ _ ‹_› ‹_› ‹_›
    · cases taken
  · exact arrive_moves ‹_› taken
  · cases taken
    exact .notices _ _ _ _ ‹_›
  · cases taken
    exact .rollbackArrives _ _ _ _ ‹_›
  · cases taken
    exact .lateArrives _ _ _ _ ‹_›
  · cases taken
    exact .rollbackOver _ _ _ _ _ ‹_›
  · obtain ⟨after,raised,rfl⟩ := Option.map_eq_some_iff.mp taken
    exact .raises _ _ _ _ _ ‹_› raised
  · cases taken
    exact .collects _ _ _ _ ‹_›
  · split at taken
    · cases taken
    · cases taken
      exact .strayArrives ‹_›
  · exact serve_moves taken
  · split at taken
    · cases taken
    · rename_i absent
      cases taken
      exact .looks (by simpa using absent)
  · split at taken
    · cases taken
    · rename_i models found
      dsimp only at taken
      split at taken
      · rename_i routed
        cases taken
        exact .overtaken _ (by simpa using Option.isSome_iff_ne_none.mp routed)
      · rename_i absent
        cases taken
        exact .looked _ models found (by simpa using absent)
  · obtain ⟨after,worked,rfl⟩ := Option.map_eq_some_iff.mp taken
    obtain ⟨later,stage,rfl,works⟩ := stepWorker_works worked
    exact .works _ _ _ _ _ _ _ ‹_› works
  · cases taken

end

-- The commits of a request that wait for the version lock, and the versions written for it.
def pending (id : String) (lock : List Task) : List (List Json) :=
  lock.filterMap fun
    | .commit request models => if request = id then some models else none
    | .reset _ => none

def written (id : String) (writes : List Write) : List Write := writes.filter (·.request == id)

@[simp] theorem pending_nil (id : String) : pending id [] = [] := rfl

@[simp] theorem pending_reset (id : String) (owner : Owner) (rest : List Task) :
    pending id (.reset owner :: rest) = pending id rest := rfl

@[simp] theorem pending_commit (id request : String) (models : List Json) (rest : List Task) :
    pending id (.commit request models :: rest) =
      if request = id then models :: pending id rest else pending id rest := by
  by_cases same : request = id <;> simp [pending,same]

@[simp] theorem pending_append (id : String) (earlier later : List Task) :
    pending id (earlier ++ later) = pending id earlier ++ pending id later :=
  List.filterMap_append

@[simp] theorem written_append (id : String) (earlier later : List Write) :
    written id (earlier ++ later) = written id earlier ++ written id later :=
  List.filter_append _ _

@[simp] theorem written_singleton (id : String) (write : Write) :
    written id [write] = if write.request = id then [write] else [] := by
  by_cases same : write.request = id <;> simp [written,same]

def proposes (diff : Option Diff) (models : List Json) : Prop :=
  ∃ found, diff = some found ∧ found.commits = true ∧ found.models = some models

def genuine (diff : Option Diff) (write : Write) : Prop :=
  proposes diff write.models ∧ write.after = (commitVersion write.before write.models).1

-- How the commit of a running request stands: not asked for or given up, waiting for
-- the lock or the store, or written. The lists are its `pending` and `written`.
inductive Standing (entry : Entry) (diff : Option Diff) : List (List Json) → List Write → Prop where
  | idle : entry.state ≠ .retiring → Standing entry diff [] []
  | waiting (models) : proposes diff models → entry.state = .committing ∨ entry.state = .rollingBack →
      entry.cancelled = false → Standing entry diff [models] []
  | landed (write) : genuine diff write → entry.state = .retiring ∨ entry.state = .rollingBack →
      entry.cancelled = false → Standing entry diff [] [write]

-- What a worker has behind it that is about to report success.
inductive Finishing (entry : Entry) (diff : Option Diff) : List (List Json) → List Write → Prop where
  | bare (found) : diff = some found → found.commits = false → entry.state ≠ .retiring →
      Finishing entry diff [] []
  | landed (write) : genuine diff write → entry.state = .retiring → entry.cancelled = false →
      Finishing entry diff [] [write]

def Idle (entry : Entry) (waiting : List (List Json)) (landed : List Write) : Prop :=
  waiting = [] ∧ landed = [] ∧ entry.state ≠ .retiring

def Proper (entry : Entry) (diff : Option Diff) (waiting : List (List Json)) (landed : List Write) : Stage → Prop
  | .working .diffing => Idle entry waiting landed
  | .working (.applying found _) => Idle entry waiting landed ∧ diff = some found
  | .working (.switching models) | .working (.confirming models) | .working (.committing models) =>
    Idle entry waiting landed ∧ proposes diff models
  | .working (.landing models) =>
    waiting = [models] ∧ landed = [] ∧ proposes diff models ∧ entry.state = .committing ∧ entry.cancelled = false
  | .working .retiring => Finishing entry diff waiting landed
  | .working (.unwinding outcome) | .working (.resetting outcome) | .working (.awaiting outcome)
  | .working (.restoring outcome) => outcome ≠ .succeeded ∧ Standing entry diff waiting landed
  | .working (.returned outcome) =>
    (outcome = .succeeded → Finishing entry diff waiting landed) ∧ Standing entry diff waiting landed
  | .lost (some (.switch _)) => Idle entry waiting landed
  | .lost (some (.commit models)) => Idle entry waiting landed ∧ proposes diff models
  | .lost _ | .rolling _ _ => Standing entry diff waiting landed

section
variable {entry : Entry} {diff : Option Diff} {waiting : List (List Json)} {landed : List Write}

theorem Idle.standing (idle : Idle entry waiting landed) : Standing entry diff waiting landed := by
  obtain ⟨rfl,rfl,open_⟩ := idle
  exact .idle open_

theorem Finishing.standing (finishing : Finishing entry diff waiting landed) :
    Standing entry diff waiting landed := by
  cases finishing with
  | bare found given bare open_ => exact .idle open_
  | landed write told state kept => exact .landed write told (.inl state) kept

theorem Proper.standing {stage : Stage} (proper : Proper entry diff waiting landed stage) :
    Standing entry diff waiting landed := by
  cases stage with
  | working point =>
      cases point with
      | diffing => exact Idle.standing proper
      | applying found left => exact proper.1.standing
      | switching models => exact proper.1.standing
      | confirming models => exact proper.1.standing
      | committing models => exact proper.1.standing
      | landing models =>
          obtain ⟨rfl,rfl,told,state,kept⟩ := proper
          exact .waiting models told (.inl state) kept
      | retiring => exact Finishing.standing proper
      | unwinding outcome => exact proper.2
      | resetting outcome => exact proper.2
      | awaiting outcome => exact proper.2
      | restoring outcome => exact proper.2
      | returned outcome => exact proper.2
  | lost transit =>
      cases transit with
      | none => exact proper
      | some call =>
          cases call with
          | switch models => exact Idle.standing proper
          | commit models => exact proper.1.standing
          | rollingBack => exact proper
          | reset => exact proper
  | rolling reset late => exact proper

theorem Standing.rollsBack (standing : Standing entry diff waiting landed) :
    Standing {entry with state := .rollingBack} diff waiting landed := by
  cases standing with
  | idle open_ => exact .idle (by simp)
  | waiting models told state kept => exact .waiting models told (.inr rfl) kept
  | landed write told state kept => exact .landed write told (.inr rfl) kept

theorem Standing.retired (standing : Standing entry diff waiting landed) (retiring : entry.state = .retiring) :
    waiting = [] ∧ ∃ write, landed = [write] ∧ genuine diff write := by
  cases standing with
  | idle open_ => exact absurd retiring open_
  | waiting models told state kept => simp [retiring] at state
  | landed write told state kept => exact ⟨rfl,write,rfl,told⟩

theorem Standing.refused {models : List Json} {later : List (List Json)}
    (standing : Standing entry diff (models :: later) landed) : later = [] ∧ landed = [] := by
  cases standing with
  | waiting => exact ⟨rfl,rfl⟩

theorem works_proper {action : Action} {point : WorkerPoint} {later : Option Diff} {stage : Stage}
    (works : Works entry diff action point later stage)
    (proper : Proper entry diff waiting landed (.working point)) :
    Proper entry later waiting landed stage := by
  cases works with
  | unwound found cancelled => exact ⟨by simp,Idle.standing proper⟩
  | unread open_ => exact proper
  | diffed found open_ => exact ⟨proper,rfl⟩
  | stopped ended found phase rest cancelled => exact ⟨by simp,proper.1.standing⟩
  | polled ended found phase rest left open_ => exact proper
  | switches found models commits given => exact ⟨proper.1,found,proper.2,commits,given⟩
  | asserts found commits => exact ⟨by simp,proper.1.standing⟩
  | applied found bare =>
      obtain ⟨⟨rfl,rfl,open_⟩,given⟩ := proper
      exact .bare found given bare open_
  | confirmed models => exact proper
  | unconfirmed models => exact ⟨by simp,proper.1.standing⟩
  | retired => exact ⟨fun _ => proper,Finishing.standing proper⟩
  | rolled outcome => exact ⟨fun done => absurd done proper.1,proper.2⟩
  | died point going =>
      cases point with
      | switching models => exact proper.1
      | committing models => exact proper
      | returned outcome => exact absurd rfl (going outcome)
      | diffing | applying | confirming | landing | retiring | unwinding | resetting | awaiting | restoring =>
          exact proper.standing

theorem raises_proper {point after : WorkerPoint} (raised : raises point = some after)
    (proper : Proper entry diff waiting landed (.working point)) :
    Proper entry diff waiting landed (.working after) := by
  have standing := proper.standing
  cases point with
  | diffing | applying | switching | confirming | committing | landing =>
      cases raised
      exact ⟨by simp,standing⟩
  | retiring | unwinding | resetting | awaiting | restoring =>
      cases raised
      exact ⟨by simp,standing⟩
  | returned outcome => cases raised

theorem sends_switch {stage : Stage} {models : List Json} (sent : stage.transit = some (.switch models)) :
    stage = .working (.switching models) ∨ stage = .lost (some (.switch models)) := by
  cases stage with
  | working point => cases point <;> cases sent; exact .inl rfl
  | lost transit => cases sent; exact .inr rfl
  | rolling reset late => cases sent

theorem sends_commit {stage : Stage} {models : List Json} (sent : stage.transit = some (.commit models)) :
    stage = .working (.committing models) ∨ stage = .lost (some (.commit models)) := by
  cases stage with
  | working point => cases point <;> cases sent; exact .inl rfl
  | lost transit => cases sent; exact .inr rfl
  | rolling reset late => cases sent

theorem sends_rollingBack {stage : Stage} (sent : stage.transit = some .rollingBack) :
    (∃ outcome, stage = .working (.unwinding outcome)) ∨ stage = .lost (some .rollingBack) := by
  cases stage with
  | working point => cases point <;> cases sent; exact .inl ⟨_,rfl⟩
  | lost transit => cases sent; exact .inr rfl
  | rolling reset late => cases sent

theorem sends_reset {stage : Stage} (sent : stage.transit = some .reset) :
    (∃ outcome, stage = .working (.resetting outcome)) ∨ stage = .lost (some .reset) := by
  cases stage with
  | working point => cases point <;> cases sent; exact .inl ⟨_,rfl⟩
  | lost transit => cases sent; exact .inr rfl
  | rolling reset late => cases sent

theorem Proper.switches {stage : Stage} {models : List Json} (running : Running)
    (proper : Proper entry diff waiting landed stage) (sent : stage.transit = some (.switch models)) :
    Proper {entry with state := .switching,switched := true} diff waiting landed (answer running true stage) := by
  rcases sends_switch sent with rfl | rfl
  · exact ⟨⟨proper.1.1,proper.1.2.1,by simp⟩,proper.2⟩
  · obtain ⟨rfl,rfl,open_⟩ := proper
    exact .idle (by simp)

theorem Proper.commits {stage : Stage} {models : List Json} (running : Running)
    (proper : Proper entry diff waiting landed stage) (sent : stage.transit = some (.commit models))
    (kept : entry.cancelled = false) :
    Proper {entry with state := .committing} diff (waiting ++ [models]) landed (answer running true stage) := by
  rcases sends_commit sent with rfl | rfl
  · obtain ⟨⟨rfl,rfl,open_⟩,told⟩ := proper
    exact ⟨rfl,rfl,told,rfl,kept⟩
  · obtain ⟨⟨rfl,rfl,open_⟩,told⟩ := proper
    exact .waiting models told (.inl rfl) kept

theorem Proper.turned {stage : Stage} {models : List Json} (running : Running)
    (proper : Proper entry diff waiting landed stage)
    (sent : stage.transit = some (.switch models) ∨ stage.transit = some (.commit models)) :
    Proper entry diff waiting landed (answer running false stage) := by
  have standing := proper.standing
  rcases sent with sent | sent
  · rcases sends_switch sent with rfl | rfl
    · exact ⟨by simp,standing⟩
    · exact standing
  · rcases sends_commit sent with rfl | rfl
    · simp only [answer]
      split
      · cases ‹false = true›
      · split
        · exact ⟨by simp,standing⟩
        · exact ⟨by simp,standing⟩
    · exact standing

theorem Proper.unwinds {stage : Stage} (running : Running) (proper : Proper entry diff waiting landed stage)
    (sent : stage.transit = some .rollingBack) :
    Proper {entry with state := .rollingBack} diff waiting landed (answer running true stage) := by
  rcases sends_rollingBack sent with ⟨outcome,rfl⟩ | rfl
  · exact ⟨proper.1,proper.2.rollsBack⟩
  · exact proper.standing.rollsBack

theorem Proper.resets {stage : Stage} (running : Running) (proper : Proper entry diff waiting landed stage)
    (sent : stage.transit = some .reset) : Proper entry diff waiting landed (answer running true stage) := by
  rcases sends_reset sent with ⟨outcome,rfl⟩ | rfl
  · exact proper
  · exact proper.standing

-- The coordinator grants a cancel only where no commit of the request is under way.
theorem Standing.granted (standing : Standing entry diff waiting landed) (committing : entry.state ≠ .committing)
    (retiring : entry.state ≠ .retiring) (rolling : entry.state = .rollingBack → entry.cancelled = true) :
    waiting = [] ∧ landed = [] := by
  cases standing with
  | idle open_ => exact ⟨rfl,rfl⟩
  | waiting models told state kept =>
      rcases state with state | state
      · exact absurd state committing
      · rw [rolling state] at kept
        cases kept
  | landed write told state kept =>
      rcases state with state | state
      · exact absurd state retiring
      · rw [rolling state] at kept
        cases kept

theorem Proper.cancels {stage : Stage} (proper : Proper entry diff waiting landed stage)
    (committing : entry.state ≠ .committing) (retiring : entry.state ≠ .retiring)
    (rolling : entry.state = .rollingBack → entry.cancelled = true) :
    Proper {entry with cancelled := true} diff waiting landed stage := by
  obtain ⟨rfl,rfl⟩ := proper.standing.granted committing retiring rolling
  have idle : Standing {entry with cancelled := true} diff [] [] := .idle retiring
  cases stage with
  | working point =>
      cases point with
      | diffing => exact proper
      | applying | switching | confirming | committing => exact proper
      | landing models => cases proper.1
      | retiring =>
          cases proper with
          | bare found given bare open_ => exact .bare found given bare open_
      | unwinding | resetting | awaiting | restoring => exact ⟨proper.1,idle⟩
      | returned outcome =>
          refine ⟨?_,idle⟩
          intro done
          cases proper.1 done with
          | bare found given bare open_ => exact .bare found given bare open_
  | lost transit =>
      cases transit with
      | none => exact idle
      | some call =>
          cases call with
          | switch | commit => exact proper
          | rollingBack | reset => exact idle
  | rolling reset late => exact idle

end

theorem lostOutcome_succeeded {entry : Entry} : lostOutcome entry = .succeeded ↔ entry.state = .retiring := by
  unfold lostOutcome
  split
  · simp [*]
  · split
    · simp [*]
    · simp [*]

theorem landed_id (ok : Bool) (id : String) (running : Running) :
    (landed ok id running).entry.id = running.entry.id ∧ (landed ok id running).diff = running.diff := by
  unfold landed
  split
  · exact ⟨rfl,rfl⟩
  · cases ok
    · exact ⟨rfl,rfl⟩
    · exact ⟨rfl,rfl⟩

theorem landed_other {ok : Bool} {id : String} {running : Running} (other : running.entry.id ≠ id) :
    landed ok id running = running := by
  simp [landed,other]

section
variable {entry : Entry} {diff : Option Diff} {models : List Json} {writes : List Write}

-- A request whose commit waits is at `landing`, or behind where its worker could
-- still learn of it.
theorem Proper.settles {other : Entry} {stage : Stage} {after : WorkerPoint} {later waiting : List (List Json)}
    {landed : List Write} (proper : Proper entry diff (models :: later) writes stage)
    (standing : Standing other diff waiting landed) (told : Proper other diff waiting landed (.working after)) :
    Proper other diff waiting landed (stage.told after) := by
  cases stage with
  | working point =>
      cases point with
      | diffing => cases proper.1
      | applying | switching | confirming | committing => cases proper.1.1
      | landing => exact told
      | retiring => cases proper
      | unwinding | resetting | awaiting | restoring => exact ⟨proper.1,standing⟩
      | returned outcome =>
          refine ⟨?_,standing⟩
          intro success
          cases proper.1 success
  | lost transit =>
      cases transit with
      | none => exact standing
      | some call =>
          cases call with
          | switch => cases proper.1
          | commit => cases proper.1.1
          | rollingBack | reset => exact standing
  | rolling reset late => exact standing

theorem Proper.lands {stage : Stage} (before : Bool) {later : List (List Json)}
    (proper : Proper entry diff (models :: later) writes stage) (write : Write)
    (same : write.models = models) (told : write.after = (commitVersion write.before write.models).1) :
    Proper {entry with state := .retiring} diff later (writes ++ [write])
      (landed true entry.id ⟨entry,stage,diff,before⟩).stage := by
  subst same
  have standing := proper.standing
  cases standing with
  | waiting _ proposed state kept =>
      have finishing : Finishing {entry with state := .retiring} diff [] [write] :=
        .landed write ⟨proposed,told⟩ rfl kept
      have answered := proper.settles finishing.standing (show Proper _ _ _ _ (.working .retiring) from finishing)
      simpa only [landed,bne_self_eq_false,Bool.false_eq_true,if_false,if_true,List.nil_append] using answered

theorem Proper.unwritten {stage : Stage} (before : Bool) {later : List (List Json)}
    (proper : Proper entry diff (models :: later) writes stage) :
    Proper entry diff later writes (landed false entry.id ⟨entry,stage,diff,before⟩).stage := by
  have standing := proper.standing
  cases standing with
  | waiting _ proposed state kept =>
      have open_ : entry.state ≠ .retiring := by
        rcases state with state | state <;> simp [state]
      have idle : Standing entry diff [] [] := .idle open_
      have raised : Proper entry diff [] [] (.working (.unwinding .failed)) := ⟨by simp,idle⟩
      have answered := proper.settles idle raised
      simpa only [landed,bne_self_eq_false,Bool.false_eq_true,if_false] using answered

theorem Proper.restores {waiting : List (List Json)} {landed : List Write} {stage : Stage} {before : Bool}
    (ok : Bool) (owner : Owner) (proper : Proper entry diff waiting landed stage) :
    Proper entry diff waiting landed (restored ok owner ⟨entry,stage,diff,before⟩).stage := by
  simp only [restored]
  split
  · rename_i outcome
    split
    · cases ok with
      | true => exact proper
      | false => exact ⟨by simp,proper.2⟩
    · exact proper
  · split
    · exact proper
    · exact proper
  · exact proper

theorem Proper.notices {waiting : List (List Json)} {landed : List Write} {s : Coordinator}
    {transit call : Option Transit} {before : Bool} (proper : Proper entry diff waiting landed (.lost transit)) :
    ∃ state late, (notice s ⟨entry,.lost transit,diff,before⟩ call).running =
        some ⟨{entry with state},.rolling .sent late,diff,before⟩ ∧
      Proper {entry with state} diff waiting landed (.rolling .sent late) := by
  refine ⟨_,_,rfl,?_⟩
  dsimp only
  split
  · exact proper.standing
  · exact proper.standing.rollsBack

end

-- Ids are never given twice, a request that has not begun has committed nothing, and
-- the running one is where its stage says.
structure Valid (s : Coordinator) : Prop where
  queued : ∀ entry ∈ s.queue, entry.state = .queued ∧ entry.cancelled = false ∧ entry.switched = false
  distinct : s.queue.Pairwise (·.id ≠ ·.id)
  apart : ∀ entry ∈ s.queue, entry.id ∉ s.begun
  single : ∀ running, s.running = some running → running.entry.id ∉ s.outcomes.map (·.entry.id)
  unbegun : ∀ id, id ∉ s.begun → pending id s.lock = [] ∧ written id s.writes = []
  proper : ∀ running, s.running = some running → Proper running.entry running.diff
    (pending running.entry.id s.lock) (written running.entry.id s.writes) running.stage

theorem start_valid (cell : Json) (seq : Int) : Valid (start cell seq) := by
  constructor <;> simp [start,written]

theorem mem_begun {s : Coordinator} {id : String} :
    id ∈ s.begun ↔ (∃ running, s.running = some running ∧ running.entry.id = id) ∨
      id ∈ s.outcomes.map (·.entry.id) := by
  simp [Coordinator.begun]

theorem running_begun {s : Coordinator} {running : Running} (here : s.running = some running) :
    running.entry.id ∈ s.begun :=
  mem_begun.mpr (.inl ⟨running,here,rfl⟩)

theorem Valid.frame {s t : Coordinator} (valid : Valid s) (queue : t.queue = s.queue)
    (outcomes : t.outcomes = s.outcomes) (begun : t.begun = s.begun)
    (others : ∀ id, id ∉ s.begun → pending id t.lock = pending id s.lock ∧ written id t.writes = written id s.writes)
    (proper : ∀ after, t.running = some after →
      (∃ running, s.running = some running ∧ after.entry.id = running.entry.id) ∧
      Proper after.entry after.diff (pending after.entry.id t.lock) (written after.entry.id t.writes) after.stage) :
    Valid t := by
  refine ⟨queue ▸ valid.queued,queue ▸ valid.distinct,?_,?_,?_,fun after now => (proper after now).2⟩
  · rw [queue,begun]
    exact valid.apart
  · intro after now
    obtain ⟨running,here,same⟩ := (proper after now).1
    rw [outcomes,same]
    exact valid.single running here
  · intro id absent
    rw [begun] at absent
    rw [(others id absent).1,(others id absent).2]
    exact valid.unbegun id absent

-- The running request moves on; what the lock and the store hold of others stays.
theorem Valid.reruns {s t : Coordinator} (valid : Valid s) {running after : Running}
    (here : s.running = some running) (now : t.running = some after) (same : after.entry.id = running.entry.id)
    (queue : t.queue = s.queue) (outcomes : t.outcomes = s.outcomes)
    (others : ∀ id, id ≠ running.entry.id →
      pending id t.lock = pending id s.lock ∧ written id t.writes = written id s.writes)
    (proper : Proper after.entry after.diff (pending after.entry.id t.lock) (written after.entry.id t.writes)
      after.stage) : Valid t := by
  refine valid.frame queue outcomes (by simp [Coordinator.begun,here,now,outcomes,same]) ?_ ?_
  · intro id absent
    apply others
    rintro rfl
    exact absent (running_begun here)
  · intro present there
    rw [now] at there
    cases there
    exact ⟨⟨running,here,same⟩,proper⟩

theorem Valid.idles {s t : Coordinator} (valid : Valid s) (running : t.running = s.running)
    (queue : t.queue = s.queue) (outcomes : t.outcomes = s.outcomes)
    (lock : ∀ id, pending id t.lock = pending id s.lock) (writes : t.writes = s.writes) : Valid t := by
  refine valid.frame queue outcomes (by simp [Coordinator.begun,running,outcomes]) ?_ ?_
  · intro id _
    exact ⟨lock id,by rw [writes]⟩
  · intro after now
    rw [running] at now
    rw [lock,writes]
    exact ⟨⟨after,now,rfl⟩,valid.proper after now⟩

-- The holder of the lock is served, and the running request may hear of it.
theorem Valid.serves {s t : Coordinator} (valid : Valid s) (heard : Running → Running)
    (now : t.running = s.running.map heard) (same : ∀ running, (heard running).entry.id = running.entry.id)
    (queue : t.queue = s.queue) (outcomes : t.outcomes = s.outcomes)
    (others : ∀ id, id ∉ s.begun → pending id t.lock = pending id s.lock ∧ written id t.writes = written id s.writes)
    (proper : ∀ running, s.running = some running → Proper (heard running).entry (heard running).diff
      (pending running.entry.id t.lock) (written running.entry.id t.writes) (heard running).stage) : Valid t := by
  have begun : t.begun = s.begun := by
    cases here : s.running with
    | none => simp [Coordinator.begun,here,now,outcomes]
    | some running => simp [Coordinator.begun,here,now,outcomes,same]
  refine valid.frame queue outcomes begun others ?_
  intro after there
  rw [now] at there
  obtain ⟨running,here,rfl⟩ := Option.map_eq_some_iff.mp there
  refine ⟨⟨running,here,same running⟩,?_⟩
  rw [same]
  exact proper running here

theorem Valid.finishes {s t : Coordinator} (valid : Valid s) {running : Running} {diff : Option Diff}
    {outcome : Outcome} (here : s.running = some running) (gone : t.running = none) (queue : t.queue = s.queue)
    (outcomes : t.outcomes = s.outcomes ++ [⟨running.entry,diff,outcome⟩]) (lock : t.lock = s.lock)
    (writes : t.writes = s.writes) : Valid t := by
  have begun : ∀ id, id ∈ t.begun ↔ id ∈ s.begun := by
    intro id
    simp only [mem_begun,gone,here,outcomes,List.map_append,List.mem_append]
    simp only [Option.some.injEq,exists_eq_left',List.map_cons,List.map_nil,List.mem_singleton]
    constructor
    · rintro (⟨_,absurd_,_⟩ | earlier | rfl)
      · cases absurd_
      · exact .inr earlier
      · exact .inl rfl
    · rintro (rfl | earlier)
      · exact .inr (.inr rfl)
      · exact .inr (.inl earlier)
  refine ⟨queue ▸ valid.queued,queue ▸ valid.distinct,?_,?_,?_,?_⟩
  · intro entry present
    rw [begun]
    exact valid.apart entry (queue ▸ present)
  · intro running' present
    rw [gone] at present
    cases present
  · intro id absent
    rw [begun] at absent
    rw [lock,writes]
    exact valid.unbegun id absent
  · intro running' present
    rw [gone] at present
    cases present

theorem Valid.drops {s : Coordinator} (valid : Valid s) {id : String} {entry : Entry}
    (found : s.queue.find? (·.id == id) = some entry) : Valid {s with
      queue := s.queue.filter (·.id != id)
      outcomes := s.outcomes ++ [⟨entry,none,.cancelled⟩]
      granted := s.granted ++ [id]} := by
  have same : entry.id = id := by simpa using List.find?_some found
  have present := List.mem_of_find?_eq_some found
  have begun : ∀ other, other ∈ Coordinator.begun {s with
      queue := s.queue.filter (·.id != id)
      outcomes := s.outcomes ++ [⟨entry,none,.cancelled⟩]
      granted := s.granted ++ [id]} ↔ other ∈ s.begun ∨ other = id := by
    intro other
    simp only [mem_begun,List.map_append,List.mem_append,List.map_cons,List.map_nil,List.mem_singleton,same,
      or_assoc]
  refine ⟨?_,?_,?_,?_,?_,valid.proper⟩
  · intro other kept
    exact valid.queued other (List.mem_of_mem_filter kept)
  · exact valid.distinct.sublist List.filter_sublist
  · intro other kept
    rw [begun,not_or]
    obtain ⟨held,differs⟩ := List.mem_filter.mp kept
    exact ⟨valid.apart other held,by simpa using differs⟩
  · intro running here
    simp only [List.map_append,List.mem_append,not_or]
    refine ⟨valid.single running here,?_⟩
    intro collides
    simp only [List.map_cons,List.map_nil,List.mem_singleton] at collides
    exact valid.apart entry present (collides ▸ running_begun here)
  · intro other absent
    rw [begun,not_or] at absent
    exact valid.unbegun other absent.1

theorem Valid.starts {s : Coordinator} (valid : Valid s) {entry : Entry} {rest : List Entry}
    (idle : s.running = none) (first : s.queue = entry :: rest) : Valid {s with
      queue := rest,running := some ⟨{entry with state := .applying},.working .diffing,none,false⟩} := by
  have present : entry ∈ s.queue := first ▸ List.mem_cons_self
  have fresh := valid.apart entry present
  have outcomes : s.begun = s.outcomes.map (·.entry.id) := by simp [Coordinator.begun,idle]
  have distinct := valid.distinct
  rw [first,List.pairwise_cons] at distinct
  refine ⟨?_,distinct.2,?_,?_,?_,?_⟩
  · intro other kept
    exact valid.queued other (first ▸ List.mem_cons_of_mem _ kept)
  · intro other kept
    rw [mem_begun,not_or,← outcomes]
    refine ⟨?_,valid.apart other (first ▸ List.mem_cons_of_mem _ kept)⟩
    rintro ⟨running,here,collides⟩
    cases here
    exact distinct.1 other kept collides
  · intro running here
    cases here
    exact outcomes ▸ fresh
  · intro id absent
    rw [mem_begun,not_or,← outcomes] at absent
    exact valid.unbegun id absent.2
  · intro running here
    cases here
    obtain ⟨waiting,landed⟩ := valid.unbegun entry.id fresh
    exact ⟨waiting,landed,by simp⟩

theorem Valid.submits {s : Coordinator} (valid : Valid s) {id : String} (strategy : Strategy)
    (fresh : id ∉ s.ids) : Valid {s with queue := s.queue ++ [⟨id,strategy,.queued,false,false⟩]} := by
  rw [Coordinator.ids,List.mem_append,not_or] at fresh
  refine ⟨?_,?_,?_,valid.single,valid.unbegun,valid.proper⟩
  · intro entry present
    rcases List.mem_append.mp present with held | new
    · exact valid.queued entry held
    · cases List.mem_singleton.mp new
      exact ⟨rfl,rfl,rfl⟩
  · rw [List.pairwise_append]
    refine ⟨valid.distinct,List.pairwise_singleton _ _,?_⟩
    intro entry held new last collides
    cases List.mem_singleton.mp last
    exact fresh.1 (List.mem_map.mpr ⟨entry,held,collides⟩)
  · intro entry present
    rcases List.mem_append.mp present with held | new
    · exact valid.apart entry held
    · cases List.mem_singleton.mp new
      exact fresh.2

theorem Valid.holder {s : Coordinator} (valid : Valid s) {id : String} {models : List Json} {rest : List Task}
    (held : s.lock = .commit id models :: rest) : id ∈ s.begun := by
  by_contra absent
  have idle := (valid.unbegun id absent).1
  simp [held] at idle

theorem Valid.unheld {s : Coordinator} (valid : Valid s) {id other : String} {models : List Json} {rest : List Task}
    (held : s.lock = .commit id models :: rest) (absent : other ∉ s.begun) : id ≠ other := by
  rintro rfl
  exact absent (valid.holder held)

theorem Valid.lands {s : Coordinator} (valid : Valid s) {id : String} {models : List Json} {rest : List Task}
    (held : s.lock = .commit id models :: rest) : Valid {s with
      lock := rest,running := s.running.map (landed true id)
      cell := (commitVersion s.cell models).1
      writes := s.writes ++ [⟨id,models,s.cell,(commitVersion s.cell models).1⟩]} := by
  refine valid.serves (landed true id) rfl (fun running => (landed_id true id running).1) rfl rfl ?_ ?_
  · intro other absent
    simp [held,valid.unheld held absent]
  · intro running here
    have proper := valid.proper running here
    rw [held,pending_commit] at proper
    by_cases same : id = running.entry.id
    · subst same
      rw [if_pos rfl] at proper
      have lands := proper.lands running.restored
        ⟨running.entry.id,models,s.cell,(commitVersion s.cell models).1⟩ rfl rfl
      simpa [landed] using lands
    · rw [if_neg same] at proper
      rw [landed_other (Ne.symm same)]
      simpa [same] using proper

theorem Valid.unwritten {s : Coordinator} (valid : Valid s) {id : String} {models : List Json} {rest : List Task}
    (held : s.lock = .commit id models :: rest) :
    Valid {s with lock := rest,running := s.running.map (landed false id)} := by
  refine valid.serves (landed false id) rfl (fun running => (landed_id false id running).1) rfl rfl ?_ ?_
  · intro other absent
    simp [held,valid.unheld held absent]
  · intro running here
    have proper := valid.proper running here
    rw [held,pending_commit] at proper
    by_cases same : id = running.entry.id
    · subst same
      rw [if_pos rfl] at proper
      simpa [landed] using proper.unwritten running.restored
    · rw [if_neg same] at proper
      rw [landed_other (Ne.symm same)]
      exact proper

theorem Valid.answers {s t : Coordinator} (valid : Valid s) {ok : Bool} {owner : Owner} {rest : List Task}
    (held : s.lock = .reset owner :: rest) (lock : t.lock = rest)
    (running : t.running = s.running.map (restored ok owner)) (queue : t.queue = s.queue)
    (outcomes : t.outcomes = s.outcomes) (writes : t.writes = s.writes) : Valid t := by
  have same : ∀ id, pending id t.lock = pending id s.lock := by
    intro id
    rw [lock,held,pending_reset]
  refine valid.serves (restored ok owner) running (fun _ => rfl) queue outcomes ?_ ?_
  · intro id _
    exact ⟨same id,by rw [writes]⟩
  · intro running here
    rw [same,writes]
    exact (valid.proper running here).restores ok owner

theorem moves_valid {apps : List Json → List (String × String)} {s t : Coordinator} {action : Action}
    (moves : Moves apps s action t) (valid : Valid s) : Valid t := by
  cases moves with
  | submits id strategy fresh => exact valid.submits strategy fresh
  | drops id entry found => exact valid.drops found
  | grants entry stage diff restored here committing retiring rolling =>
      exact valid.reruns here rfl rfl rfl rfl (fun _ _ => ⟨rfl,rfl⟩)
        ((valid.proper _ here).cancels committing retiring rolling)
  | refuses id => exact valid
  | recovers waiting => exact valid.idles rfl rfl rfl (fun _ => rfl) rfl
  | recoveryArrives sent => exact valid.idles rfl rfl rfl (by simp) rfl
  | recovered strays going => exact valid.idles rfl rfl rfl (fun _ => rfl) rfl
  | starts entry rest idle ended first => exact valid.starts idle first
  | works entry point diff restored action later stage here works =>
      exact valid.reruns here rfl rfl rfl rfl (fun _ _ => ⟨rfl,rfl⟩) (works_proper works (valid.proper _ here))
  | raises entry point diff restored after here raised =>
      exact valid.reruns here rfl rfl rfl rfl (fun _ _ => ⟨rfl,rfl⟩) (raises_proper raised (valid.proper _ here))
  | switches entry stage diff restored models here sent open_ =>
      exact valid.reruns here rfl rfl rfl rfl (fun _ _ => ⟨rfl,rfl⟩) ((valid.proper _ here).switches _ sent)
  | commits entry stage diff restored models here sent open_ kept =>
      refine valid.reruns here rfl rfl rfl rfl ?_ ?_
      · intro id differs
        simp [differs.symm]
      · simpa using (valid.proper _ here).commits ⟨entry,stage,diff,restored⟩ sent kept
  | turned entry stage diff restored models here sent =>
      exact valid.reruns here rfl rfl rfl rfl (fun _ _ => ⟨rfl,rfl⟩) ((valid.proper _ here).turned _ sent)
  | unwinds entry stage diff restored here sent =>
      exact valid.reruns here rfl rfl rfl rfl (fun _ _ => ⟨rfl,rfl⟩) ((valid.proper _ here).unwinds _ sent)
  | resets entry stage diff restored here sent =>
      refine valid.reruns here rfl rfl rfl rfl (by simp) ?_
      simpa using (valid.proper _ here).resets ⟨entry,stage,diff,restored⟩ sent
  | notices entry transit diff restored here =>
      obtain ⟨state,late,now,proper⟩ := (valid.proper _ here).notices (s := s)
      exact valid.reruns here now rfl rfl rfl (fun _ _ => ⟨rfl,rfl⟩) proper
  | rollbackArrives entry late diff restored here =>
      refine valid.reruns here rfl rfl rfl rfl (by simp) ?_
      simpa [Proper] using (valid.proper _ here).standing
  | lateArrives entry reset diff restored here =>
      exact valid.reruns here rfl rfl rfl rfl (fun _ _ => ⟨rfl,rfl⟩) (valid.proper _ here).standing.rollsBack
  | rollbackOver entry reset late diff restored here => exact valid.finishes here rfl rfl rfl rfl rfl
  | collects entry outcome diff restored here => exact valid.finishes here rfl rfl rfl rfl rfl
  | strayArrives some => exact valid.idles rfl rfl rfl (by simp) rfl
  | lands id models rest held => exact valid.lands held
  | unwritten id models rest held => exact valid.unwritten held
  | answers ok owner rest recovery held ended same => exact valid.answers held rfl rfl rfl rfl rfl
  | reroutes owner rest recovery held ended => exact valid.answers held rfl rfl rfl rfl rfl
  | looks absent => exact valid.idles rfl rfl rfl (fun _ => rfl) rfl
  | overtaken index routed => exact valid.idles rfl rfl rfl (fun _ => rfl) rfl
  | looked index models found absent => exact valid.idles rfl rfl rfl (fun _ => rfl) rfl

end Modelship.Deploy

import Modelship.Deploy.Requests

namespace Modelship.Deploy
open Foundation

def commits (diff : Option Diff) : Bool := diff.any Diff.commits

-- A worker does not raise once its commit is on its way to the store, and the rollback
-- after a lost worker does wait out a commit in flight.
def waitsOut (s : Coordinator) : Action → Bool
  | .raises =>
    match s.running with
    | some ⟨_,.working (.landing _),_,_⟩ => false
    | some ⟨_,.working .retiring,diff,_⟩ => !commits diff
    | _ => true
  | .rollbackOver =>
    match s.running with
    | some running => (pending running.entry.id s.lock).isEmpty
    | none => true
  | _ => true

-- The stages of a run that is rolled back, by its worker or because that is gone.
def unwinds : Stage → Bool
  | .working (.unwinding _) | .working (.resetting _) | .working (.awaiting _) | .working (.restoring _) => true
  | .working (.returned outcome) => outcome ≠ .succeeded
  | .lost (some .rollingBack) | .lost (some .reset) => true
  | .rolling _ late => late
  | _ => false

def Uncommitted (s : Coordinator) (id : String) : Prop := pending id s.lock = [] ∧ written id s.writes = []

def Committed (s : Coordinator) (id : String) (diff : Option Diff) : Prop :=
  pending id s.lock = [] ∧ ∃ write, written id s.writes = [write] ∧ genuine diff write

structure Accounted (s : Coordinator) : Prop where
  valid : Valid s
  rolled : ∀ running, s.running = some running →
    running.entry.state = .rollingBack ∨ unwinds running.stage = true → Uncommitted s running.entry.id
  failed : ∀ done ∈ s.outcomes, done.outcome ≠ .succeeded → Uncommitted s done.entry.id
  succeeded : ∀ done ∈ s.outcomes, done.outcome = .succeeded → commits done.diff = true →
    Committed s done.entry.id done.diff

section
variable {apps : List Json → List (String × String)} {s t : Coordinator}

theorem start_accounted (cell : Json) (seq : Int) : Accounted (start cell seq) :=
  ⟨start_valid cell seq,by simp [start],by simp [start],by simp [start]⟩

theorem Accounted.frame (accounted : Accounted s) (valid : Valid t) (outcomes : t.outcomes = s.outcomes)
    (same : ∀ done ∈ s.outcomes, Uncommitted s done.entry.id ∨ Committed s done.entry.id done.diff →
      pending done.entry.id t.lock = pending done.entry.id s.lock ∧
      written done.entry.id t.writes = written done.entry.id s.writes)
    (rolled : ∀ after, t.running = some after → after.entry.state = .rollingBack ∨ unwinds after.stage = true →
      Uncommitted t after.entry.id) : Accounted t := by
  refine ⟨valid,rolled,?_,?_⟩
  · intro done present ended
    rw [outcomes] at present
    have before := accounted.failed done present ended
    obtain ⟨lock,writes⟩ := same done present (.inl before)
    rw [Uncommitted,lock,writes]
    exact before
  · intro done present ended commits
    rw [outcomes] at present
    have before := accounted.succeeded done present ended commits
    obtain ⟨lock,writes⟩ := same done present (.inr before)
    rw [Committed,lock,writes]
    exact before

theorem Accounted.idles (accounted : Accounted s) (valid : Valid t) (running : t.running = s.running)
    (outcomes : t.outcomes = s.outcomes) (lock : ∀ id, pending id t.lock = pending id s.lock)
    (writes : t.writes = s.writes) : Accounted t := by
  refine accounted.frame valid outcomes ?_ ?_
  · intro done _ _
    exact ⟨lock _,by rw [writes]⟩
  · intro after now winds
    rw [Uncommitted,lock,writes]
    exact accounted.rolled after (running ▸ now) winds

theorem Accounted.reruns (accounted : Accounted s) (valid : Valid t) {running after : Running}
    (here : s.running = some running) (now : t.running = some after)
    (outcomes : t.outcomes = s.outcomes)
    (others : ∀ id, id ≠ running.entry.id →
      pending id t.lock = pending id s.lock ∧ written id t.writes = written id s.writes)
    (rolled : after.entry.state = .rollingBack ∨ unwinds after.stage = true → Uncommitted t after.entry.id) :
    Accounted t := by
  refine accounted.frame valid outcomes ?_ ?_
  · intro done present _
    apply others
    intro collides
    exact accounted.valid.single running here (collides ▸ List.mem_map_of_mem present)
  · intro present there winds
    rw [now] at there
    cases there
    exact rolled winds

-- A run stands at nothing committed wherever it may turn to a rollback.
theorem Standing.uncommitted {entry : Entry} {diff : Option Diff} {waiting : List (List Json)}
    {landed : List Write} (standing : Standing entry diff waiting landed)
    (committing : entry.state ≠ .committing) (retiring : entry.state ≠ .retiring)
    (rolled : entry.state = .rollingBack → waiting = [] ∧ landed = []) : waiting = [] ∧ landed = [] := by
  cases standing with
  | idle open_ => exact ⟨rfl,rfl⟩
  | waiting models told state kept =>
      rcases state with state | state
      · exact absurd state committing
      · exact rolled state
  | landed write told state kept =>
      rcases state with state | state
      · exact absurd state retiring
      · exact rolled state

theorem Finishing.committed {entry : Entry} {diff : Option Diff} {waiting : List (List Json)}
    {landed : List Write} (finishing : Finishing entry diff waiting landed) (asks : commits diff = true) :
    waiting = [] ∧ ∃ write, landed = [write] ∧ genuine diff write := by
  cases finishing with
  | bare found given bare open_ => simp [commits,given,bare] at asks
  | landed write told state kept => exact ⟨rfl,write,rfl,told⟩

theorem Standing.abandoned {entry : Entry} {diff : Option Diff} {waiting : List (List Json)}
    {landed : List Write} (standing : Standing entry diff waiting landed) (served : waiting = [])
    (retiring : entry.state ≠ .retiring) (rolled : entry.state = .rollingBack → waiting = [] ∧ landed = []) :
    waiting = [] ∧ landed = [] := by
  cases standing with
  | idle open_ => exact ⟨rfl,rfl⟩
  | waiting models told state kept => cases served
  | landed write told state kept =>
      rcases state with state | state
      · exact absurd state retiring
      · exact rolled state

theorem restored_unwinds {ok : Bool} {owner : Owner} {running : Running}
    (winds : unwinds (restored ok owner running).stage = true) : unwinds running.stage = true := by
  simp only [restored] at winds
  split at winds
  · rename_i waits
    rw [waits]
    rfl
  · rename_i waits
    rw [waits]
    split at winds
    · exact winds
    · rw [waits] at winds
      exact winds
  · exact winds

theorem works_rolled {entry : Entry} {diff later : Option Diff} {action : Action} {point : WorkerPoint}
    {stage : Stage} {waiting : List (List Json)} {landed : List Write}
    (works : Works entry diff action point later stage)
    (proper : Proper entry diff waiting landed (.working point))
    (before : unwinds (.working point) = true → waiting = [] ∧ landed = [])
    (winds : unwinds stage = true) : waiting = [] ∧ landed = [] := by
  cases works with
  | unwound found cancelled => exact ⟨proper.1,proper.2.1⟩
  | stopped ended found phase rest cancelled => exact ⟨proper.1.1,proper.1.2.1⟩
  | asserts found commits => exact ⟨proper.1.1,proper.1.2.1⟩
  | unconfirmed models => exact ⟨proper.1.1,proper.1.2.1⟩
  | unread | diffed | polled | switches | applied | confirmed => cases winds
  | retired => cases winds
  | rolled outcome => exact before rfl
  | died point going =>
      cases point with
      | unwinding | resetting => exact before rfl
      | returned outcome => exact absurd rfl (going outcome)
      | diffing | applying | switching | confirming | committing | landing | retiring | awaiting | restoring =>
          cases winds

theorem raises_rolled {entry : Entry} {diff : Option Diff} {point after : WorkerPoint}
    {waiting : List (List Json)} {landed : List Write} (raised : raises point = some after)
    (proper : Proper entry diff waiting landed (.working point))
    (before : unwinds (.working point) = true → waiting = [] ∧ landed = [])
    (early : ∀ models, point ≠ .landing models) (bare : point = .retiring → commits diff = false) :
    waiting = [] ∧ landed = [] := by
  cases point with
  | diffing => exact ⟨proper.1,proper.2.1⟩
  | applying | switching | confirming | committing => exact ⟨proper.1.1,proper.1.2.1⟩
  | landing models => exact absurd rfl (early models)
  | retiring =>
      cases proper with
      | bare found given none_ open_ => exact ⟨rfl,rfl⟩
      | landed write told state kept =>
          obtain ⟨⟨found,given,asks,_⟩,_⟩ := told
          have idle := bare rfl
          simp [commits,given,asks] at idle
  | unwinding | resetting | awaiting | restoring => exact before rfl
  | returned outcome => cases raised

theorem Accounted.finishes (accounted : Accounted s) (valid : Valid t) {entry : Entry} {diff : Option Diff}
    {outcome : Outcome} (gone : t.running = none) (outcomes : t.outcomes = s.outcomes ++ [⟨entry,diff,outcome⟩])
    (lock : t.lock = s.lock) (writes : t.writes = s.writes)
    (failed : outcome ≠ .succeeded → Uncommitted s entry.id)
    (succeeded : outcome = .succeeded → commits diff = true → Committed s entry.id diff) : Accounted t := by
  refine ⟨valid,?_,?_,?_⟩
  · intro after now
    rw [gone] at now
    cases now
  · intro done present ended
    rw [Uncommitted,lock,writes]
    rw [outcomes,List.mem_append] at present
    rcases present with earlier | last
    · exact accounted.failed done earlier ended
    · cases List.mem_singleton.mp last
      exact failed ended
  · intro done present ended asks
    rw [Committed,lock,writes]
    rw [outcomes,List.mem_append] at present
    rcases present with earlier | last
    · exact accounted.succeeded done earlier ended asks
    · cases List.mem_singleton.mp last
      exact succeeded ended asks

theorem Accounted.drops (accounted : Accounted s) {id : String} {entry : Entry}
    (found : s.queue.find? (·.id == id) = some entry) : Accounted {s with
      queue := s.queue.filter (·.id != id)
      outcomes := s.outcomes ++ [⟨entry,none,.cancelled⟩]
      granted := s.granted ++ [id]} := by
  have fresh := accounted.valid.apart entry (List.mem_of_find?_eq_some found)
  refine ⟨accounted.valid.drops found,accounted.rolled,?_,?_⟩
  · intro done present ended
    rcases List.mem_append.mp present with earlier | last
    · exact accounted.failed done earlier ended
    · cases List.mem_singleton.mp last
      exact accounted.valid.unbegun entry.id fresh
  · intro done present ended asks
    rcases List.mem_append.mp present with earlier | last
    · exact accounted.succeeded done earlier ended asks
    · cases List.mem_singleton.mp last
      cases ended

-- The holder of the lock is no request that has ended, and it is not rolled back.
theorem Accounted.holder (accounted : Accounted s) {id : String} {models : List Json} {rest : List Task}
    (held : s.lock = .commit id models :: rest) :
    (∀ done ∈ s.outcomes, Uncommitted s done.entry.id ∨ Committed s done.entry.id done.diff →
      id ≠ done.entry.id) ∧
    ∀ running, s.running = some running → running.entry.id = id →
      running.entry.state ≠ .rollingBack ∧ unwinds running.stage = false := by
  have busy : pending id s.lock ≠ [] := by simp [held]
  refine ⟨?_,?_⟩
  · rintro done present (idle | landed) rfl
    · exact busy idle.1
    · exact busy landed.1
  · rintro running here rfl
    have going := fun winds => busy (accounted.rolled running here winds).1
    exact ⟨fun state => going (.inl state),Bool.eq_false_iff.mpr fun winds => going (.inr winds)⟩

theorem Accounted.serves (accounted : Accounted s) (valid : Valid t) {id : String} {models : List Json}
    {rest : List Task} (held : s.lock = .commit id models :: rest) (ok : Bool)
    (running : t.running = s.running.map (landed ok id)) (outcomes : t.outcomes = s.outcomes)
    (others : ∀ other, id ≠ other → pending other t.lock = pending other s.lock ∧
      written other t.writes = written other s.writes)
    (rolled : ∀ running, s.running = some running → running.entry.id = id →
      (landed ok id running).entry.state = .rollingBack ∨ unwinds (landed ok id running).stage = true →
      Uncommitted t id) : Accounted t := by
  refine accounted.frame valid outcomes ?_ ?_
  · intro done present ended
    exact others _ ((accounted.holder held).1 done present ended)
  · intro after now winds
    rw [running] at now
    obtain ⟨before,here,rfl⟩ := Option.map_eq_some_iff.mp now
    rw [(landed_id ok id before).1]
    by_cases same : before.entry.id = id
    · rw [same]
      exact rolled before here same winds
    · rw [landed_other same] at winds
      rw [Uncommitted,(others _ (Ne.symm same)).1,(others _ (Ne.symm same)).2]
      exact accounted.rolled before here winds

theorem Accounted.lands (accounted : Accounted s) {id : String} {models : List Json} {rest : List Task}
    (held : s.lock = .commit id models :: rest) : Accounted {s with
      lock := rest,running := s.running.map (landed true id)
      cell := (commitVersion s.cell models).1
      writes := s.writes ++ [⟨id,models,s.cell,(commitVersion s.cell models).1⟩]} := by
  refine accounted.serves (accounted.valid.lands held) held true rfl rfl ?_ ?_
  · intro other differs
    simp [held,differs]
  · rintro ⟨entry,stage,diff,restored⟩ here rfl
    have going := ((accounted.holder held).2 _ here rfl).2
    simp only [landed,bne_self_eq_false,Bool.false_eq_true,if_false,if_true]
    rintro (state | winds)
    · cases state
    · unfold Stage.told at winds
      split at winds
      · cases winds
      · simp only [going] at winds
        cases winds

theorem Accounted.unwritten (accounted : Accounted s) {id : String} {models : List Json} {rest : List Task}
    (held : s.lock = .commit id models :: rest) :
    Accounted {s with lock := rest,running := s.running.map (landed false id)} := by
  refine accounted.serves (accounted.valid.unwritten held) held false rfl rfl ?_ ?_
  · intro other differs
    simp [held,differs]
  · rintro running here rfl _
    have standing := (accounted.valid.proper running here).standing
    rw [held,pending_commit,if_pos rfl] at standing
    exact standing.refused

theorem Accounted.answers (accounted : Accounted s) (valid : Valid t) {ok : Bool} {owner : Owner}
    {rest : List Task} (held : s.lock = .reset owner :: rest) (lock : t.lock = rest)
    (running : t.running = s.running.map (restored ok owner)) (outcomes : t.outcomes = s.outcomes)
    (writes : t.writes = s.writes) : Accounted t := by
  have same : ∀ id, pending id t.lock = pending id s.lock := by
    intro id
    rw [lock,held,pending_reset]
  refine accounted.frame valid outcomes ?_ ?_
  · intro done _ _
    exact ⟨same _,by rw [writes]⟩
  · intro after now winds
    rw [running] at now
    obtain ⟨before,here,rfl⟩ := Option.map_eq_some_iff.mp now
    rw [Uncommitted,same,writes]
    apply accounted.rolled before here
    rcases winds with state | winds
    · exact .inl state
    · exact .inr (restored_unwinds winds)

theorem moves_accounted {action : Action} (moves : Moves apps s action t) (orderly : waitsOut s action = true)
    (accounted : Accounted s) : Accounted t := by
  have valid := moves_valid moves accounted.valid
  cases moves with
  | submits id strategy fresh => exact accounted.idles valid rfl rfl (fun _ => rfl) rfl
  | drops id entry found => exact accounted.drops found
  | grants entry stage diff restored here committing retiring rolling =>
      have before := accounted.rolled _ here
      exact accounted.reruns valid here rfl rfl (fun _ _ => ⟨rfl,rfl⟩) before
  | refuses id => exact accounted
  | recovers waiting => exact accounted.idles valid rfl rfl (fun _ => rfl) rfl
  | recoveryArrives sent => exact accounted.idles valid rfl rfl (by simp) rfl
  | recovered strays going => exact accounted.idles valid rfl rfl (fun _ => rfl) rfl
  | starts entry rest idle ended first =>
      refine accounted.frame valid rfl (fun _ _ _ => ⟨rfl,rfl⟩) ?_
      intro after now winds
      cases now
      rcases winds with state | winds
      · cases state
      · cases winds
  | works entry point diff restored action later stage here works =>
      have before := accounted.rolled _ here
      refine accounted.reruns valid here rfl rfl (fun _ _ => ⟨rfl,rfl⟩) ?_
      rintro (state | winds)
      · exact before (.inl state)
      · exact works_rolled works (accounted.valid.proper _ here) (fun winding => before (.inr winding)) winds
  | raises entry point diff restored after here raised =>
      have before := accounted.rolled _ here
      refine accounted.reruns valid here rfl rfl (fun _ _ => ⟨rfl,rfl⟩) ?_
      intro _
      refine raises_rolled raised (accounted.valid.proper _ here) (fun winding => before (.inr winding)) ?_ ?_
      · rintro models rfl
        simp [waitsOut,here] at orderly
      · rintro rfl
        simpa [waitsOut,here] using orderly
  | switches entry stage diff restored models here sent open_ =>
      refine accounted.reruns valid here rfl rfl (fun _ _ => ⟨rfl,rfl⟩) ?_
      rintro (state | winds)
      · cases state
      · rcases sends_switch sent with rfl | rfl
        · cases winds
        · cases winds
  | commits entry stage diff restored models here sent open_ kept =>
      refine accounted.reruns valid here rfl rfl ?_ ?_
      · intro id differs
        simp [differs.symm]
      · rintro (state | winds)
        · cases state
        · rcases sends_commit sent with rfl | rfl
          · cases winds
          · cases winds
  | turned entry stage diff restored models here sent =>
      have proper := accounted.valid.proper _ here
      refine accounted.reruns valid here rfl rfl (fun _ _ => ⟨rfl,rfl⟩) ?_
      intro _
      rcases sent with sent | sent
      · rcases sends_switch sent with rfl | rfl
        · exact ⟨proper.1.1,proper.1.2.1⟩
        · exact ⟨proper.1,proper.2.1⟩
      · rcases sends_commit sent with rfl | rfl
        · exact ⟨proper.1.1,proper.1.2.1⟩
        · exact ⟨proper.1.1,proper.1.2.1⟩
  | unwinds entry stage diff restored here sent =>
      have before := accounted.rolled _ here
      refine accounted.reruns valid here rfl rfl (fun _ _ => ⟨rfl,rfl⟩) ?_
      intro _
      rcases sends_rollingBack sent with ⟨outcome,rfl⟩ | rfl
      · exact before (.inr rfl)
      · exact before (.inr rfl)
  | resets entry stage diff restored here sent =>
      refine accounted.reruns valid here rfl rfl (by simp) ?_
      intro _
      have before := accounted.rolled _ here
      rcases sends_reset sent with ⟨outcome,rfl⟩ | rfl
      · simpa [Uncommitted] using before (.inr rfl)
      · simpa [Uncommitted] using before (.inr rfl)
  | notices entry transit diff restored here =>
      have standing := (accounted.valid.proper _ here).standing
      have before := accounted.rolled _ here
      refine accounted.reruns valid here rfl rfl (fun _ _ => ⟨rfl,rfl⟩) ?_
      rintro (state | winds)
      · dsimp only at state
        split at state
        · rename_i closed
          rw [state] at closed
          simp at closed
        · rename_i open_
          rw [not_or] at open_
          exact standing.uncommitted open_.1 open_.2 (fun rolling => before (.inl rolling))
      · match transit,winds with
        | some .rollingBack,_ => exact before (.inr rfl)
  | rollbackArrives entry late diff restored here =>
      have before := accounted.rolled _ here
      refine accounted.reruns valid here rfl rfl (by simp) ?_
      simpa [Uncommitted,unwinds] using before
  | lateArrives entry reset diff restored here =>
      have before := accounted.rolled _ here (.inr rfl)
      exact accounted.reruns valid here rfl rfl (fun _ _ => ⟨rfl,rfl⟩) (fun _ => before)
  | rollbackOver entry reset late diff restored here =>
      have standing := (accounted.valid.proper _ here).standing
      have before := accounted.rolled _ here
      refine accounted.finishes valid rfl rfl rfl rfl ?_ ?_
      · intro ended
        have served : pending entry.id s.lock = [] := by simpa [waitsOut,here] using orderly
        exact standing.abandoned served (mt lostOutcome_succeeded.mpr ended) (fun state => before (.inl state))
      · intro ended _
        exact standing.retired (lostOutcome_succeeded.mp ended)
  | collects entry outcome diff restored here =>
      refine accounted.finishes valid rfl rfl rfl rfl ?_ ?_
      · intro ended
        exact accounted.rolled _ here (.inr (by simpa [unwinds] using ended))
      · intro ended asks
        exact ((accounted.valid.proper _ here).1 ended).committed asks
  | strayArrives some => exact accounted.idles valid rfl rfl (by simp) rfl
  | lands id models rest held => exact accounted.lands held
  | unwritten id models rest held => exact accounted.unwritten held
  | answers ok owner rest recovery held ended same => exact accounted.answers valid held rfl rfl rfl rfl
  | reroutes owner rest recovery held ended => exact accounted.answers valid held rfl rfl rfl rfl
  | looks absent => exact accounted.idles valid rfl rfl (fun _ => rfl) rfl
  | overtaken index routed => exact accounted.idles valid rfl rfl (fun _ => rfl) rfl
  | looked index models found absent => exact accounted.idles valid rfl rfl (fun _ => rfl) rfl

theorem runs_accounted {cell : Json} {seq : Int} {actions : List Action}
    (orderly : Meets (next apps) (fun s action => waitsOut s action = true) (start cell seq) actions)
    (ran : execute (next apps) (start cell seq) actions = some s) : Accounted s := by
  apply meets_invariant _ (start_accounted cell seq) orderly ran
  intro s action t accounted orderly taken
  exact moves_accounted (next_moves taken) orderly accounted

-- What the store holds after `writes`.
def stored (cell : Json) (writes : List Write) : Json := writes.foldl (fun _ write => write.after) cell

-- Every version was written over the one before it.
structure Recorded (cell : Json) (s : Coordinator) : Prop where
  current : s.cell = stored cell s.writes
  follows : ∀ earlier write later, s.writes = earlier ++ write :: later → write.before = stored cell earlier

theorem moves_recorded {cell : Json} {action : Action} (moves : Moves apps s action t)
    (recorded : Recorded cell s) : Recorded cell t := by
  cases moves with
  | lands id models rest held =>
      refine ⟨by simp [stored],?_⟩
      intro earlier write later split_
      rcases List.eq_nil_or_concat later with rfl | ⟨before,last,rfl⟩
      · obtain ⟨rfl,last⟩ := List.append_inj' split_ rfl
        cases last
        exact recorded.current
      · rw [List.concat_eq_append,← List.cons_append,← List.append_assoc] at split_
        exact recorded.follows earlier write before (List.append_inj' split_ rfl).1
  | submits | drops | grants | refuses | recovers | recoveryArrives | recovered | starts | works | raises
  | switches | commits | turned | unwinds | resets | notices | rollbackArrives | lateArrives | rollbackOver
  | collects | strayArrives | unwritten | answers | reroutes | looks | overtaken | looked =>
      exact ⟨recorded.current,recorded.follows⟩

theorem runs_recorded {cell : Json} {seq : Int} {actions : List Action}
    (ran : execute (next apps) (start cell seq) actions = some s) : Recorded cell s := by
  have kept : ∀ s action t, Recorded cell s → next apps s action = some t → Recorded cell t :=
    fun _ _ _ recorded taken => moves_recorded (next_moves taken) recorded
  exact execute_invariant kept ⟨rfl,by simp [start]⟩ ran

theorem written_once {id : String} {writes : List Write} {write : Write} (once : written id writes = [write]) :
    ∃ earlier later, writes = earlier ++ write :: later ∧ write.request = id ∧
      ∀ other ∈ earlier ++ later, other.request ≠ id := by
  obtain ⟨earlier,later,rfl,before,own,after⟩ := List.filter_eq_cons_iff.mp once
  refine ⟨earlier,later,rfl,by simpa using own,?_⟩
  intro other present
  rcases List.mem_append.mp present with first | second
  · simpa using before other first
  · simpa using List.filter_eq_nil_iff.mp after other second

theorem not_written {id : String} {writes : List Write} (none_ : written id writes = []) :
    ∀ write ∈ writes, write.request ≠ id := by
  intro write present
  simpa using List.filter_eq_nil_iff.mp none_ write present

-- In every state of a run whose commits are waited out, an ended request without
-- success has no version in the store's history, and one with it whose diff commits
-- has one: the diff's models under the next number, over the version it found.
theorem outcome_matches_version {cell : Json} {seq : Int} {actions : List Action}
    (orderly : Meets (next apps) (fun s action => waitsOut s action = true) (start cell seq) actions)
    (ran : execute (next apps) (start cell seq) actions = some s) {done : Done} (present : done ∈ s.outcomes) :
    (done.outcome = .failed ∨ done.outcome = .cancelled → ∀ write ∈ s.writes, write.request ≠ done.entry.id) ∧
    (done.outcome = .succeeded → ∀ diff, done.diff = some diff → diff.commits = true →
      ∃ earlier write later, s.writes = earlier ++ write :: later ∧ write.request = done.entry.id ∧
        (∀ other ∈ earlier ++ later, other.request ≠ done.entry.id) ∧ diff.models = some write.models ∧
        readVersions write.after =
          (some ⟨((readVersions (stored cell earlier)).1.map Version.number).getD 0 + 1,write.models⟩,
            (readVersions (stored cell earlier)).1)) := by
  have accounted := runs_accounted orderly ran
  constructor
  · intro ended
    have unsuccessful : done.outcome ≠ .succeeded := by
      rcases ended with ended | ended <;> simp [ended]
    exact not_written (accounted.failed done present unsuccessful).2
  · intro ended diff given asks
    have committed := accounted.succeeded done present ended (by simp [commits,given,asks])
    obtain ⟨_,write,once,⟨found,same,_,models⟩,after⟩ := committed
    rw [given] at same
    cases same
    obtain ⟨earlier,later,split_,own,others⟩ := written_once once
    have before := (runs_recorded ran).follows earlier write later split_
    obtain ⟨new,reads⟩ := commitVersion_reads write.before write.models
    refine ⟨earlier,write,later,split_,own,others,models,?_⟩
    rw [after,reads,new,before]

-- The worker is lost while its commit waits for the store. The rollback's own read
-- comes behind the commit, so the request has succeeded.
theorem outcome_matches_version_lost :
    ∃ s done, execute (next fun _ => []) (start .null 0)
        [.submit "a" .blueGreen,.recovered,.start,
          .diffed (some ⟨[],[],["one"],[],[],some [.obj [("name",.str "one")]],true⟩),
          .poll true,.poll true,.proceed,.arrive,.confirm true,
          .arrive,.dies,.notice,.rollbackArrives,.serve true,.serve true,.rollbackOver] = some s ∧
      s.outcomes = [done] ∧ done.outcome = .succeeded ∧
      ∃ earlier write later, s.writes = earlier ++ write :: later ∧ write.request = "a" ∧
        (∀ other ∈ earlier ++ later, other.request ≠ "a") ∧ some [.obj [("name",.str "one")]] = some write.models ∧
        readVersions write.after =
          (some ⟨((readVersions (stored .null earlier)).1.map Version.number).getD 0 + 1,write.models⟩,
            (readVersions (stored .null earlier)).1) := by
  obtain ⟨s,done,ran,all,ended,id,given⟩ : ∃ s done, execute (next fun _ => []) (start .null 0)
      [.submit "a" .blueGreen,.recovered,.start,
        .diffed (some ⟨[],[],["one"],[],[],some [.obj [("name",.str "one")]],true⟩),
        .poll true,.poll true,.proceed,.arrive,.confirm true,
        .arrive,.dies,.notice,.rollbackArrives,.serve true,.serve true,.rollbackOver] = some s ∧
      s.outcomes = [done] ∧ done.outcome = .succeeded ∧ done.entry.id = "a" ∧
      done.diff = some ⟨[],[],["one"],[],[],some [.obj [("name",.str "one")]],true⟩ := ⟨_,_,rfl,rfl,rfl,rfl,rfl⟩
  have present : done ∈ s.outcomes := all ▸ List.mem_singleton_self _
  refine ⟨s,done,ran,all,ended,?_⟩
  rw [← id]
  exact (outcome_matches_version (by decide) ran present).2 ended _ given rfl

-- The rollback is lost as well, before the commit it should have waited out returns
-- from the store. The request is reported as failed, and its version is written.
theorem failed_request_commits :
    ∃ s, execute (next fun _ => []) (start .null 0)
        [.submit "a" .blueGreen,.recovered,.start,
          .diffed (some ⟨[],[],["one"],[],[],some [.obj [("name",.str "one")]],true⟩),
          .poll true,.poll true,.proceed,.arrive,.confirm true,
          .arrive,.dies,.notice,.rollbackOver,.serve true] = some s ∧
      (∃ done ∈ s.outcomes, done.entry.id = "a" ∧ done.outcome = .failed) ∧
      ∃ write ∈ s.writes, write.request = "a" := by
  exact ⟨_,rfl,⟨_,List.mem_singleton_self _,rfl,rfl⟩,_,List.mem_singleton_self _,rfl⟩

end

end Modelship.Deploy

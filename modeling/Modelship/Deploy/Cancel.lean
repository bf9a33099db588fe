import Modelship.Deploy.Requests

namespace Modelship.Deploy
open Foundation

-- From here a worker reports success without asking for a cancel again, and no commit
-- of its request is refused for one.
def unheeding : Stage → Bool
  | .working (.applying diff []) => !diff.commits
  | .working .retiring | .working (.returned .succeeded) => true
  | _ => false

-- A cancel that the coordinator would grant reaches the request before its worker has
-- asked for the last time.
def inTime (s : Coordinator) : Action → Bool
  | .cancel id =>
    match s.running with
    | some running =>
      running.entry.id != id || running.entry.state = .committing || running.entry.state = .retiring ||
        !unheeding running.stage
    | none => true
  | _ => true

section
variable {apps : List Json → List (String × String)} {s t : Coordinator}

structure Honoured (s : Coordinator) : Prop where
  valid : Valid s
  begun : ∀ id ∈ s.granted, id ∈ s.begun
  idle : ∀ id ∈ s.granted, pending id s.lock = [] ∧ written id s.writes = []
  doomed : ∀ running, s.running = some running → running.entry.id ∈ s.granted →
    running.entry.cancelled = true ∧ unheeding running.stage = false
  ended : ∀ done ∈ s.outcomes, done.entry.id ∈ s.granted → done.outcome ≠ .succeeded

theorem start_honoured (cell : Json) (seq : Int) : Honoured (start cell seq) :=
  ⟨start_valid cell seq,by simp [start],by simp [start],by simp [start],by simp [start]⟩

theorem works_heeding {entry : Entry} {diff later : Option Diff} {action : Action} {point : WorkerPoint}
    {stage : Stage} {waiting : List (List Json)} {landed : List Write}
    (works : Works entry diff action point later stage)
    (proper : Proper entry diff waiting landed (.working point)) (cancelled : entry.cancelled = true)
    (heeding : unheeding (.working point) = false) : unheeding stage = false := by
  cases works with
  | unwound | stopped | switches | asserts | confirmed | unconfirmed | died => rfl
  | unread open_ => rw [open_] at cancelled; cases cancelled
  | diffed found open_ => rw [open_] at cancelled; cases cancelled
  | polled ended found phase rest left open_ => rw [open_] at cancelled; cases cancelled
  | applied found bare => simp [unheeding,bare] at heeding
  | retired => cases heeding
  | rolled outcome =>
      cases outcome with
      | succeeded => exact absurd rfl proper.1
      | failed => rfl
      | cancelled => rfl

theorem raises_heeding {point after : WorkerPoint} (raised : raises point = some after) :
    unheeding (.working after) = false := by
  cases point <;> cases raised <;> rfl

theorem answer_heeding {running : Running} {stage : Stage} {call : Transit} (accepted : Bool)
    (sent : stage.transit = some call) : unheeding (answer running accepted stage) = false := by
  cases stage with
  | working point =>
      cases point with
      | switching models => cases accepted <;> rfl
      | committing models =>
          simp only [answer]
          split
          · rfl
          · split
            · rfl
            · rfl
      | unwinding | resetting => rfl
      | diffing | applying | confirming | landing | retiring | awaiting | restoring | returned => cases sent
  | lost transit => rfl
  | rolling reset late => cases sent

theorem restored_heeding (ok : Bool) (owner : Owner) {running : Running}
    (heeding : unheeding running.stage = false) : unheeding (restored ok owner running).stage = false := by
  simp only [restored]
  split
  · split
    · cases ok <;> rfl
    · exact heeding
  · split
    · rfl
    · exact heeding
  · exact heeding

theorem Honoured.frame (honoured : Honoured s) (valid : Valid t) (granted : t.granted = s.granted)
    (outcomes : t.outcomes = s.outcomes) (begun : t.begun = s.begun)
    (idle : ∀ id ∈ s.granted, pending id t.lock = pending id s.lock ∧ written id t.writes = written id s.writes)
    (doomed : ∀ after, t.running = some after → after.entry.id ∈ s.granted →
      after.entry.cancelled = true ∧ unheeding after.stage = false) : Honoured t := by
  refine ⟨valid,?_,?_,?_,?_⟩
  · rw [granted,begun]
    exact honoured.begun
  · intro id given
    rw [granted] at given
    rw [(idle id given).1,(idle id given).2]
    exact honoured.idle id given
  · intro after now given
    exact doomed after now (granted ▸ given)
  · rw [granted,outcomes]
    exact honoured.ended

theorem Honoured.idles (honoured : Honoured s) (valid : Valid t) (running : t.running = s.running)
    (granted : t.granted = s.granted) (outcomes : t.outcomes = s.outcomes)
    (lock : ∀ id, pending id t.lock = pending id s.lock) (writes : t.writes = s.writes) : Honoured t := by
  refine honoured.frame valid granted outcomes (by simp [Coordinator.begun,running,outcomes]) ?_ ?_
  · intro id _
    exact ⟨lock id,by rw [writes]⟩
  · rw [running]
    exact honoured.doomed

theorem Honoured.reruns (honoured : Honoured s) (valid : Valid t) {running after : Running}
    (here : s.running = some running) (now : t.running = some after) (same : after.entry.id = running.entry.id)
    (granted : t.granted = s.granted) (outcomes : t.outcomes = s.outcomes)
    (idle : ∀ id ∈ s.granted, pending id t.lock = pending id s.lock ∧ written id t.writes = written id s.writes)
    (doomed : running.entry.cancelled = true → unheeding running.stage = false →
      after.entry.cancelled = true ∧ unheeding after.stage = false) : Honoured t := by
  refine honoured.frame valid granted outcomes (by simp [Coordinator.begun,here,now,outcomes,same]) idle ?_
  intro present there given
  rw [now] at there
  cases there
  obtain ⟨cancelled,heeding⟩ := honoured.doomed running here (same ▸ given)
  exact doomed cancelled heeding

theorem Honoured.serves (honoured : Honoured s) (valid : Valid t) (heard : Running → Running)
    (now : t.running = s.running.map heard) (same : ∀ running, (heard running).entry.id = running.entry.id)
    (granted : t.granted = s.granted) (outcomes : t.outcomes = s.outcomes)
    (idle : ∀ id ∈ s.granted, pending id t.lock = pending id s.lock ∧ written id t.writes = written id s.writes)
    (doomed : ∀ running, s.running = some running → running.entry.id ∈ s.granted →
      (heard running).entry.cancelled = true ∧ unheeding (heard running).stage = false) : Honoured t := by
  have begun : t.begun = s.begun := by
    cases here : s.running with
    | none => simp [Coordinator.begun,here,now,outcomes]
    | some running => simp [Coordinator.begun,here,now,outcomes,same]
  refine honoured.frame valid granted outcomes begun idle ?_
  intro after there given
  rw [now] at there
  obtain ⟨running,here,rfl⟩ := Option.map_eq_some_iff.mp there
  exact doomed running here (same running ▸ given)

theorem Honoured.finishes (honoured : Honoured s) (valid : Valid t) {running : Running} {diff : Option Diff}
    {outcome : Outcome} (here : s.running = some running) (gone : t.running = none)
    (granted : t.granted = s.granted) (outcomes : t.outcomes = s.outcomes ++ [⟨running.entry,diff,outcome⟩])
    (lock : t.lock = s.lock) (writes : t.writes = s.writes)
    (ended : running.entry.id ∈ s.granted → outcome ≠ .succeeded) : Honoured t := by
  refine ⟨valid,?_,?_,?_,?_⟩
  · intro id given
    rw [granted] at given
    rw [mem_begun,outcomes,List.map_append,List.mem_append]
    rcases mem_begun.mp (honoured.begun id given) with ⟨present,there,rfl⟩ | earlier
    · rw [here] at there
      cases there
      exact .inr (.inr (by simp))
    · exact .inr (.inl earlier)
  · rw [granted,lock,writes]
    exact honoured.idle
  · intro after now
    rw [gone] at now
    cases now
  · intro done present given
    rw [granted] at given
    rw [outcomes,List.mem_append] at present
    rcases present with earlier | last
    · exact honoured.ended done earlier given
    · cases List.mem_singleton.mp last
      exact ended given

theorem Honoured.drops (honoured : Honoured s) {id : String} {entry : Entry}
    (found : s.queue.find? (·.id == id) = some entry) : Honoured {s with
      queue := s.queue.filter (·.id != id)
      outcomes := s.outcomes ++ [⟨entry,none,.cancelled⟩]
      granted := s.granted ++ [id]} := by
  have same : entry.id = id := by simpa using List.find?_some found
  have fresh := honoured.valid.apart entry (List.mem_of_find?_eq_some found)
  rw [same] at fresh
  refine ⟨honoured.valid.drops found,?_,?_,?_,?_⟩
  · intro other given
    rw [mem_begun,List.map_append,List.mem_append]
    rcases List.mem_append.mp given with earlier | new
    · rcases mem_begun.mp (honoured.begun other earlier) with here | done
      · exact .inl here
      · exact .inr (.inl done)
    · cases List.mem_singleton.mp new
      exact .inr (.inr (by simp [same]))
  · intro other given
    rcases List.mem_append.mp given with earlier | new
    · exact honoured.idle other earlier
    · cases List.mem_singleton.mp new
      exact honoured.valid.unbegun id fresh
  · intro running here given
    rcases List.mem_append.mp given with earlier | new
    · exact honoured.doomed running here earlier
    · exact absurd (List.mem_singleton.mp new ▸ running_begun here) fresh
  · intro done present given
    rcases List.mem_append.mp present with earlier | last
    · rcases List.mem_append.mp given with before | new
      · exact honoured.ended done earlier before
      · have begun : done.entry.id ∈ s.begun := mem_begun.mpr (.inr (List.mem_map_of_mem earlier))
        exact absurd (List.mem_singleton.mp new ▸ begun) fresh
    · cases List.mem_singleton.mp last
      simp

theorem Honoured.grants (honoured : Honoured s) {entry : Entry} {stage : Stage} {diff : Option Diff}
    {restored : Bool} (here : s.running = some ⟨entry,stage,diff,restored⟩)
    (idle : pending entry.id s.lock = [] ∧ written entry.id s.writes = []) (heeding : unheeding stage = false)
    (valid : Valid {s with
      running := some ⟨{entry with cancelled := true},stage,diff,restored⟩
      granted := s.granted ++ [entry.id]}) : Honoured {s with
        running := some ⟨{entry with cancelled := true},stage,diff,restored⟩
        granted := s.granted ++ [entry.id]} := by
  have begun : Coordinator.begun {s with
      running := some ⟨{entry with cancelled := true},stage,diff,restored⟩
      granted := s.granted ++ [entry.id]} = s.begun := by
    simp [Coordinator.begun,here]
  refine ⟨valid,?_,?_,?_,?_⟩
  · intro id given
    rw [begun]
    rcases List.mem_append.mp given with earlier | new
    · exact honoured.begun id earlier
    · cases List.mem_singleton.mp new
      exact running_begun here
  · intro id given
    rcases List.mem_append.mp given with earlier | new
    · exact honoured.idle id earlier
    · cases List.mem_singleton.mp new
      exact idle
  · intro running now given
    cases now
    exact ⟨rfl,heeding⟩
  · intro done present given
    rcases List.mem_append.mp given with earlier | new
    · exact honoured.ended done present earlier
    · have single := honoured.valid.single _ here
      exact absurd (List.mem_singleton.mp new ▸ List.mem_map_of_mem present) single

theorem Honoured.answers (honoured : Honoured s) (valid : Valid t) {ok : Bool} {owner : Owner} {rest : List Task}
    (held : s.lock = .reset owner :: rest) (lock : t.lock = rest)
    (running : t.running = s.running.map (restored ok owner)) (granted : t.granted = s.granted)
    (outcomes : t.outcomes = s.outcomes) (writes : t.writes = s.writes) : Honoured t := by
  refine honoured.serves valid (restored ok owner) running (fun _ => rfl) granted outcomes ?_ ?_
  · intro id _
    exact ⟨by rw [lock,held,pending_reset],by rw [writes]⟩
  · intro running here given
    obtain ⟨cancelled,heeding⟩ := honoured.doomed running here given
    exact ⟨cancelled,restored_heeding ok owner heeding⟩

-- A request whose cancel was granted has no commit on the lock: what is served there
-- is another's.
theorem Honoured.others (honoured : Honoured s) {id : String} {models : List Json} {rest : List Task}
    (held : s.lock = .commit id models :: rest) : ∀ other ∈ s.granted, other ≠ id := by
  rintro other given rfl
  have idle := (honoured.idle other given).1
  simp [held] at idle

theorem moves_honoured {action : Action} (moves : Moves apps s action t) (prompt : inTime s action = true)
    (honoured : Honoured s) : Honoured t := by
  have valid := moves_valid moves honoured.valid
  cases moves with
  | submits id strategy fresh => exact honoured.frame valid rfl rfl rfl (fun _ _ => ⟨rfl,rfl⟩) honoured.doomed
  | drops id entry found => exact honoured.drops found
  | grants entry stage diff restored here committing retiring rolling =>
      have standing := (honoured.valid.proper _ here).standing
      have heeding : unheeding stage = false := by
        simpa [inTime,here,committing,retiring] using prompt
      exact honoured.grants here (standing.granted committing retiring rolling) heeding valid
  | refuses id => exact honoured
  | recovers waiting => exact honoured.idles valid rfl rfl rfl (fun _ => rfl) rfl
  | recoveryArrives sent => exact honoured.idles valid rfl rfl rfl (by simp) rfl
  | recovered strays going => exact honoured.idles valid rfl rfl rfl (fun _ => rfl) rfl
  | starts entry rest idle ended first =>
      have fresh := honoured.valid.apart entry (first ▸ List.mem_cons_self)
      refine ⟨valid,?_,honoured.idle,?_,honoured.ended⟩
      · intro id given
        rcases mem_begun.mp (honoured.begun id given) with ⟨running,here,_⟩ | done
        · rw [idle] at here
          cases here
        · exact mem_begun.mpr (.inr done)
      · intro running here given
        cases here
        exact absurd (honoured.begun _ given) fresh
  | works entry point diff restored action later stage here works =>
      refine honoured.reruns valid here rfl rfl rfl rfl (fun _ _ => ⟨rfl,rfl⟩) ?_
      intro cancelled heeding
      exact ⟨cancelled,works_heeding works (honoured.valid.proper _ here) cancelled heeding⟩
  | raises entry point diff restored after here raised =>
      refine honoured.reruns valid here rfl rfl rfl rfl (fun _ _ => ⟨rfl,rfl⟩) ?_
      intro cancelled _
      exact ⟨cancelled,raises_heeding raised⟩
  | switches entry stage diff restored models here sent open_ =>
      refine honoured.reruns valid here rfl rfl rfl rfl (fun _ _ => ⟨rfl,rfl⟩) ?_
      intro cancelled _
      exact ⟨cancelled,answer_heeding true sent⟩
  | commits entry stage diff restored models here sent open_ kept =>
      refine honoured.reruns valid here rfl rfl rfl rfl ?_ ?_
      · intro id given
        have differs : entry.id ≠ id := by
          rintro rfl
          have cancelled := (honoured.doomed _ here given).1
          rw [kept] at cancelled
          cases cancelled
        simp [differs]
      · intro cancelled _
        rw [kept] at cancelled
        cases cancelled
  | turned entry stage diff restored models here sent =>
      refine honoured.reruns valid here rfl rfl rfl rfl (fun _ _ => ⟨rfl,rfl⟩) ?_
      intro cancelled _
      rcases sent with sent | sent
      · exact ⟨cancelled,answer_heeding false sent⟩
      · exact ⟨cancelled,answer_heeding false sent⟩
  | unwinds entry stage diff restored here sent =>
      refine honoured.reruns valid here rfl rfl rfl rfl (fun _ _ => ⟨rfl,rfl⟩) ?_
      intro cancelled _
      exact ⟨cancelled,answer_heeding true sent⟩
  | resets entry stage diff restored here sent =>
      refine honoured.reruns valid here rfl rfl rfl rfl (by simp) ?_
      intro cancelled _
      exact ⟨cancelled,answer_heeding true sent⟩
  | notices entry transit diff restored here =>
      obtain ⟨state,late,now,_⟩ := (honoured.valid.proper _ here).notices (s := s)
      refine honoured.reruns valid here now rfl rfl rfl (fun _ _ => ⟨rfl,rfl⟩) ?_
      intro cancelled _
      exact ⟨cancelled,rfl⟩
  | rollbackArrives entry late diff restored here =>
      refine honoured.reruns valid here rfl rfl rfl rfl (by simp) ?_
      intro cancelled _
      exact ⟨cancelled,rfl⟩
  | lateArrives entry reset diff restored here =>
      refine honoured.reruns valid here rfl rfl rfl rfl (fun _ _ => ⟨rfl,rfl⟩) ?_
      intro cancelled _
      exact ⟨cancelled,rfl⟩
  | rollbackOver entry reset late diff restored here =>
      refine honoured.finishes valid here rfl rfl rfl rfl rfl ?_
      intro given
      obtain ⟨waiting,landed⟩ := honoured.idle _ given
      have standing := (honoured.valid.proper _ here).standing
      simp only [waiting,landed] at standing
      cases standing with
      | idle open_ =>
          simp only [lostOutcome,open_,if_false]
          split <;> simp
  | collects entry outcome diff restored here =>
      refine honoured.finishes valid here rfl rfl rfl rfl rfl ?_
      rintro given rfl
      cases (honoured.doomed _ here given).2
  | strayArrives some => exact honoured.idles valid rfl rfl rfl (by simp) rfl
  | lands id models rest held =>
      have others := honoured.others held
      refine honoured.serves valid (landed true id) rfl (fun running => (landed_id true id running).1) rfl rfl ?_ ?_
      · intro other given
        simp [held,(others other given).symm]
      · intro running here given
        rw [landed_other (others _ given)]
        exact honoured.doomed running here given
  | unwritten id models rest held =>
      have others := honoured.others held
      refine honoured.serves valid (landed false id) rfl (fun running => (landed_id false id running).1) rfl rfl ?_ ?_
      · intro other given
        simp [held,(others other given).symm]
      · intro running here given
        rw [landed_other (others _ given)]
        exact honoured.doomed running here given
  | answers ok owner rest recovery held ended same => exact honoured.answers valid held rfl rfl rfl rfl rfl
  | reroutes owner rest recovery held ended => exact honoured.answers valid held rfl rfl rfl rfl rfl
  | looks absent => exact honoured.idles valid rfl rfl rfl (fun _ => rfl) rfl
  | overtaken index routed => exact honoured.idles valid rfl rfl rfl (fun _ => rfl) rfl
  | looked index models found absent => exact honoured.idles valid rfl rfl rfl (fun _ => rfl) rfl

theorem runs_honoured {cell : Json} {seq : Int} {actions : List Action}
    (prompt : Meets (next apps) (fun s action => inTime s action = true) (start cell seq) actions)
    (ran : execute (next apps) (start cell seq) actions = some s) : Honoured s := by
  apply meets_invariant _ (start_honoured cell seq) prompt ran
  intro s action t honoured prompt taken
  exact moves_honoured (next_moves taken) prompt honoured

-- In every state of a run whose cancels come in time, a request whose cancel was
-- granted has not succeeded and no version is written for it.
theorem granted_cancel_honoured {cell : Json} {seq : Int} {actions : List Action}
    (prompt : Meets (next apps) (fun s action => inTime s action = true) (start cell seq) actions)
    (ran : execute (next apps) (start cell seq) actions = some s) {id : String} (granted : id ∈ s.granted) :
    (∀ done ∈ s.outcomes, done.entry.id = id → done.outcome ≠ .succeeded) ∧
      ∀ write ∈ s.writes, write.request ≠ id := by
  have honoured := runs_honoured prompt ran
  constructor
  · rintro done present rfl
    exact honoured.ended done present granted
  · rintro write present rfl
    have none_ := (honoured.idle _ granted).2
    have kept : write ∈ written write.request s.writes := by simp [written,present]
    rw [none_] at kept
    cases kept

-- A request that commits is cancelled while its switch is on the way.
theorem granted_cancel_honoured_switching :
    ∃ s, execute (next fun _ => []) (start .null 0)
        [.submit "a" .blueGreen,.recovered,.start,
          .diffed (some ⟨[],[],["one"],[],[],some [.obj [("name",.str "one")]],true⟩),
          .poll true,.poll true,.proceed,.cancel "a",.arrive,
          .confirm true,.arrive,.arrive,.arrive,.serve true,.rolled,.collect] = some s ∧
      s.outcomes.map (·.outcome) = [.cancelled] ∧ ∀ write ∈ s.writes, write.request ≠ "a" := by
  obtain ⟨s,ran,granted,ended⟩ : ∃ s, execute (next fun _ => []) (start .null 0)
      [.submit "a" .blueGreen,.recovered,.start,
        .diffed (some ⟨[],[],["one"],[],[],some [.obj [("name",.str "one")]],true⟩),
        .poll true,.poll true,.proceed,.cancel "a",.arrive,
        .confirm true,.arrive,.arrive,.arrive,.serve true,.rolled,.collect] = some s ∧
      "a" ∈ s.granted ∧ s.outcomes.map (·.outcome) = [.cancelled] := ⟨_,rfl,by decide,rfl⟩
  exact ⟨s,ran,ended,(granted_cancel_honoured (by decide) ran granted).2⟩

-- A diff that commits nothing asks for a cancel for the last time while its leftovers
-- go. One granted right after that is not heard of again.
theorem granted_cancel_unheard :
    ∃ s, execute (next fun _ => []) (start .null 0)
        [.submit "a" .blueGreen,.recovered,.start,.diffed (some ⟨[],[],[],[],[],none,false⟩),.poll true,
          .cancel "a",.proceed,.retire,.collect] = some s ∧
      "a" ∈ s.granted ∧ ∃ done ∈ s.outcomes, done.entry.id = "a" ∧ done.outcome = .succeeded := by
  refine ⟨_,rfl,by decide,_,List.mem_singleton_self _,rfl,rfl⟩

end

end Modelship.Deploy

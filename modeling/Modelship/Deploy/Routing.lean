import Modelship.Deploy.Requests

namespace Modelship.Deploy
open Foundation

def Task.resets : Task → Bool
  | .reset _ => true
  | .commit _ _ => false

-- A request that has switched its gateway and does not succeed ends only when the
-- routing was reset behind it or its version was written, and a switch arrives when no
-- `reset_routing` of an earlier rollback is outstanding.
def restoresRouting (s : Coordinator) : Action → Bool
  | .arrive =>
    match s.running with
    | some ⟨_,.working (.switching _),_,_⟩ => s.strays = 0 && !s.lock.any Task.resets
    | _ => true
  | .collect =>
    match s.running with
    | some ⟨entry,.working (.returned outcome),_,restored⟩ =>
      outcome = .succeeded || !entry.switched || restored || !(written entry.id s.writes).isEmpty
    | _ => true
  | .rollbackOver =>
    match s.running with
    | some ⟨entry,_,_,restored⟩ =>
      lostOutcome entry = .succeeded || !entry.switched || restored || !(written entry.id s.writes).isEmpty
    | none => true
  | _ => true

-- The models a worker has switched to and not asked to commit, or whose commit is on the way.
def held : Stage → Option (List Json)
  | .working (.confirming models) | .working (.committing models) | .lost (some (.commit models)) => some models
  | _ => none

def rolls : Stage → Bool
  | .working (.unwinding _) | .working (.resetting _) | .working (.awaiting _) | .working (.restoring _) => true
  | .working (.returned outcome) => outcome ≠ .succeeded
  | .lost none | .lost (some .rollingBack) | .lost (some .reset) => true
  | .rolling _ _ => true
  | _ => false

section
variable (apps : List Json → List (String × String))

def Shows (s : Coordinator) (models : Option (List Json)) : Prop :=
  ∃ seq, s.routing = some (routingOf apps seq models)

-- The routing, where the gateway has one, is the committed version's.
def Follows (s : Coordinator) : Prop := s.routing ≠ none → Shows apps s (committedModels s.cell)

def OnlyResets (lock : List Task) : Prop := ∀ id, pending id lock = []

def Quiet (s : Coordinator) : Prop := Follows apps s ∧ OnlyResets s.lock

-- How far the running request has taken the routing from the committed version, and
-- what is still to bring them together.
inductive Course (s : Coordinator) (entry : Entry) (restored : Bool) (stage : Stage) : Prop where
  | before : Quiet apps s → entry.switched = false → held stage = none → Course s entry restored stage
  | holding (models) : held stage = some models → entry.switched = true → Shows apps s (some models) →
      s.lock = [] → s.strays = 0 → restored = false → written entry.id s.writes = [] →
      Course s entry restored stage
  | waiting (models rest) : s.lock = .commit entry.id models :: rest → OnlyResets rest → entry.switched = true →
      Shows apps s (some models) → restored = false → Course s entry restored stage
  | unwinding : OnlyResets s.lock → entry.switched = true → s.routing ≠ none →
      (restored = true → Follows apps s) → rolls stage = true → written entry.id s.writes = [] →
      Course s entry restored stage
  | landed : Quiet apps s → written entry.id s.writes ≠ [] → Course s entry restored stage

structure Routed (s : Coordinator) : Prop where
  valid : Valid s
  recovered : s.running ≠ none → s.recovery = .over
  shaped : ∀ routing, s.routing = some routing → routing = routingOf apps routing.seq routing.models
  lookups : s.routing = none → ∀ models ∈ s.lookups, models = committedModels s.cell
  quiet : s.running = none → Quiet apps s
  course : ∀ running, s.running = some running → Course apps s running.entry running.restored running.stage

end

section
variable {apps : List Json → List (String × String)} {s t : Coordinator}

theorem Shows.routed {models : Option (List Json)} (shows_ : Shows apps s models) : s.routing ≠ none := by
  obtain ⟨seq,routing⟩ := shows_
  simp [routing]

theorem OnlyResets.append {lock : List Task} (only : OnlyResets lock) (owner : Owner) :
    OnlyResets (lock ++ [.reset owner]) := by
  intro id
  simp [only id]

theorem OnlyResets.tail {owner : Owner} {rest : List Task} (only : OnlyResets (.reset owner :: rest)) :
    OnlyResets rest := by
  intro id
  simpa using only id

theorem OnlyResets.head {id : String} {models : List Json} {rest : List Task}
    (only : OnlyResets (.commit id models :: rest)) : False := by
  have none_ := only id
  simp at none_

theorem OnlyResets.empty {lock : List Task} (only : OnlyResets lock) (idle : lock.any Task.resets = false) :
    lock = [] := by
  cases lock with
  | nil => rfl
  | cons task rest =>
      cases task with
      | commit id models => exact only.head.elim
      | reset owner => simp [Task.resets] at idle

theorem start_routed (cell : Json) (seq : Int) : Routed apps (start cell seq) := by
  refine ⟨start_valid cell seq,by simp [start],by simp [start],by simp [start],?_,by simp [start]⟩
  intro _
  exact ⟨fun routed => absurd rfl routed,fun _ => rfl⟩

theorem Quiet.frame (quiet : Quiet apps s) (routing : t.routing = s.routing) (cell : t.cell = s.cell)
    (lock : t.lock = s.lock ∨ ∃ owner, t.lock = s.lock ++ [.reset owner]) : Quiet apps t := by
  obtain ⟨follows,only⟩ := quiet
  refine ⟨?_,?_⟩
  · unfold Follows Shows at follows ⊢
    rw [routing,cell]
    exact follows
  · rcases lock with same | ⟨owner,grown⟩
    · rw [same]
      exact only
    · rw [grown]
      exact only.append owner

section
variable {entry after : Entry} {restored : Bool} {stage later : Stage} {diff : Option Diff}

-- The request holds no switched models: its stage may move on while resets queue up.
theorem Course.turns (course : Course apps s entry restored stage) (unheld : held stage = none)
    (routing : t.routing = s.routing) (cell : t.cell = s.cell) (writes : t.writes = s.writes)
    (lock : t.lock = s.lock ∨ ∃ owner, t.lock = s.lock ++ [.reset owner]) (id : after.id = entry.id)
    (switched : after.switched = entry.switched) (still : held later = none)
    (rolling : rolls stage = true → rolls later = true) : Course apps t after restored later := by
  cases course with
  | before quiet early _ => exact .before (quiet.frame routing cell lock) (switched ▸ early) still
  | holding models holds => rw [unheld] at holds; cases holds
  | waiting models rest first only changed shows_ fresh =>
      have shown : Shows apps t (some models) := by rw [Shows,routing]; exact shows_
      rcases lock with same | ⟨owner,grown⟩
      · exact .waiting models rest (by rw [same,first,id]) only (switched ▸ changed) shown fresh
      · exact .waiting models (rest ++ [.reset owner]) (by rw [grown,first,id]; rfl) (only.append owner)
          (switched ▸ changed) shown fresh
  | unwinding only changed routed restores winds unwritten =>
      have quiet := fun done => Quiet.frame ⟨restores done,only⟩ routing cell lock
      refine .unwinding ?_ (switched ▸ changed) (routing ▸ routed) (fun done => (quiet done).1) (rolling winds)
        (by rw [writes,id]; exact unwritten)
      rcases lock with same | ⟨owner,grown⟩
      · rw [same]
        exact only
      · rw [grown]
        exact only.append owner
  | landed quiet done => exact .landed (quiet.frame routing cell lock) (by rw [writes,id]; exact done)

theorem held_idle {waiting : List (List Json)} {landed : List Write} {models : List Json}
    (proper : Proper entry diff waiting landed stage) (holds : held stage = some models) :
    waiting = [] ∧ landed = [] := by
  cases stage with
  | working point =>
      cases point with
      | confirming | committing => exact ⟨proper.1.1,proper.1.2.1⟩
      | diffing | applying | switching | landing | retiring | unwinding | resetting | awaiting | restoring
      | returned => cases holds
  | lost transit =>
      cases transit with
      | none => cases holds
      | some call =>
          cases call with
          | commit models => exact ⟨proper.1.1,proper.1.2.1⟩
          | switch | rollingBack | reset => cases holds
  | rolling reset late => cases holds

theorem held_still {models : List Json} (holds : held stage = some models) : rolls stage = false := by
  cases stage with
  | working point => cases point <;> first | rfl | cases holds
  | lost transit =>
      cases transit with
      | none => cases holds
      | some call => cases call <;> first | rfl | cases holds
  | rolling reset late => cases holds

-- A request that holds its switched models has the routing to itself.
theorem Course.holds {models : List Json} (course : Course apps s entry restored stage)
    (proper : Proper entry diff (pending entry.id s.lock) (written entry.id s.writes) stage)
    (holds : held stage = some models) :
    entry.switched = true ∧ Shows apps s (some models) ∧ s.lock = [] ∧ s.strays = 0 ∧ restored = false ∧
      written entry.id s.writes = [] := by
  obtain ⟨idle,unwritten⟩ := held_idle proper holds
  cases course with
  | before quiet early unheld => rw [unheld] at holds; cases holds
  | holding others same changed shows_ free calm fresh none_ =>
      rw [same] at holds
      cases holds
      exact ⟨changed,shows_,free,calm,fresh,none_⟩
  | waiting others rest first => simp [first] at idle
  | unwinding only changed routed restores winds none_ => simp [held_still holds] at winds
  | landed quiet done => exact absurd unwritten done

theorem Course.gives {models : List Json} (course : Course apps s entry restored stage)
    (proper : Proper entry diff (pending entry.id s.lock) (written entry.id s.writes) stage)
    (holds : held stage = some models) (routing : t.routing = s.routing) (writes : t.writes = s.writes)
    (lock : t.lock = s.lock) (id : after.id = entry.id) (switched : after.switched = entry.switched)
    (winds : rolls later = true) : Course apps t after restored later := by
  obtain ⟨changed,shows_,free,calm,fresh,none_⟩ := course.holds proper holds
  refine .unwinding ?_ (switched ▸ changed) ?_ ?_ winds (by rw [writes,id]; exact none_)
  · rw [lock,free]
    exact fun _ => rfl
  · rw [routing]
    exact shows_.routed
  · simp [fresh]

end

theorem Routed.reruns (routed : Routed apps s) (valid : Valid t) {running after : Running}
    (here : s.running = some running) (now : t.running = some after) (recovery : t.recovery = s.recovery)
    (routing : t.routing = s.routing) (cell : t.cell = s.cell) (lookups : t.lookups = s.lookups)
    (course : Course apps t after.entry after.restored after.stage) : Routed apps t := by
  refine ⟨valid,?_,?_,?_,?_,?_⟩
  · intro _
    rw [recovery]
    exact routed.recovered (by simp [here])
  · rw [routing]
    exact routed.shaped
  · rw [routing,lookups,cell]
    exact routed.lookups
  · intro gone
    rw [now] at gone
    cases gone
  · intro present there
    rw [now] at there
    cases there
    exact course

section
variable {entry : Entry} {diff after : Option Diff} {action : Action} {point : WorkerPoint} {stage : Stage}
  {waiting : List (List Json)} {landed : List Write}

theorem works_turns (works : Works entry diff action point after stage)
    (proper : Proper entry diff waiting landed (.working point)) (unheld : held (.working point) = none) :
    held stage = none ∧ (rolls (.working point) = true → rolls stage = true) := by
  cases works with
  | unwound | stopped | asserts => exact ⟨rfl,fun _ => rfl⟩
  | unread | diffed | polled | switches | applied => exact ⟨rfl,fun winds => by cases winds⟩
  | confirmed models => cases unheld
  | unconfirmed models => cases unheld
  | retired => exact ⟨rfl,fun winds => by cases winds⟩
  | rolled outcome =>
      refine ⟨rfl,fun _ => ?_⟩
      simpa [rolls] using proper.1
  | died point going =>
      cases point with
      | confirming | committing => cases unheld
      | returned outcome => exact absurd rfl (going outcome)
      | diffing | applying | landing | retiring => exact ⟨rfl,fun _ => rfl⟩
      | unwinding | resetting | awaiting | restoring => exact ⟨rfl,fun _ => rfl⟩
      | switching models => exact ⟨rfl,fun winds => by cases winds⟩

theorem works_held {models : List Json} (works : Works entry diff action point after stage)
    (holds : held (.working point) = some models) : held stage = some models ∨ rolls stage = true := by
  cases works with
  | unwound | unread | diffed | stopped | polled | switches | asserts | applied | retired | rolled => cases holds
  | confirmed => exact .inl holds
  | unconfirmed => exact .inr rfl
  | died point going =>
      cases point with
      | confirming => exact .inr rfl
      | committing => exact .inl holds
      | returned outcome => exact absurd rfl (going outcome)
      | diffing | applying | switching | landing | retiring | unwinding | resetting | awaiting | restoring =>
          cases holds

theorem raises_rolls {later : WorkerPoint} (raised : raises point = some later) :
    held (.working later) = none ∧ rolls (.working later) = true := by
  cases point <;> cases raised <;> exact ⟨rfl,rfl⟩

end

theorem Routed.works {entry : Entry} {point : WorkerPoint} {diff later : Option Diff} {restored : Bool}
    {action : Action} {stage : Stage} (routed : Routed apps s)
    (here : s.running = some ⟨entry,.working point,diff,restored⟩)
    (works : Works entry diff action point later stage)
    (valid : Valid {s with running := some ⟨entry,stage,later,restored⟩}) :
    Routed apps {s with running := some ⟨entry,stage,later,restored⟩} := by
  have proper := routed.valid.proper _ here
  have course := routed.course _ here
  refine routed.reruns valid here rfl rfl rfl rfl rfl ?_
  cases holds : held (.working point) with
  | none =>
      obtain ⟨still,rolling⟩ := works_turns works proper holds
      exact course.turns holds rfl rfl rfl (.inl rfl) rfl rfl still rolling
  | some models =>
      rcases works_held works holds with still | winds
      · obtain ⟨changed,shows_,free,calm,fresh,none_⟩ := course.holds proper holds
        exact .holding models still changed shows_ free calm fresh none_
      · exact course.gives proper holds rfl rfl rfl rfl rfl winds

theorem Routed.raises {entry : Entry} {point after : WorkerPoint} {diff : Option Diff} {restored : Bool}
    (routed : Routed apps s) (here : s.running = some ⟨entry,.working point,diff,restored⟩)
    (raised : raises point = some after) (valid : Valid {s with
      strays := s.strays + point.leftBehind,running := some ⟨entry,.working after,diff,restored⟩}) :
    Routed apps {s with
      strays := s.strays + point.leftBehind,running := some ⟨entry,.working after,diff,restored⟩} := by
  have proper := routed.valid.proper _ here
  have course := routed.course _ here
  obtain ⟨still,winds⟩ := raises_rolls raised
  refine routed.reruns valid here rfl rfl rfl rfl rfl ?_
  cases holds : held (.working point) with
  | none => exact course.turns holds rfl rfl rfl (.inl rfl) rfl rfl still (fun _ => winds)
  | some models => exact course.gives proper holds rfl rfl rfl rfl rfl winds

-- A switch finds the routing at the committed version and, with its worker alive,
-- nothing on the lock or on its way there.
theorem Routed.switches {entry : Entry} {stage : Stage} {diff : Option Diff} {restored : Bool} {models : List Json}
    (routed : Routed apps s) (here : s.running = some ⟨entry,stage,diff,restored⟩)
    (sent : stage.transit = some (.switch models)) (alone : restoresRouting s .arrive = true)
    (valid : Valid {s.route apps (some models) with
      running := some ⟨{entry with state := .switching,switched := true},
        answer ⟨entry,stage,diff,restored⟩ true stage,diff,false⟩}) :
    Routed apps {s.route apps (some models) with
      running := some ⟨{entry with state := .switching,switched := true},
        answer ⟨entry,stage,diff,restored⟩ true stage,diff,false⟩} := by
  have proper := routed.valid.proper _ here
  have idle : pending entry.id s.lock = [] ∧ written entry.id s.writes = [] := by
    rcases sends_switch sent with rfl | rfl
    · exact ⟨proper.1.1,proper.1.2.1⟩
    · exact ⟨proper.1,proper.2.1⟩
  have unrolled : rolls stage = false ∧ held stage = none := by
    rcases sends_switch sent with rfl | rfl <;> exact ⟨rfl,rfl⟩
  have quiet : Quiet apps s := by
    cases routed.course _ here with
    | before quiet early unheld => exact quiet
    | holding others holds => simp [unrolled.2] at holds
    | waiting others rest first => simp [first] at idle
    | unwinding only changed there restores winds => simp [unrolled.1] at winds
    | landed quiet done => exact quiet
  refine ⟨valid,?_,?_,?_,?_,?_⟩
  · intro _
    exact routed.recovered (by simp [here])
  · intro routing shown
    cases shown
    rfl
  · intro absent
    cases absent
  · intro gone
    cases gone
  · intro running now
    cases now
    rcases sends_switch sent with rfl | rfl
    · simp only [restoresRouting,here,Bool.and_eq_true,decide_eq_true_eq,Bool.not_eq_true'] at alone
      exact .holding models rfl rfl ⟨_,rfl⟩ (quiet.2.empty alone.2) alone.1 rfl idle.2
    · exact .unwinding quiet.2 rfl (by simp [Coordinator.route]) (by simp) rfl idle.2

theorem Routed.commits {entry : Entry} {stage : Stage} {diff : Option Diff} {restored : Bool} {models : List Json}
    (routed : Routed apps s) (here : s.running = some ⟨entry,stage,diff,restored⟩)
    (sent : stage.transit = some (.commit models)) (valid : Valid {s with
      lock := s.lock ++ [.commit entry.id models]
      running := some ⟨{entry with state := .committing},answer ⟨entry,stage,diff,restored⟩ true stage,
        diff,restored⟩}) : Routed apps {s with
      lock := s.lock ++ [.commit entry.id models]
      running := some ⟨{entry with state := .committing},answer ⟨entry,stage,diff,restored⟩ true stage,
        diff,restored⟩} := by
  have holds : held stage = some models := by
    rcases sends_commit sent with rfl | rfl <;> rfl
  obtain ⟨changed,shows_,free,calm,fresh,none_⟩ := (routed.course _ here).holds (routed.valid.proper _ here) holds
  refine routed.reruns valid here rfl rfl rfl rfl rfl ?_
  exact .waiting models [] (by simp [free]) (fun _ => rfl) changed shows_ fresh

-- The stage moves on, with no routing of its own to hold or giving it up.
theorem Routed.moves {entry after : Entry} {stage later : Stage} {diff : Option Diff} {restored : Bool}
    (routed : Routed apps s) (valid : Valid t) (here : s.running = some ⟨entry,stage,diff,restored⟩)
    (now : t.running = some ⟨after,later,diff,restored⟩) (recovery : t.recovery = s.recovery)
    (routing : t.routing = s.routing) (cell : t.cell = s.cell) (lookups : t.lookups = s.lookups)
    (writes : t.writes = s.writes) (id : after.id = entry.id) (switched : after.switched = entry.switched)
    (lock : t.lock = s.lock ∨ held stage = none ∧ ∃ owner, t.lock = s.lock ++ [.reset owner])
    (still : held later = none) (rolling : rolls stage = true ∨ held stage ≠ none → rolls later = true) :
    Routed apps t := by
  have course := routed.course _ here
  refine routed.reruns valid here now recovery routing cell lookups ?_
  cases holds : held stage with
  | none =>
      have grown : t.lock = s.lock ∨ ∃ owner, t.lock = s.lock ++ [.reset owner] := lock.imp_right And.right
      exact course.turns holds routing cell writes grown id switched still (fun winds => rolling (.inl winds))
  | some models =>
      have same : t.lock = s.lock := by
        rcases lock with same | ⟨unheld,_⟩
        · exact same
        · rw [holds] at unheld
          cases unheld
      exact course.gives (routed.valid.proper _ here) holds routing writes same id switched
        (rolling (.inr (by simp [holds])))

theorem Routed.idles (routed : Routed apps s) (valid : Valid t) (running : t.running = s.running)
    (recovery : s.recovery = .over → t.recovery = .over) (routing : t.routing = s.routing) (cell : t.cell = s.cell)
    (writes : t.writes = s.writes)
    (lookups : s.routing = none → ∀ models ∈ t.lookups, models ∈ s.lookups ∨ models = committedModels s.cell)
    (lock : t.lock = s.lock ∧ t.strays = s.strays ∨ (s.running = none ∨ s.strays ≠ 0) ∧
      (t.lock = s.lock ∨ ∃ owner, t.lock = s.lock ++ [.reset owner])) : Routed apps t := by
  have grown : t.lock = s.lock ∨ ∃ owner, t.lock = s.lock ++ [.reset owner] := by
    rcases lock with ⟨same,_⟩ | ⟨_,grown⟩
    · exact .inl same
    · exact grown
  refine ⟨valid,?_,?_,?_,?_,?_⟩
  · rw [running]
    exact fun busy => recovery (routed.recovered busy)
  · rw [routing]
    exact routed.shaped
  · rw [routing,cell]
    intro absent models present
    rcases lookups absent models present with earlier | new
    · exact routed.lookups absent models earlier
    · exact new
  · rw [running]
    exact fun gone => (routed.quiet gone).frame routing cell grown
  · intro present there
    rw [running] at there
    have course := routed.course present there
    cases holds : held present.stage with
    | none => exact course.turns holds routing cell writes grown rfl rfl holds id
    | some models =>
        obtain ⟨changed,shows_,free,calm,fresh,none_⟩ := course.holds (routed.valid.proper _ there) holds
        rcases lock with ⟨same,strays⟩ | ⟨idle | busy,_⟩
        · refine .holding models holds changed ?_ (same ▸ free) (strays ▸ calm) fresh (by rw [writes]; exact none_)
          rw [Shows,routing]
          exact shows_
        · rw [idle] at there
          cases there
        · exact absurd calm busy

theorem Routed.starts {entry : Entry} {rest : List Entry} (routed : Routed apps s) (idle : s.running = none)
    (ended : s.recovery = .over) (first : s.queue = entry :: rest) : Routed apps {s with
      queue := rest,running := some ⟨{entry with state := .applying},.working .diffing,none,false⟩} := by
  refine ⟨routed.valid.starts idle first,fun _ => ended,routed.shaped,routed.lookups,?_,?_⟩
  · intro gone
    cases gone
  · intro running here
    cases here
    have fresh := routed.valid.queued entry (first ▸ List.mem_cons_self)
    exact .before (routed.quiet idle) fresh.2.2 rfl

-- A request ends: the condition leaves none behind that has switched and not been reset.
theorem Course.ends {entry : Entry} {stage : Stage} {restored : Bool} {diff : Option Diff}
    (course : Course apps s entry restored stage)
    (standing : Standing entry diff (pending entry.id s.lock) (written entry.id s.writes)) (idle : held stage = none)
    (settled : pending entry.id s.lock ≠ [] ∨ rolls stage = true ∧ written entry.id s.writes = [] →
      entry.switched = true → restored = true ∨ written entry.id s.writes ≠ []) : Quiet apps s := by
  cases course with
  | before quiet early unheld => exact quiet
  | holding models holds => rw [idle] at holds; cases holds
  | waiting models rest first only changed shows_ fresh =>
      rw [first,pending_commit,if_pos rfl] at standing settled
      have unwritten := standing.refused.2
      simp [changed,fresh,unwritten] at settled
  | unwinding only changed there restores winds unwritten =>
      rcases settled (.inr ⟨winds,unwritten⟩) changed with done | done
      · exact ⟨restores done,only⟩
      · exact absurd unwritten done
  | landed quiet done => exact quiet

theorem Routed.ends (routed : Routed apps s) (valid : Valid t) (quiet : Quiet apps s) (gone : t.running = none)
    (routing : t.routing = s.routing) (cell : t.cell = s.cell) (lookups : t.lookups = s.lookups)
    (lock : t.lock = s.lock) : Routed apps t := by
  refine ⟨valid,fun busy => absurd gone busy,?_,?_,fun _ => quiet.frame routing cell (.inl lock),?_⟩
  · rw [routing]
    exact routed.shaped
  · rw [routing,lookups,cell]
    exact routed.lookups
  · intro running now
    rw [gone] at now
    cases now

-- A commit that holds the lock is the running request's, and the routing shows its models.
theorem Routed.holder (routed : Routed apps s) {id : String} {models : List Json} {rest : List Task}
    (first : s.lock = .commit id models :: rest) :
    ∃ running, s.running = some running ∧ running.entry.id = id ∧ OnlyResets rest ∧
      running.entry.switched = true ∧ Shows apps s (some models) ∧ running.restored = false := by
  cases here : s.running with
  | none => exact ((first ▸ (routed.quiet here).2 : OnlyResets (.commit id models :: rest)).head).elim
  | some running =>
      cases routed.course running here with
      | before quiet early unheld => exact ((first ▸ quiet.2 : OnlyResets (.commit id models :: rest)).head).elim
      | holding others holds changed shows_ free => rw [free] at first; cases first
      | waiting others behind head only changed shows_ fresh =>
          rw [head] at first
          cases first
          exact ⟨running,rfl,rfl,only,changed,shows_,fresh⟩
      | unwinding only => exact ((first ▸ only : OnlyResets (.commit id models :: rest)).head).elim
      | landed quiet => exact ((first ▸ quiet.2 : OnlyResets (.commit id models :: rest)).head).elim

theorem Routed.lands (routed : Routed apps s) {id : String} {models : List Json} {rest : List Task}
    (first : s.lock = .commit id models :: rest) : Routed apps {s with
      lock := rest,running := s.running.map (landed true id)
      cell := (commitVersion s.cell models).1
      writes := s.writes ++ [⟨id,models,s.cell,(commitVersion s.cell models).1⟩]} := by
  obtain ⟨running,here,rfl,only,changed,shows_,fresh⟩ := routed.holder first
  refine ⟨routed.valid.lands first,?_,routed.shaped,fun absent => absurd absent shows_.routed,?_,?_⟩
  · intro _
    exact routed.recovered (by simp [here])
  · intro gone
    simp [here] at gone
  · intro after now
    simp only [here,Option.map_some,Option.some.injEq] at now
    subst now
    refine .landed ⟨?_,only⟩ ?_
    · intro _
      rw [commitVersion_models]
      exact shows_
    · rw [(landed_id true running.entry.id running).1]
      simp

theorem Proper.waits {entry : Entry} {diff : Option Diff} {models : List Json} {later : List (List Json)}
    {landed : List Write} {stage : Stage} (proper : Proper entry diff (models :: later) landed stage) :
    rolls (stage.told (.unwinding .failed)) = true := by
  cases stage with
  | working point =>
      cases point with
      | diffing => cases proper.1
      | applying | switching | confirming | committing => cases proper.1.1
      | landing | unwinding | resetting | awaiting | restoring => rfl
      | retiring => cases proper
      | returned outcome =>
          cases outcome with
          | succeeded => cases proper.1 rfl
          | failed => rfl
          | cancelled => rfl
  | lost transit =>
      cases transit with
      | none => rfl
      | some call =>
          cases call with
          | switch => cases proper.1
          | commit => cases proper.1.1
          | rollingBack | reset => rfl
  | rolling reset late => rfl

theorem Routed.unwritten (routed : Routed apps s) {id : String} {models : List Json} {rest : List Task}
    (first : s.lock = .commit id models :: rest) :
    Routed apps {s with lock := rest,running := s.running.map (landed false id)} := by
  obtain ⟨running,here,rfl,only,changed,shows_,fresh⟩ := routed.holder first
  have proper := routed.valid.proper running here
  rw [first,pending_commit,if_pos rfl] at proper
  have now : s.running.map (landed false running.entry.id) = some (landed false running.entry.id running) := by
    rw [here,Option.map_some]
  refine routed.reruns (routed.valid.unwritten first) here now rfl rfl rfl rfl ?_
  have told : landed false running.entry.id running =
      {running with stage := running.stage.told (.unwinding .failed)} := by
    simp [landed]
  rw [told]
  refine .unwinding only changed shows_.routed ?_ proper.waits proper.standing.refused.2
  simp [fresh]

theorem restored_turns (ok : Bool) (owner : Owner) (running : Running) :
    (held running.stage = none → held (restored ok owner running).stage = none) ∧
      (rolls running.stage = true → rolls (restored ok owner running).stage = true) := by
  simp only [restored]
  split
  · split
    · cases ok <;> exact ⟨fun _ => rfl,fun _ => rfl⟩
    · exact ⟨id,id⟩
  · split
    · exact ⟨fun _ => rfl,fun _ => rfl⟩
    · exact ⟨id,id⟩
  · exact ⟨id,id⟩

theorem Routed.answers (routed : Routed apps s) (valid : Valid t) {ok : Bool} {owner : Owner} {rest : List Task}
    (first : s.lock = .reset owner :: rest) (lock : t.lock = rest)
    (running : t.running = s.running.map (restored ok owner)) (recovery : s.recovery = .over → t.recovery = .over)
    (cell : t.cell = s.cell) (writes : t.writes = s.writes) (lookups : t.lookups = s.lookups)
    (shaped : ∀ routing, t.routing = some routing → routing = routingOf apps routing.seq routing.models)
    (present : s.routing ≠ none → t.routing ≠ none) (kept : Follows apps s → Follows apps t)
    (fresh : ok = true → Follows apps t) : Routed apps t := by
  have quiet : Quiet apps s → Quiet apps t := by
    rintro ⟨follows,only⟩
    rw [first] at only
    exact ⟨kept follows,lock ▸ only.tail⟩
  refine ⟨valid,?_,shaped,?_,?_,?_⟩
  · intro busy
    apply recovery
    apply routed.recovered
    intro gone
    simp [running,gone] at busy
  · intro absent
    rw [lookups,cell]
    apply routed.lookups
    by_contra there
    exact present there absent
  · intro gone
    exact quiet (routed.quiet (by simpa [running] using gone))
  · intro after now
    rw [running] at now
    obtain ⟨before,here,rfl⟩ := Option.map_eq_some_iff.mp now
    obtain ⟨still,rolling⟩ := restored_turns ok owner before
    cases routed.course before here with
    | before calm early unheld => exact .before (quiet calm) early (still unheld)
    | holding models holds changed shows_ free => rw [free] at first; cases first
    | waiting models behind head => rw [head] at first; cases first
    | unwinding only changed there restores winds none_ =>
        rw [first] at only
        refine .unwinding (lock ▸ only.tail) changed (present there) ?_ (rolling winds) (by rw [writes]; exact none_)
        intro done
        rcases (Bool.or_eq_true _ _).mp done with earlier | now
        · exact kept (restores earlier)
        · exact fresh now
    | landed calm done => exact .landed (quiet calm) (by rw [writes]; exact done)

theorem Routed.looked (routed : Routed apps s) {index : Nat} {models : Option (List Json)}
    (found : s.lookups[index]? = some models) (absent : s.routing = none)
    (valid : Valid ({s with lookups := s.lookups.eraseIdx index}.route apps models)) :
    Routed apps ({s with lookups := s.lookups.eraseIdx index}.route apps models) := by
  have same := routed.lookups absent models (List.mem_of_getElem? found)
  subst same
  have quiet : Quiet apps s →
      Quiet apps ({s with lookups := s.lookups.eraseIdx index}.route apps (committedModels s.cell)) :=
    fun calm => ⟨fun _ => ⟨_,rfl⟩,calm.2⟩
  refine ⟨valid,routed.recovered,?_,?_,fun gone => quiet (routed.quiet gone),?_⟩
  · intro routing shown
    cases shown
    rfl
  · intro unrouted
    cases unrouted
  · intro running here
    cases routed.course running here with
    | before calm early unheld => exact .before (quiet calm) early unheld
    | holding models holds changed shows_ => exact absurd absent shows_.routed
    | waiting models behind head only changed shows_ => exact absurd absent shows_.routed
    | unwinding only changed there => exact absurd absent there
    | landed calm done => exact .landed (quiet calm) done

theorem Routed.unrecovered (routed : Routed apps s) (going : s.recovery ≠ .over) : s.running = none := by
  by_contra busy
  exact going (routed.recovered busy)

theorem Finishing.served {entry : Entry} {diff : Option Diff} {waiting : List (List Json)} {landed : List Write}
    (finishing : Finishing entry diff waiting landed) : waiting = [] := by
  cases finishing <;> rfl

theorem moves_routed {action : Action} (moves : Moves apps s action t) (restores : restoresRouting s action = true)
    (routed : Routed apps s) : Routed apps t := by
  have valid := moves_valid moves routed.valid
  cases moves with
  | submits _ strategy fresh =>
      exact routed.idles valid rfl id rfl rfl rfl (fun _ _ => .inl) (.inl ⟨rfl,rfl⟩)
  | drops _ entry found =>
      exact routed.idles valid rfl id rfl rfl rfl (fun _ _ => .inl) (.inl ⟨rfl,rfl⟩)
  | grants entry stage diff restored here committing retiring rolling =>
      refine routed.reruns valid here rfl rfl rfl rfl rfl ?_
      cases routed.course _ here with
      | before quiet early unheld => exact .before quiet early unheld
      | holding models holds changed shows_ free calm fresh none_ =>
          exact .holding models holds changed shows_ free calm fresh none_
      | waiting models rest first only changed shows_ fresh =>
          exact .waiting models rest first only changed shows_ fresh
      | unwinding only changed there restores winds none_ =>
          exact .unwinding only changed there restores winds none_
      | landed quiet done => exact .landed quiet done
  | refuses id => exact routed
  | recovers waiting =>
      refine routed.idles valid rfl ?_ rfl rfl rfl (fun _ _ => .inl) (.inl ⟨rfl,rfl⟩)
      simp [waiting]
  | recoveryArrives sent =>
      have idle := routed.unrecovered (by simp [sent])
      refine routed.idles valid rfl ?_ rfl rfl rfl (fun _ _ => .inl) (.inr ⟨.inl idle,.inr ⟨_,rfl⟩⟩)
      simp [sent]
  | recovered strays going =>
      have idle := routed.unrecovered going
      exact routed.idles valid rfl (fun _ => rfl) rfl rfl rfl (fun _ _ => .inl) (.inr ⟨.inl idle,.inl rfl⟩)
  | starts entry rest idle ended first => exact routed.starts idle ended first
  | works entry point diff restored action later stage here works => exact routed.works here works valid
  | raises entry point diff restored after here raised => exact routed.raises here raised valid
  | switches entry stage diff restored models here sent open_ => exact routed.switches here sent restores valid
  | commits entry stage diff restored models here sent open_ kept => exact routed.commits here sent valid
  | turned entry stage diff restored models here sent =>
      have refused : held (answer ⟨entry,stage,diff,restored⟩ false stage) = none ∧
          rolls (answer ⟨entry,stage,diff,restored⟩ false stage) = true := by
        rcases sent with sent | sent
        · rcases sends_switch sent with rfl | rfl <;> exact ⟨rfl,rfl⟩
        · rcases sends_commit sent with rfl | rfl
          · by_cases state : entry.state = .rollingBack <;> simp [answer,state,held,rolls]
          · exact ⟨rfl,rfl⟩
      exact routed.moves valid here rfl rfl rfl rfl rfl rfl rfl rfl (.inl rfl) refused.1 (fun _ => refused.2)
  | unwinds entry stage diff restored here sent =>
      rcases sends_rollingBack sent with ⟨outcome,rfl⟩ | rfl
      · exact routed.moves valid here rfl rfl rfl rfl rfl rfl rfl rfl (.inl rfl) rfl (fun _ => rfl)
      · exact routed.moves valid here rfl rfl rfl rfl rfl rfl rfl rfl (.inl rfl) rfl (fun _ => rfl)
  | resets entry stage diff restored here sent =>
      rcases sends_reset sent with ⟨outcome,rfl⟩ | rfl
      · exact routed.moves valid here rfl rfl rfl rfl rfl rfl rfl rfl (.inr ⟨rfl,_,rfl⟩) rfl (fun _ => rfl)
      · exact routed.moves valid here rfl rfl rfl rfl rfl rfl rfl rfl (.inr ⟨rfl,_,rfl⟩) rfl (fun _ => rfl)
  | notices entry transit diff restored here =>
      exact routed.moves valid here rfl rfl rfl rfl rfl rfl rfl rfl (.inl rfl) rfl (fun _ => rfl)
  | rollbackArrives entry late diff restored here =>
      exact routed.moves valid here rfl rfl rfl rfl rfl rfl rfl rfl (.inr ⟨rfl,_,rfl⟩) rfl (fun _ => rfl)
  | lateArrives entry reset diff restored here =>
      exact routed.moves valid here rfl rfl rfl rfl rfl rfl rfl rfl (.inl rfl) rfl (fun _ => rfl)
  | rollbackOver entry reset late diff restored here =>
      have standing := (routed.valid.proper _ here).standing
      refine routed.ends valid ((routed.course _ here).ends standing rfl ?_) rfl rfl rfl rfl rfl
      intro busy (changed : entry.switched = true)
      by_cases succeeded : lostOutcome entry = .succeeded
      · obtain ⟨served,write,once,_⟩ := standing.retired (lostOutcome_succeeded.mp succeeded)
        exact .inr (by simp [once])
      · simpa [restoresRouting,here,succeeded,changed] using restores
  | collects entry outcome diff restored here =>
      have proper := routed.valid.proper _ here
      refine routed.ends valid ((routed.course _ here).ends proper.standing rfl ?_) rfl rfl rfl rfl rfl
      intro busy (changed : entry.switched = true)
      by_cases succeeded : outcome = .succeeded
      · subst succeeded
        rcases busy with busy | ⟨winds,_⟩
        · exact absurd (proper.1 rfl).served busy
        · cases winds
      · simpa [restoresRouting,here,succeeded,changed] using restores
  | strayArrives some =>
      exact routed.idles valid rfl id rfl rfl rfl (fun _ _ => .inl) (.inr ⟨.inr some,.inr ⟨_,rfl⟩⟩)
  | lands id models rest held => exact routed.lands held
  | unwritten id models rest held => exact routed.unwritten held
  | answers ok owner rest recovery held ended same =>
      refine routed.answers valid held rfl rfl ended rfl rfl rfl routed.shaped id id ?_
      intro answered there
      obtain ⟨routing,shown⟩ := Option.ne_none_iff_exists'.mp there
      have models : routing.models = committedModels s.cell := by
        have equal := same answered
        rw [show s.routing = some routing from shown] at equal
        simpa using equal
      exact ⟨routing.seq,by rw [shown,← models,← routed.shaped routing shown]⟩
  | reroutes owner rest recovery held ended =>
      refine routed.answers valid held rfl rfl ended rfl rfl rfl ?_ ?_ ?_ ?_
      · intro routing shown
        cases shown
        rfl
      · simp [Coordinator.route]
      · exact fun _ _ => ⟨_,rfl⟩
      · exact fun _ _ => ⟨_,rfl⟩
  | looks absent =>
      refine routed.idles valid rfl id rfl rfl rfl ?_ (.inl ⟨rfl,rfl⟩)
      intro _ models present
      simpa using present
  | overtaken index there =>
      exact routed.idles valid rfl id rfl rfl rfl (fun absent => absurd absent there) (.inl ⟨rfl,rfl⟩)
  | looked index models found absent => exact routed.looked found absent valid

theorem runs_routed {cell : Json} {seq : Int} {actions : List Action}
    (restores : Meets (next apps) (fun s action => restoresRouting s action = true) (start cell seq) actions)
    (ran : execute (next apps) (start cell seq) actions = some s) : Routed apps s := by
  apply meets_invariant _ (start_routed cell seq) restores ran
  intro s action t routed restores taken
  exact moves_routed (next_moves taken) restores routed

-- Only a request that was running and is over succeeds.
theorem succeeds_idle {action : Action} {done : Done} (moves : Moves apps s action t)
    (ended : t.outcomes = s.outcomes ++ [done]) (succeeded : done.outcome = .succeeded) : t.running = none := by
  cases moves with
  | rollbackOver | collects => rfl
  | drops id entry found =>
      have last := (List.append_inj' ended rfl).2
      cases last
      cases succeeded
  | submits | grants | refuses | recovers | recoveryArrives | recovered | starts | works | raises | switches
  | commits | turned | unwinds | resets | notices | rollbackArrives | lateArrives | strayArrives | lands
  | unwritten | answers | reroutes | looks | overtaken | looked =>
      have shorter := congrArg List.length ended
      simp [notice,Coordinator.route] at shorter

-- At every success of a run that restores its routing, the gateway routes by the
-- committed version, to the apps of that version.
theorem routing_is_committed {cell : Json} {seq : Int} {actions : List Action} {action : Action} {done : Done}
    (restores : Meets (next apps) (fun s action => restoresRouting s action = true) (start cell seq)
      (actions ++ [action]))
    (ran : execute (next apps) (start cell seq) actions = some s) (taken : next apps s action = some t)
    (ended : t.outcomes = s.outcomes ++ [done]) (succeeded : done.outcome = .succeeded) {routing : Routing}
    (present : t.routing = some routing) :
    routing.models = committedModels t.cell ∧ routing.apps = ((committedModels t.cell).map apps).getD [] := by
  have whole : execute (next apps) (start cell seq) (actions ++ [action]) = some t := by
    apply execute_append.mpr
    exact ⟨s,ran,execute_cons.mpr ⟨t,taken,rfl⟩⟩
  have quiet := (runs_routed restores whole).quiet (succeeds_idle (next_moves taken) ended succeeded)
  obtain ⟨seq,shown⟩ := quiet.1 (by simp [present])
  rw [present] at shown
  cases shown
  exact ⟨rfl,rfl⟩

-- A first request fails after its switch and resets the routing; a second one commits.
theorem routing_is_committed_restored :
    ∃ s t, execute (next fun models => models.map fun _ => ("model","app")) (start .null 0)
        [.submit "a" .blueGreen,.submit "b" .blueGreen,.recovered,.start,
          .diffed (some ⟨[],[],["one"],[],[],some [.obj [("name",.str "one")]],true⟩),
          .poll true,.poll true,.proceed,.arrive,.confirm false,
          .arrive,.arrive,.serve true,.rolled,.collect,.start,
          .diffed (some ⟨[],[],["two"],[],[],some [.obj [("name",.str "two")]],true⟩),
          .poll true,.poll true,.proceed,.arrive,.confirm true,
          .arrive,.serve true,.retire] = some s ∧
      next (fun models => models.map fun _ => ("model","app")) s .collect = some t ∧
      ∃ routing, t.routing = some routing ∧ routing.models = committedModels t.cell ∧
        routing.apps = ((committedModels t.cell).map fun models => models.map fun _ => ("model","app")).getD [] := by
  obtain ⟨s,t,done,routing,ran,taken,ended,succeeded,present⟩ : ∃ s t done routing,
      execute (next fun models => models.map fun _ => ("model","app")) (start .null 0)
        [.submit "a" .blueGreen,.submit "b" .blueGreen,.recovered,.start,
          .diffed (some ⟨[],[],["one"],[],[],some [.obj [("name",.str "one")]],true⟩),
          .poll true,.poll true,.proceed,.arrive,.confirm false,
          .arrive,.arrive,.serve true,.rolled,.collect,.start,
          .diffed (some ⟨[],[],["two"],[],[],some [.obj [("name",.str "two")]],true⟩),
          .poll true,.poll true,.proceed,.arrive,.confirm true,
          .arrive,.serve true,.retire] = some s ∧
      next (fun models => models.map fun _ => ("model","app")) s .collect = some t ∧
      t.outcomes = s.outcomes ++ [done] ∧ done.outcome = .succeeded ∧ t.routing = some routing :=
    ⟨_,_,_,_,rfl,rfl,rfl,rfl,rfl⟩
  exact ⟨s,t,ran,taken,routing,present,
    routing_is_committed (by decide) ran taken ended succeeded present⟩

-- The store's read raises in the rollback of a request that has switched: the routing
-- stays with its models. A bare request behind it deletes their apps and succeeds.
theorem routing_left_switched :
    ∃ s t done routing, execute (next fun models => models.map fun _ => ("model","app")) (start .null 0)
        [.submit "a" .blueGreen,.submit "b" .blueGreen,.recovered,.start,
          .diffed (some ⟨[],[],["one"],[],[],some [.obj [("name",.str "one")]],true⟩),
          .poll true,.poll true,.proceed,.arrive,
          .confirm false,.arrive,.arrive,.serve false,.collect,.start,
          .diffed (some ⟨["app"],[],[],[],[],none,false⟩),.poll true,.proceed,.retire] = some s ∧
      next (fun models => models.map fun _ => ("model","app")) s .collect = some t ∧
      t.outcomes = s.outcomes ++ [done] ∧ done.outcome = .succeeded ∧ t.routing = some routing ∧
      routing.models = some [.obj [("name",.str "one")]] ∧ routing.apps = [("model","app")] ∧
      committedModels t.cell = none :=
  ⟨_,_,_,_,rfl,rfl,rfl,rfl,rfl,rfl,rfl,rfl⟩

end

end Modelship.Deploy

import Modelship.Foundation.Runs

namespace Modelship.Infer.Cancellable
open Foundation

inductive Failure where
  | error
  | cancelled
deriving DecidableEq

inductive Outcome (Item : Type) where
  | value (item : Item)
  | stopped
  | failed (failure : Failure)

-- A task that goes on, and whether it was told to stop, or its outcome.
inductive Task (Item : Type) where
  | pending (told : Bool)
  | done (outcome : Outcome Item)

def Finished {Item : Type} (task : Option (Task Item)) : Prop := ∃ outcome, task = some (.done outcome)

-- A task that nobody waits for without having told it to stop.
def Told {Item : Type} (task : Option (Task Item)) : Prop := task = some (.pending true) ∨ Finished task

-- The task of `event.wait()`.
inductive Watch where
  | pending
  | cancelling
  | finished
deriving DecidableEq

def Watch.cancel : Watch → Watch
  | .pending => .cancelling
  | watch => watch

inductive Exit where
  | returned
  | failed (failure : Failure)
  | closed
  | disconnected
deriving DecidableEq

-- The generator that is guarded: suspended, with a call of `__anext__` or of `aclose` in
-- it, or finished.
inductive Frame where
  | suspended
  | running
  | closing
  | closed
deriving DecidableEq

-- Where `run_cancellable_stream` stands: before its first line, in `asyncio.wait`, at its
-- `yield`, at the three waits of the branch for a disconnect, or at those of `finally`.
inductive Stage where
  | new
  | waiting
  | yielding
  | dropping
  | closing
  | aborting
  | unwatching (exit : Exit)
  | settling (exit : Exit)
  | shutting (exit : Exit)
  | ended (exit : Exit)
deriving DecidableEq

-- How `finally` was entered.
def Stage.exit? : Stage → Option Exit
  | .unwatching exit | .settling exit | .shutting exit | .ended exit => some exit
  | _ => none

structure Stream (Item : Type) where
  stage : Stage
  work : Frame
  next : Option (Task Item)
  watch : Option Watch
  watched : Bool
  fired : Bool
  hooks : Nat
  produced : List Item
  yielded : List Item
  faulty : Bool

-- What the consumer, the pump, `work`, the hook and the event loop do.
inductive Action (Item : Type) where
  | pull
  | close
  | cancel
  | fire
  | watchEnds
  | works (outcome : Outcome Item)
  | closes (failure : Option Failure)
  | hooked (failure : Option Failure)
  | wake

def Action.own {Item : Type} : Action Item → Bool
  | .pull | .close | .cancel | .fire => false
  | .watchEnds | .works _ | .closes _ | .hooked _ | .wake => true

namespace Stream
section
variable {Item : Type}

def start : Stream Item := ⟨.new,.suspended,none,none,false,false,0,[],[],false⟩

-- `work.__anext__()`, which fails on a generator that is running already.
def pull (s : Stream Item) : Stream Item :=
  {s with stage := .waiting,work := .running,next := some (.pending false),faulty := s.faulty || s.work ≠ .suspended}

-- Into `finally`.
def leave (s : Stream Item) (exit : Exit) : Stream Item :=
  {s with stage := .unwatching exit,watch := s.watch.map Watch.cancel}

def finish (exit : Exit) (s : Stream Item) : Stream Item := {s with stage := .ended exit}

-- `await work.aclose()`, which fails on a generator that is running, and does nothing to
-- one that is finished.
def aclose (s : Stream Item) (during : Stage) (after failed : Stream Item → Stream Item) : Stream Item := match s.work with
  | .suspended => {s with stage := during,work := .closing}
  | .closed => after s
  | .running | .closing => failed {s with faulty := true}

def hook (s : Stream Item) : Stream Item := {s with stage := .aborting,hooks := s.hooks + 1}

def dropped (s : Stream Item) : Stream Item := s.aclose .closing hook (leave · (.failed .error))

def shut (s : Stream Item) (exit : Exit) : Stream Item := s.aclose (.shutting exit) (finish exit) (finish (.failed .error))

def unwatch (s : Stream Item) (exit : Exit) : Stream Item :=
  let s := {s with watched := false}
  match s.next with
  | some (.pending _) => {s with stage := .settling exit,next := some (.pending true)}
  | _ => s.shut exit

def works (s : Stream Item) (outcome : Outcome Item) : Stream Item := match outcome with
  | .value item => {s with work := .suspended,next := some (.done outcome),produced := s.produced ++ [item]}
  | _ => {s with work := .closed,next := some (.done outcome)}

-- A cancel does nothing at an `await` under `suppress(CancelledError)`, other than to let
-- it go on if what it waits for is over; in `aclose` it is one for `work`.
def cancel (s : Stream Item) : Option (Stream Item) := match s.stage,s.next with
  | .waiting,_ | .aborting,_ => some (s.leave (.failed .cancelled))
  | .dropping,some (.done _) => some s.dropped
  | .unwatching exit,_ => some (if s.watch = some .finished then s.unwatch exit else s)
  | .settling exit,some (.done _) => some (s.shut exit)
  | .dropping,_ | .settling _,_ | .closing,_ | .shutting _,_ => some s
  | .new,_ | .yielding,_ | .ended _,_ => none

def wake (s : Stream Item) : Option (Stream Item) := match s.stage,s.next with
  | .waiting,some (.done (.value item)) => some {s with stage := .yielding,yielded := s.yielded ++ [item]}
  | .waiting,some (.done .stopped) => some (s.leave .returned)
  | .waiting,some (.done (.failed failure)) => some (s.leave (.failed failure))
  | .waiting,some (.pending _) =>
    if s.watch = some .finished then some {s with stage := .dropping,next := some (.pending true)} else none
  | .dropping,some (.done (.value _)) | .dropping,some (.done (.failed .cancelled)) => some s.dropped
  | .dropping,some (.done .stopped) | .dropping,some (.done (.failed .error)) => some (s.leave (.failed .error))
  | .unwatching exit,_ => if s.watch = some .finished then some (s.unwatch exit) else none
  | .settling exit,some (.done (.value _)) | .settling exit,some (.done (.failed .cancelled)) => some (s.shut exit)
  | .settling _,some (.done .stopped) | .settling _,some (.done (.failed .error)) => some (s.finish (.failed .error))
  | _,_ => none

variable (watchable : Bool)

def step (s : Stream Item) : Action Item → Option (Stream Item)
  | .pull => match s.stage with
    | .new => some ({s with watched := watchable,watch := some .pending} : Stream Item).pull
    | .yielding => some s.pull
    | _ => none
  | .close => match s.stage with
    | .new => some (s.finish .closed)
    | .yielding => some (s.leave .closed)
    | _ => none
  | .cancel => s.cancel
  | .fire => if s.watched then some {s with fired := true} else none
  | .watchEnds => match s.watch with
    | some .pending => if s.fired then some {s with watch := some .finished} else none
    | some .cancelling => some {s with watch := some .finished}
    | _ => none
  | .works outcome => if s.work = .running then some (s.works outcome) else none
  | .closes failure => match s.stage with
    | .closing => some (match failure with
      | none => ({s with work := .closed} : Stream Item).hook
      | some failure => ({s with work := .closed} : Stream Item).leave (.failed failure))
    | .shutting exit => some (({s with work := .closed} : Stream Item).finish (match failure with
      | none => exit
      | some failure => .failed failure))
    | _ => none
  | .hooked failure => match s.stage with
    | .aborting => some (s.leave (match failure with
      | none => .disconnected
      | some failure => .failed failure))
    | _ => none
  | .wake => s.wake

def Watching (s : Stream Item) : Prop := s.watch = some .pending ∨ s.watch = some .finished ∧ s.fired = true

def Placed (s : Stream Item) : Prop := match s.stage with
  | .new => s.work = .suspended ∧ s.next = none ∧ s.watch = none ∧ s.watched = false
  | .waiting => s.work ≠ .closing ∧ s.next.isSome ∧ s.Watching
  | .yielding => s.work = .suspended ∧ Finished s.next ∧ s.Watching
  | .dropping => s.work ≠ .closing ∧ Told s.next ∧ s.watch = some .finished ∧ s.fired = true
  | .closing => s.work = .closing ∧ Finished s.next ∧ s.watch = some .finished ∧ s.fired = true
  | .aborting => s.work = .closed ∧ Finished s.next ∧ s.watch = some .finished ∧ s.fired = true
  | .unwatching _ => s.work ≠ .closing ∧ s.next.isSome ∧ (s.watch = some .cancelling ∨ s.watch = some .finished)
  | .settling _ => s.work ≠ .closing ∧ Told s.next ∧ s.watch = some .finished ∧ s.watched = false
  | .shutting _ => s.work = .closing ∧ Finished s.next ∧ s.watch = some .finished ∧ s.watched = false
  | .ended exit => s.watched = false ∧
    (s.work = .closed ∧ Finished s.next ∧ s.watch = some .finished ∨ exit = .closed ∧ s.next = none ∧ s.watch = none)

-- The hook runs once, after the disconnect and before the error that tells of it.
def Hooked (s : Stream Item) (exit : Exit) : Prop := s.hooks ≤ 1 ∧ (exit = .disconnected → s.hooks = 1 ∧ s.fired = true)

-- The item of a call that is over.
def brought : Option (Task Item) → List Item
  | some (.done (.value item)) => [item]
  | _ => []

-- What holds wherever it stands.
structure Core (s : Stream Item) : Prop where
  sane : s.faulty = false
  frame : s.work = .running ↔ ∃ told, s.next = some (.pending told)
  held : s.produced = s.yielded ∨ s.produced = s.yielded ++ brought s.next
  dead : Finished s.next → brought s.next = [] → s.work = .closed

structure Sound (s : Stream Item) : Prop where
  sane : s.faulty = false
  frame : s.work = .running ↔ ∃ told, s.next = some (.pending told)
  placed : s.Placed
  before : s.stage.exit? = none → s.hooks = if s.stage = .aborting then 1 else 0
  hooked : ∀ exit, s.stage.exit? = some exit → s.Hooked exit
  held : s.produced = s.yielded ∨ s.produced = s.yielded ++ brought s.next
  ready : s.stage = .waiting → s.produced = s.yielded ++ brought s.next ∧ (brought s.next ≠ [] → s.work = .suspended)
  level : s.stage = .yielding ∨ s.stage.exit? = some .returned → s.produced = s.yielded ∧ Finished s.next
  dead : Finished s.next → brought s.next = [] → s.work = .closed

theorem start_sound : (start : Stream Item).Sound := by
  refine ⟨rfl,by simp [start],⟨rfl,rfl,rfl,rfl⟩,fun _ => rfl,?_,.inl rfl,?_,?_,?_⟩
  · intro exit ended
    cases ended
  · intro waits
    cases waits
  · rintro (waits | left)
    · cases waits
    · cases left
  · rintro ⟨outcome,done⟩
    cases done

section
variable {s t : Stream Item} {exit : Exit}

-- With nothing on the way, all that was brought is through.
theorem Sound.through (sound : s.Sound) (nothing : brought s.next = []) : s.produced = s.yielded := by
  rcases sound.held with same | more
  · exact same
  · rw [more,nothing,List.append_nil]

theorem finished_still {told : Bool} (pending : s.next = some (.pending told)) : ¬Finished s.next := by
  rintro ⟨outcome,done⟩
  rw [pending] at done
  cases done

-- A generator that can go on has brought an item last.
theorem Sound.open_ (sound : s.Sound) {frame : Frame} (suspended : s.work = .suspended) (finished : Finished s.next)
    (nothing : brought s.next = []) : frame = .closed := by
  have closed := sound.dead finished nothing
  rw [suspended] at closed
  cases closed

theorem Sound.core (sound : s.Sound) : s.Core := ⟨sound.sane,sound.frame,sound.held,sound.dead⟩

theorem leave_sound (core : s.Core) (unclosed : s.work ≠ .closing) (asked : s.next.isSome = true)
    (watch : s.watch = some .pending ∨ s.watch = some .finished) (hooked : s.Hooked exit)
    (level : exit = .returned → s.produced = s.yielded ∧ Finished s.next) : (s.leave exit).Sound := by
  refine ⟨core.sane,core.frame,⟨unclosed,asked,?_⟩,?_,?_,core.held,?_,?_,core.dead⟩
  · rcases watch with waits | finished
    · exact .inl (by simp [leave,waits,Watch.cancel])
    · exact .inr (by simp [leave,finished,Watch.cancel])
  · intro open_
    cases open_
  · intro other same
    cases same
    exact hooked
  · intro waits
    cases waits
  · rintro (waits | same)
    · cases waits
    · cases same
      exact level rfl

theorem finished_idle (finished : Finished s.next) (sound : s.Sound) : s.work ≠ .running := by
  intro running
  obtain ⟨told,pending⟩ := sound.frame.mp running
  obtain ⟨outcome,done⟩ := finished
  rw [pending] at done
  cases done

-- A generator that no call is in.
theorem settled_frame {frame : Frame} (unclosed : frame ≠ .closing) (idle : frame ≠ .running) :
    frame = .suspended ∨ frame = .closed := by
  cases frame with
  | suspended => exact .inl rfl
  | running => exact absurd rfl idle
  | closing => exact absurd rfl unclosed
  | closed => exact .inr rfl

theorem finished_frame {next : Option (Task Item)} (finished : Finished next) {frame : Frame} (idle : frame ≠ .running) :
    frame = .running ↔ ∃ told, next = some (.pending told) := by
  obtain ⟨outcome,rfl⟩ := finished
  refine ⟨fun running => absurd running idle,?_⟩
  rintro ⟨told,pending⟩
  cases pending

theorem closed_self (closed : s.work = .closed) : ({s with work := .closed} : Stream Item) = s := by
  rw [← closed]

theorem finish_sound (sound : s.Sound) (finished : Finished s.next) (watch : s.watch = some .finished)
    (unwatched : s.watched = false)
    (hooked : s.Hooked exit) (level : exit = .returned → s.produced = s.yielded ∧ Finished s.next) :
    (({s with work := .closed} : Stream Item).finish exit).Sound := by
  refine ⟨sound.sane,finished_frame finished (by simp [finish]),⟨unwatched,.inl ⟨rfl,finished,watch⟩⟩,?_,?_,sound.held,?_,?_,
    fun _ _ => rfl⟩
  · intro open_
    cases open_
  · intro other same
    cases same
    exact hooked
  · intro waits
    cases waits
  · rintro (waits | same)
    · cases waits
    · cases same
      exact level rfl

theorem shut_sound (sound : s.Sound) (leaving : s.stage.exit? = some exit) (finished : Finished s.next)
    (unclosed : s.work ≠ .closing)
    (watch : s.watch = some .finished) (unwatched : s.watched = false) : (s.shut exit).Sound := by
  have hooked := sound.hooked exit leaving
  have level : exit = .returned → s.produced = s.yielded ∧ Finished s.next := fun same => sound.level (.inr (same ▸ leaving))
  rcases settled_frame unclosed (finished_idle finished sound) with suspended | closed
  · have shut_ : s.shut exit = {s with stage := .shutting exit,work := .closing} := by simp [shut,aclose,suspended]
    rw [shut_]
    refine ⟨sound.sane,finished_frame finished (by simp),⟨rfl,finished,watch,unwatched⟩,?_,?_,sound.held,?_,?_,
      sound.open_ suspended⟩
    · intro open_
      cases open_
    · intro other same
      cases same
      exact hooked
    · intro waits
      cases waits
    · rintro (waits | same)
      · cases waits
      · cases same
        exact level rfl
  · have same : s.shut exit = s.finish exit := by simp [shut,aclose,closed]
    have after := finish_sound sound finished watch unwatched hooked level
    rw [closed_self closed] at after
    exact same ▸ after

theorem unwatch_sound (sound : s.Sound) (stage : s.stage = .unwatching exit) (watch : s.watch = some .finished) :
    (s.unwatch exit).Sound := by
  have placed := sound.placed
  simp only [Placed,stage] at placed
  obtain ⟨unclosed,asked,_⟩ := placed
  have leaving : s.stage.exit? = some exit := by rw [stage,Stage.exit?]
  have dropped : ({s with watched := false} : Stream Item).Sound := by
    refine ⟨sound.sane,sound.frame,?_,sound.before,sound.hooked,sound.held,sound.ready,sound.level,sound.dead⟩
    simp only [Placed,stage]
    exact ⟨unclosed,asked,.inr watch⟩
  cases next : s.next with
  | none =>
      rw [next] at asked
      cases asked
  | some task =>
      cases task with
      | done outcome =>
          have shut_ : s.unwatch exit = ({s with watched := false} : Stream Item).shut exit := by simp [unwatch,next]
          rw [shut_]
          exact shut_sound dropped leaving ⟨outcome,next⟩ unclosed watch rfl
      | pending told =>
          have even : s.produced = s.yielded := sound.through (by rw [next]; rfl)
          have settling : s.unwatch exit =
              {s with watched := false,stage := .settling exit,next := some (.pending true)} := by simp [unwatch,next]
          rw [settling]
          refine ⟨sound.sane,?_,⟨unclosed,.inl rfl,watch,rfl⟩,?_,?_,.inl even,?_,?_,?_⟩
          · exact ⟨fun _ => ⟨true,rfl⟩,fun _ => sound.frame.mpr ⟨told,next⟩⟩
          · intro open_
            cases open_
          · intro other same
            cases same
            exact sound.hooked exit leaving
          · intro waits
            cases waits
          · rintro (waits | same)
            · cases waits
            · cases same
              exact absurd (sound.level (.inr leaving)).2 (finished_still next)
          · rintro ⟨outcome,done⟩
            cases done

theorem hook_sound (sound : s.Sound) (unhooked : s.hooks = 0) (finished : Finished s.next) (watch : s.watch = some .finished)
    (fired : s.fired = true) : (({s with work := .closed} : Stream Item).hook).Sound := by
  refine ⟨sound.sane,finished_frame finished (by simp [hook]),⟨rfl,finished,watch,fired⟩,?_,?_,sound.held,?_,?_,fun _ _ => rfl⟩
  · intro _
    simp [hook,unhooked]
  · intro other left
    cases left
  · intro waits
    cases waits
  · rintro (waits | left)
    · cases waits
    · cases left

theorem dropped_sound (sound : s.Sound) (stage : s.stage = .dropping) (finished : Finished s.next) : s.dropped.Sound := by
  have placed := sound.placed
  simp only [Placed,stage] at placed
  obtain ⟨unclosed,_,watch,fired⟩ := placed
  have unhooked : s.hooks = 0 := by simpa [stage] using sound.before (by rw [stage]; rfl)
  rcases settled_frame unclosed (finished_idle finished sound) with suspended | closed
  · have closing : s.dropped = {s with stage := .closing,work := .closing} := by simp [dropped,aclose,suspended]
    rw [closing]
    refine ⟨sound.sane,finished_frame finished (by simp),⟨rfl,finished,watch,fired⟩,fun _ => unhooked,?_,sound.held,?_,?_,
      sound.open_ suspended⟩
    · intro other left
      cases left
    · intro waits
      cases waits
    · rintro (waits | left)
      · cases waits
      · cases left
  · have hooked : s.dropped = s.hook := by simp [dropped,aclose,closed]
    have after := hook_sound sound unhooked finished watch fired
    rw [closed_self closed] at after
    exact hooked ▸ after

theorem failed_hooked (sound : s.Sound) (still : s.stage.exit? = none) (failure : Failure) : s.Hooked (.failed failure) := by
  have hooks := sound.before still
  refine ⟨?_,fun same => by cases same⟩
  rw [hooks]
  split <;> decide

theorem Watching.begun (watching : s.Watching) : s.watch = some .pending ∨ s.watch = some .finished :=
  watching.imp_right And.left

theorem cancel_sound (sound : s.Sound) (cancelled : s.cancel = some t) : t.Sound := by
  have placed := sound.placed
  simp only [cancel] at cancelled
  split at cancelled
  · rename_i stage
    cases cancelled
    simp only [Placed,stage] at placed
    obtain ⟨unclosed,asked,watching⟩ := placed
    exact leave_sound sound.core unclosed asked watching.begun (failed_hooked sound (by rw [stage]; rfl) _)
      (fun same => by cases same)
  · rename_i stage
    cases cancelled
    simp only [Placed,stage] at placed
    obtain ⟨closed,finished,watch,_⟩ := placed
    obtain ⟨outcome,done⟩ := finished
    exact leave_sound sound.core (by simp [closed]) (by rw [done]; rfl) (.inr watch) (failed_hooked sound (by rw [stage]; rfl) _)
      (fun same => by cases same)
  · rename_i stage done
    cases cancelled
    exact dropped_sound sound stage ⟨_,done⟩
  · rename_i exit stage
    cases cancelled
    split
    · rename_i watch
      exact unwatch_sound sound stage watch
    · exact sound
  · rename_i exit outcome stage done
    cases cancelled
    simp only [Placed,stage] at placed
    obtain ⟨unclosed,_,watch,unwatched⟩ := placed
    exact shut_sound sound (by rw [stage]; rfl) ⟨outcome,done⟩ unclosed watch unwatched
  all_goals cases cancelled
  all_goals exact sound

-- The wait for a task that raises something else than its cancel.
theorem raised_sound (sound : s.Sound) (stage : s.stage = .settling exit) (finished : Finished s.next)
    (nothing : brought s.next = []) : (s.finish (.failed .error)).Sound := by
  have placed := sound.placed
  simp only [Placed,stage] at placed
  obtain ⟨_,_,watch,unwatched⟩ := placed
  have hooked : s.Hooked (.failed .error) :=
    ⟨(sound.hooked exit (by rw [stage]; rfl)).1,fun same => by cases same⟩
  have after := finish_sound sound finished watch unwatched hooked (fun same => by cases same)
  rw [closed_self (sound.dead finished nothing)] at after
  exact after

theorem wake_sound (sound : s.Sound) (woken : s.wake = some t) : t.Sound := by
  have placed := sound.placed
  simp only [wake] at woken
  split at woken
  case h_1 item stage done =>
    cases woken
    simp only [Placed,stage] at placed
    have ready := sound.ready stage
    simp only [done,brought,ne_eq,List.cons_ne_nil,not_false_eq_true,true_implies] at ready
    have unhooked : s.hooks = 0 := by simpa [stage] using sound.before (by rw [stage]; rfl)
    refine ⟨sound.sane,sound.frame,⟨ready.2,⟨_,done⟩,placed.2.2⟩,fun _ => unhooked,?_,.inl ready.1,?_,fun _ => ⟨ready.1,_,
      done⟩,sound.dead⟩
    · intro exit left
      cases left
    · intro waits
      cases waits
  case h_2 stage done =>
    cases woken
    simp only [Placed,stage] at placed
    have through : s.produced = s.yielded := sound.through (by rw [done]; rfl)
    have unhooked : s.hooks = 0 := by simpa [stage] using sound.before (by rw [stage]; rfl)
    exact leave_sound sound.core placed.1 placed.2.1 placed.2.2.begun ⟨by omega,fun same => by cases same⟩ (fun _ => ⟨through,
      _,done⟩)
  case h_3 failure stage done =>
    cases woken
    simp only [Placed,stage] at placed
    exact leave_sound sound.core placed.1 placed.2.1 placed.2.2.begun (failed_hooked sound (by rw [stage]; rfl) failure)
      (fun same => by cases same)
  case h_4 told stage pending =>
    split at woken
    · rename_i watch
      cases woken
      simp only [Placed,stage] at placed
      have through : s.produced = s.yielded := sound.through (by rw [pending]; rfl)
      have unhooked : s.hooks = 0 := by simpa [stage] using sound.before (by rw [stage]; rfl)
      have fired : s.fired = true := by
        rcases placed.2.2 with waits | ⟨_,fired⟩
        · rw [watch] at waits
          cases waits
        · exact fired
      refine ⟨sound.sane,?_,⟨placed.1,.inl rfl,watch,fired⟩,fun _ => unhooked,?_,.inl through,?_,?_,?_⟩
      · exact ⟨fun _ => ⟨true,rfl⟩,fun _ => sound.frame.mpr ⟨told,pending⟩⟩
      · intro exit left
        cases left
      · intro waits
        cases waits
      · rintro (waits | left)
        · cases waits
        · cases left
      · rintro ⟨outcome,done⟩
        cases done
    · cases woken
  case h_5 stage done | h_6 stage done =>
    cases woken
    exact dropped_sound sound stage ⟨_,done⟩
  case h_7 stage done | h_8 stage done =>
    cases woken
    simp only [Placed,stage] at placed
    exact leave_sound sound.core placed.1 (by rw [done]; rfl) (.inr placed.2.2.1) (failed_hooked sound (by rw [stage]; rfl) _)
      (fun same => by cases same)
  case h_9 exit stage =>
    split at woken
    · rename_i watch
      cases woken
      exact unwatch_sound sound stage watch
    · cases woken
  case h_10 exit item stage done | h_11 exit stage done =>
    cases woken
    simp only [Placed,stage] at placed
    exact shut_sound sound (by rw [stage]; rfl) ⟨_,done⟩ placed.1 placed.2.2.1 placed.2.2.2
  case h_12 exit stage done | h_13 exit stage done =>
    cases woken
    exact raised_sound sound stage ⟨_,done⟩ (by rw [done]; rfl)
  case h_14 =>
    cases woken

theorem works_placed (sound : s.Sound) {told : Bool} (pending : s.next = some (.pending told)) {frame : Frame}
    (unclosed : frame ≠ .closing) (outcome : Outcome Item) (produced : List Item) :
    ({s with work := frame,next := some (.done outcome),produced := produced} : Stream Item).Placed := by
  have placed := sound.placed
  have finished : Finished (some (.done outcome) : Option (Task Item)) := ⟨outcome,rfl⟩
  have still := finished_still pending
  cases stage : s.stage with
  | new =>
      simp only [Placed,stage,pending] at placed
      cases placed.2.1
  | waiting =>
      simp only [Placed,stage] at placed ⊢
      exact ⟨unclosed,rfl,placed.2.2⟩
  | dropping =>
      simp only [Placed,stage] at placed ⊢
      exact ⟨unclosed,.inr finished,placed.2.2⟩
  | unwatching exit =>
      simp only [Placed,stage] at placed ⊢
      exact ⟨unclosed,rfl,placed.2.2⟩
  | settling exit =>
      simp only [Placed,stage] at placed ⊢
      exact ⟨unclosed,.inr finished,placed.2.2⟩
  | yielding | closing | aborting | shutting exit =>
      simp only [Placed,stage] at placed
      exact absurd placed.2.1 still
  | ended exit =>
      simp only [Placed,stage] at placed
      rcases placed.2 with ⟨_,done,_⟩ | ⟨_,none_,_⟩
      · exact absurd done still
      · rw [pending] at none_
        cases none_

theorem works_sound (sound : s.Sound) (running : s.work = .running) (outcome : Outcome Item) : (s.works outcome).Sound := by
  obtain ⟨told,pending⟩ := sound.frame.mp running
  have even : s.produced = s.yielded := sound.through (by rw [pending]; rfl)
  have finished : Finished (some (.done outcome) : Option (Task Item)) := ⟨outcome,rfl⟩
  have level : s.stage = .yielding ∨ s.stage.exit? = some .returned → False := fun there =>
    absurd (sound.level there).2 (finished_still pending)
  have closed : brought (some (.done outcome)) = [] → s.works outcome = {s with work := .closed,next := some (.done outcome)} →
      (s.works outcome).Sound := by
    intro nothing shape
    rw [shape]
    refine ⟨sound.sane,finished_frame finished (by simp),works_placed sound pending (by decide) outcome s.produced,sound.before,
      sound.hooked,.inl even,?_,fun there => (level there).elim,fun _ _ => rfl⟩
    intro waits
    exact ⟨by rw [nothing,List.append_nil]; exact even,fun some_ => absurd nothing some_⟩
  cases outcome with
  | stopped | failed failure => exact closed rfl rfl
  | value item =>
      have more : s.produced ++ [item] = s.yielded ++ [item] := by rw [even]
      exact ⟨sound.sane,finished_frame finished (by simp [works]),
        works_placed sound pending (by decide) (.value item) (s.produced ++ [item]),
        sound.before,sound.hooked,.inr more,fun _ => ⟨more,fun _ => rfl⟩,fun there => (level there).elim,
        fun _ nothing => absurd nothing (by simp [works,brought])⟩

theorem pull_sound (core : s.Core) (suspended : s.work = .suspended) (even : s.produced = s.yielded) (hooks : s.hooks = 0)
    (watching : s.Watching) : s.pull.Sound := by
  refine ⟨?_,?_,⟨by simp [pull],rfl,watching⟩,fun _ => hooks,?_,.inl even,?_,?_,?_⟩
  · simp [pull,core.sane,suspended]
  · exact ⟨fun _ => ⟨false,rfl⟩,fun _ => rfl⟩
  · intro exit left
    cases left
  · intro _
    exact ⟨by simpa [pull,brought] using even,fun some_ => absurd rfl some_⟩
  · rintro (waits | left)
    · cases waits
    · cases left
  · rintro ⟨outcome,done⟩
    cases done

theorem close_sound {watchable : Bool} (sound : s.Sound) (closed : s.step watchable .close = some t) : t.Sound := by
  have placed := sound.placed
  simp only [step] at closed
  split at closed
  · rename_i stage
    cases closed
    simp only [Placed,stage] at placed
    obtain ⟨suspended,none_,watch,unwatched⟩ := placed
    have unhooked : s.hooks = 0 := by simpa [stage] using sound.before (by rw [stage]; rfl)
    refine ⟨sound.sane,sound.frame,⟨unwatched,.inr ⟨rfl,none_,watch⟩⟩,?_,?_,sound.held,?_,?_,sound.dead⟩
    · intro open_
      cases open_
    · intro exit left
      cases left
      exact ⟨by simp [finish,unhooked],fun same => by cases same⟩
    · intro waits
      cases waits
    · rintro (waits | left)
      · cases waits
      · cases left
  · rename_i stage
    cases closed
    simp only [Placed,stage] at placed
    obtain ⟨suspended,⟨outcome,done⟩,watching⟩ := placed
    have unhooked : s.hooks = 0 := by simpa [stage] using sound.before (by rw [stage]; rfl)
    exact leave_sound sound.core (by simp [suspended]) (by rw [done]; rfl) watching.begun ⟨by omega,fun same => by cases same⟩
      (fun same => by cases same)
  · cases closed

theorem closes_sound {watchable : Bool} {failure : Option Failure} (sound : s.Sound)
    (closed : s.step watchable (.closes failure) = some t) : t.Sound := by
  have placed := sound.placed
  simp only [step] at closed
  split at closed
  · rename_i stage
    simp only [Placed,stage] at placed
    obtain ⟨closing,finished,watch,fired⟩ := placed
    have unhooked : s.hooks = 0 := by simpa [stage] using sound.before (by rw [stage]; rfl)
    cases failure with
    | none =>
        cases closed
        exact hook_sound sound unhooked finished watch fired
    | some failure =>
        cases closed
        have core : ({s with work := .closed} : Stream Item).Core :=
          ⟨sound.sane,finished_frame finished (by simp),sound.held,fun _ _ => rfl⟩
        obtain ⟨outcome,done⟩ := finished
        exact leave_sound core (by simp) (by simp [done]) (.inr watch) (failed_hooked sound (by rw [stage]; rfl) failure)
          (fun same => by cases same)
  · rename_i exit stage
    cases closed
    simp only [Placed,stage] at placed
    obtain ⟨closing,finished,watch,unwatched⟩ := placed
    have hooked := sound.hooked exit (by rw [stage]; rfl)
    have level := fun same : exit = .returned => sound.level (.inr (by rw [stage,same]; rfl))
    cases failure with
    | none => exact finish_sound sound finished watch unwatched hooked level
    | some failure => exact finish_sound sound finished watch unwatched ⟨hooked.1,
      fun same => by cases same⟩ (fun same => by cases same)
  · cases closed

theorem hooked_sound {watchable : Bool} {failure : Option Failure} (sound : s.Sound)
    (hooked : s.step watchable (.hooked failure) = some t) : t.Sound := by
  have placed := sound.placed
  simp only [step] at hooked
  split at hooked
  · rename_i stage
    simp only [Placed,stage] at placed
    obtain ⟨closed,⟨outcome,done⟩,watch,fired⟩ := placed
    have once : s.hooks = 1 := by simpa [stage] using sound.before (by rw [stage]; rfl)
    cases failure with
    | none =>
        cases hooked
        exact leave_sound sound.core (by simp [closed]) (by simp [done]) (.inr watch) ⟨by omega,fun _ => ⟨once,fired⟩⟩
          (fun same => by cases same)
    | some failure =>
        cases hooked
        exact leave_sound sound.core (by simp [closed]) (by simp [done]) (.inr watch) ⟨by omega,fun same => by cases same⟩
          (fun same => by cases same)
  · cases hooked

theorem fire_sound {watchable : Bool} (sound : s.Sound) (fired : s.step watchable .fire = some t) : t.Sound := by
  simp only [step] at fired
  split at fired
  · cases fired
    refine ⟨sound.sane,sound.frame,?_,sound.before,?_,sound.held,sound.ready,sound.level,sound.dead⟩
    · have placed := sound.placed
      cases stage : s.stage <;> simp only [Placed,stage,Watching] at placed ⊢ <;> grind
    · intro exit left
      exact ⟨(sound.hooked exit left).1,fun same => ⟨((sound.hooked exit left).2 same).1,rfl⟩⟩
  · cases fired

theorem watchEnds_sound {watchable : Bool} (sound : s.Sound) (ended : s.step watchable .watchEnds = some t) : t.Sound := by
  have placed := sound.placed
  have after :
    (s.watch = some .pending ∧ s.fired = true ∨ s.watch = some .cancelling) ∧ t = {s with watch := some .finished} := by
    simp only [step] at ended
    split at ended
    · rename_i watch
      split at ended
      · rename_i fired
        cases ended
        exact ⟨.inl ⟨watch,fired⟩,rfl⟩
      · cases ended
    · rename_i watch
      cases ended
      exact ⟨.inr watch,rfl⟩
    · cases ended
  obtain ⟨begun,rfl⟩ := after
  refine ⟨sound.sane,sound.frame,?_,sound.before,sound.hooked,sound.held,sound.ready,sound.level,sound.dead⟩
  cases stage : s.stage <;> simp only [Placed,stage,Watching] at placed ⊢ <;> grind

theorem step_sound {watchable : Bool} {action : Action Item} (sound : s.Sound) (taken : s.step watchable action = some t) :
    t.Sound := by
  cases action with
  | pull =>
      have placed := sound.placed
      simp only [step] at taken
      split at taken
      · rename_i stage
        cases taken
        simp only [Placed,stage] at placed
        have unhooked : s.hooks = 0 := by simpa [stage] using sound.before (by rw [stage]; rfl)
        have core : ({s with watched := watchable,watch := some .pending} : Stream Item).Core :=
          ⟨sound.sane,sound.frame,sound.held,sound.dead⟩
        exact pull_sound core placed.1 (sound.through (by rw [placed.2.1]; rfl)) unhooked (.inl rfl)
      · rename_i stage
        cases taken
        simp only [Placed,stage] at placed
        have unhooked : s.hooks = 0 := by simpa [stage] using sound.before (by rw [stage]; rfl)
        exact pull_sound sound.core placed.1 (sound.level (.inl stage)).1 unhooked placed.2.2
      · cases taken
  | close => exact close_sound sound taken
  | cancel => exact cancel_sound sound taken
  | fire => exact fire_sound sound taken
  | watchEnds => exact watchEnds_sound sound taken
  | works outcome =>
      simp only [step] at taken
      split at taken
      · rename_i running
        cases taken
        exact works_sound sound running outcome
      · cases taken
  | closes failure => exact closes_sound sound taken
  | hooked failure => exact hooked_sound sound taken
  | wake => exact wake_sound sound taken

def rank : Stage → Nat
  | .waiting => 7
  | .dropping => 6
  | .closing => 5
  | .aborting => 4
  | .unwatching _ => 3
  | .settling _ => 2
  | .shutting _ => 1
  | .new | .yielding | .ended _ => 0

def measure (s : Stream Item) : Nat :=
  let task := match s.next with
    | some (.pending _) => 1
    | _ => 0
  let watch := match s.watch with
    | some .finished => 0
    | _ => 1
  3 * rank s.stage + task + watch

-- At rest, it is for the consumer to go on.
def Rests (s : Stream Item) : Prop := s.stage = .new ∨ s.stage = .yielding ∨ ∃ exit, s.stage = .ended exit

theorem works_lowers (sound : s.Sound) (running : s.work = .running) (outcome : Outcome Item) :
    (s.works outcome).measure < s.measure := by
  obtain ⟨told,pending⟩ := sound.frame.mp running
  cases outcome with
  | value item => simp [measure,works,pending]
  | stopped | failed failure => simp [measure,works,pending]

theorem leave_measure (exit : Exit) : (s.leave exit).measure ≤ 11 := by
  simp only [measure,leave,rank]
  split <;> split <;> omega

theorem shut_measure (done : Finished s.next) (watch : s.watch = some .finished) (exit : Exit) : (s.shut exit).measure ≤ 3 := by
  obtain ⟨outcome,done⟩ := done
  unfold shut aclose
  split <;> simp [measure,rank,finish,done,watch]

theorem dropped_measure (done : Finished s.next) (watch : s.watch = some .finished) : s.dropped.measure ≤ 15 := by
  obtain ⟨outcome,done⟩ := done
  unfold dropped aclose
  split
  · simp [measure,rank,done,watch]
  · simp [measure,rank,hook,done,watch]
  · exact Nat.le_trans (leave_measure _) (by decide)
  · exact Nat.le_trans (leave_measure _) (by decide)

theorem unwatch_measure (watch : s.watch = some .finished) (asked : s.next.isSome = true) (exit : Exit) :
    (s.unwatch exit).measure ≤ 7 := by
  obtain ⟨task,next⟩ := Option.isSome_iff_exists.mp asked
  cases task with
  | pending told => simp [unwatch,measure,rank,next,watch]
  | done outcome =>
      have small := shut_measure (s := {s with watched := false}) ⟨outcome,next⟩ watch exit
      have shut_ : s.unwatch exit = ({s with watched := false} : Stream Item).shut exit := by simp [unwatch,next]
      rw [shut_]
      omega

theorem wake_lowers (sound : s.Sound) (woken : s.wake = some t) : t.measure < s.measure := by
  have placed := sound.placed
  simp only [wake] at woken
  split at woken
  case h_1 item stage done =>
    cases woken
    simp only [measure,stage,rank,done]
    split <;> omega
  case h_2 stage done | h_3 stage done =>
    cases woken
    have large : 21 ≤ s.measure := by simp only [measure,stage,rank]; omega
    exact Nat.lt_of_le_of_lt (leave_measure _) (by omega)
  case h_4 told stage pending =>
    split at woken <;> cases woken
    simp only [measure,stage,rank,pending]
    omega
  case h_5 stage done | h_6 stage done =>
    cases woken
    simp only [Placed,stage] at placed
    have large : 18 ≤ s.measure := by simp only [measure,stage,rank]; omega
    exact Nat.lt_of_le_of_lt (dropped_measure ⟨_,done⟩ placed.2.2.1) (by omega)
  case h_7 stage done | h_8 stage done =>
    cases woken
    have large : 18 ≤ s.measure := by simp only [measure,stage,rank]; omega
    exact Nat.lt_of_le_of_lt (leave_measure _) (by omega)
  case h_9 exit stage =>
    split at woken
    · rename_i watch
      cases woken
      simp only [Placed,stage] at placed
      have large : 9 ≤ s.measure := by simp only [measure,stage,rank]; omega
      exact Nat.lt_of_le_of_lt (unwatch_measure watch placed.2.1 exit) (by omega)
    · cases woken
  case h_10 exit item stage done | h_11 exit stage done =>
    cases woken
    simp only [Placed,stage] at placed
    have large : 6 ≤ s.measure := by simp only [measure,stage,rank]; omega
    exact Nat.lt_of_le_of_lt (shut_measure ⟨_,done⟩ placed.2.2.1 exit) (by omega)
  case h_12 exit stage done | h_13 exit stage done =>
    cases woken
    simp only [Placed,stage] at placed
    simp [measure,rank,finish,stage,done,placed.2.2.1]
  case h_14 =>
    cases woken

theorem lowers {watchable : Bool} {action : Action Item} (sound : s.Sound) (own : action.own = true)
    (taken : s.step watchable action = some t) : t.measure < s.measure := by
  have placed := sound.placed
  cases action with
  | pull | close | cancel | fire => cases own
  | wake => exact wake_lowers sound taken
  | watchEnds =>
      simp only [step] at taken
      split at taken
      · rename_i watch
        split at taken <;> cases taken
        simp [measure,watch]
      · rename_i watch
        cases taken
        simp [measure,watch]
      · cases taken
  | works outcome =>
      simp only [step] at taken
      split at taken
      · rename_i running
        cases taken
        exact works_lowers sound running outcome
      · cases taken
  | closes failure =>
      simp only [step] at taken
      split at taken
      · rename_i stage
        simp only [Placed,stage] at placed
        obtain ⟨_,⟨outcome,next⟩,watch,_⟩ := placed
        have large : 15 ≤ s.measure := by simp only [measure,stage,rank]; omega
        cases failure with
        | none =>
            cases taken
            simp [measure,rank,hook,stage,next,watch]
        | some failure =>
            cases taken
            exact Nat.lt_of_le_of_lt (leave_measure _) (by omega)
      · rename_i exit stage
        simp only [Placed,stage] at placed
        obtain ⟨_,⟨outcome,next⟩,watch,_⟩ := placed
        cases taken
        simp [measure,rank,finish,stage,next,watch]
      · cases taken
  | hooked failure =>
      simp only [step] at taken
      split at taken
      · rename_i stage
        cases taken
        have large : 12 ≤ s.measure := by simp only [measure,stage,rank]; omega
        exact Nat.lt_of_le_of_lt (leave_measure _) (by omega)
      · cases taken

theorem works_moves {watchable : Bool} (sound : s.Sound) {told : Bool} (pending : s.next = some (.pending told)) :
    ∃ action t, action.own = true ∧ s.step watchable action = some t :=
  ⟨.works .stopped,s.works .stopped,rfl,if_pos (sound.frame.mpr ⟨told,pending⟩)⟩

theorem wake_moves {watchable : Bool} {outcome : Outcome Item} (next : s.next = some (.done outcome))
    (stage : s.stage = .waiting ∨ s.stage = .dropping ∨ ∃ exit, s.stage = .settling exit) :
    ∃ action t, action.own = true ∧ s.step watchable action = some t := by
  have woken : ∃ t, s.wake = some t := by
    rcases stage with stage | stage | ⟨exit,stage⟩ <;> rcases outcome with item | _ | failure <;> try cases failure
    all_goals exact ⟨_,by simp only [wake,stage,next]; rfl⟩
  obtain ⟨t,woken⟩ := woken
  exact ⟨.wake,t,rfl,woken⟩

theorem moves {watchable : Bool} (sound : s.Sound) (busy : ¬s.Rests) :
    ∃ action t, action.own = true ∧ s.step watchable action = some t := by
  have placed := sound.placed
  cases stage : s.stage with
  | new => exact absurd (.inl stage) busy
  | yielding => exact absurd (.inr (.inl stage)) busy
  | ended exit => exact absurd (.inr (.inr ⟨exit,stage⟩)) busy
  | waiting =>
      simp only [Placed,stage] at placed
      obtain ⟨task,next⟩ := Option.isSome_iff_exists.mp placed.2.1
      cases task with
      | pending told => exact works_moves sound next
      | done outcome => exact wake_moves next (.inl stage)
  | dropping =>
      simp only [Placed,stage] at placed
      obtain ⟨_,told,_⟩ := placed
      rcases told with pending | ⟨outcome,next⟩
      · exact works_moves sound pending
      · exact wake_moves next (.inr (.inl stage))
  | closing => exact ⟨.closes none,_,rfl,by simp only [step,stage]; rfl⟩
  | aborting => exact ⟨.hooked none,_,rfl,by simp only [step,stage]; rfl⟩
  | unwatching exit =>
      simp only [Placed,stage] at placed
      obtain ⟨_,_,cancelling | watch⟩ := placed
      · exact ⟨.watchEnds,_,rfl,by simp only [step,cancelling]; rfl⟩
      · exact ⟨.wake,s.unwatch exit,rfl,by simp only [step,wake,stage,watch,if_true]⟩
  | settling exit =>
      simp only [Placed,stage] at placed
      obtain ⟨_,told,_⟩ := placed
      rcases told with pending | ⟨outcome,next⟩
      · exact works_moves sound pending
      · exact wake_moves next (.inr (.inr ⟨exit,stage⟩))
  | shutting exit => exact ⟨.closes none,_,rfl,by simp only [step,stage]; rfl⟩

theorem aclose_left {during : Stage} {after failed : Stream Item → Stream Item} (waits : during.exit?.isSome = true)
    (ends : ∀ s, (after s).stage.exit?.isSome = true) (fails : ∀ s, (failed s).stage.exit?.isSome = true) :
    (s.aclose during after failed).stage.exit?.isSome = true := by
  unfold aclose
  split
  · exact waits
  · exact ends s
  · exact fails _
  · exact fails _

theorem shut_left (exit : Exit) : (s.shut exit).stage.exit?.isSome = true := aclose_left rfl (fun _ => rfl) (fun _ => rfl)

theorem unwatch_left (exit : Exit) : (s.unwatch exit).stage.exit?.isSome = true := by
  simp only [unwatch]
  split
  · rfl
  · exact shut_left exit

-- What has come to `finally` stays in it.
theorem left_kept {watchable : Bool} {action : Action Item} (left : s.stage.exit?.isSome = true)
    (taken : s.step watchable action = some t) : t.stage.exit?.isSome = true := by
  cases action with
  | pull | close =>
      simp only [step] at taken
      split at taken
      · rename_i stage
        rw [stage] at left
        cases left
      · rename_i stage
        rw [stage] at left
        cases left
      · cases taken
  | cancel =>
      simp only [step,cancel] at taken
      split at taken <;> cases taken
      · rfl
      · rfl
      · rename_i stage _
        rw [stage] at left
        cases left
      · split
        · exact unwatch_left _
        · exact left
      · exact shut_left _
      all_goals exact left
  | fire =>
      simp only [step] at taken
      split at taken <;> cases taken
      exact left
  | watchEnds =>
      simp only [step] at taken
      split at taken
      · split at taken <;> cases taken
        exact left
      · cases taken
        exact left
      · cases taken
  | works outcome =>
      simp only [step] at taken
      split at taken <;> cases taken
      cases outcome <;> exact left
  | closes failure =>
      simp only [step] at taken
      split at taken
      · rename_i stage
        rw [stage] at left
        cases left
      · cases taken
        rfl
      · cases taken
  | hooked failure =>
      simp only [step] at taken
      split at taken <;> cases taken
      rfl
  | wake =>
      simp only [step,wake] at taken
      split at taken
      case h_9 exit stage =>
        split at taken <;> cases taken
        exact unwatch_left _
      case h_10 | h_11 =>
        cases taken
        exact shut_left _
      case h_12 | h_13 =>
        cases taken
        rfl
      case h_14 =>
        cases taken
      all_goals
        rename_i stage _
        rw [stage] at left
        cases left

theorem measure_le (s : Stream Item) : s.measure ≤ 23 := by
  have stage : rank s.stage ≤ 7 := by cases s.stage <;> simp [rank]
  simp only [measure]
  split <;> split <;> omega

-- However the generator, the client, the consumer and its cancels take turns: no call of
-- `aclose` or `__anext__` meets one that is going on, items go on in order and at most the
-- last is lost, what has ended leaves nothing behind, and only the consumer can keep it.
theorem stream_guarded {watchable : Bool} {actions : List (Action Item)}
    (ran : execute (step watchable) start actions = some s) :
    s.faulty = false ∧ (s.produced = s.yielded ∨ ∃ item, s.produced = s.yielded ++ [item]) ∧
    (∀ exit, s.stage = .ended exit → s.watched = false ∧
      (s.next = none ∨ s.work = .closed ∧ Finished s.next ∧ s.watch = some .finished) ∧
      (exit = .returned → s.produced = s.yielded) ∧ (exit = .disconnected → s.hooks = 1 ∧ s.fired = true)) ∧
    ∀ rest t, (∀ action ∈ rest, action.own = true) → execute (step watchable) s rest = some t →
      rest.length ≤ 23 ∧ ((∀ action, action.own = true → t.step watchable action = none) →
        t.Rests ∧ (s.stage.exit?.isSome = true → ∃ exit, t.stage = .ended exit)) := by
  have sound : s.Sound := execute_invariant (fun _ _ _ sound taken => step_sound sound taken) start_sound ran
  refine ⟨sound.sane,?_,?_,?_⟩
  · rcases sound.held with same | more
    · exact .inl same
    · unfold brought at more
      split at more
      · exact .inr ⟨_,more⟩
      · exact .inl (by rw [more,List.append_nil])
  · intro exit stage
    have placed := sound.placed
    simp only [Placed,stage] at placed
    refine ⟨placed.1,?_,?_,?_⟩
    · rcases placed.2 with begun | ⟨_,none_,_⟩
      · exact .inr begun
      · exact .inl none_
    · intro same
      exact (sound.level (.inr (by rw [stage,same]; rfl))).1
    · intro same
      exact (sound.hooked exit (by rw [stage]; rfl)).2 same
  · intro rest t own after
    have spent : rest.length + t.measure ≤ s.measure := by
      refine execute_spends measure ?_ ?_ sound own after
      · exact fun _ _ _ sound taken => step_sound sound taken
      · exact fun _ _ _ sound own taken => lowers sound own taken
    have most := measure_le s
    refine ⟨by omega,fun stuck => ?_⟩
    have last : t.Sound := execute_invariant (fun _ _ _ sound taken => step_sound sound taken) sound after
    have rests : t.Rests := by
      by_contra busy
      obtain ⟨action,u,mine,taken⟩ := show ∃ action u, action.own = true ∧ t.step watchable action = some u from moves last busy
      rw [stuck action mine] at taken
      cases taken
    refine ⟨rests,fun left => ?_⟩
    have kept : t.stage.exit?.isSome = true :=
      execute_invariant (fun _ _ _ left taken => left_kept left taken) left after
    rcases rests with stage | stage | ended
    · rw [stage] at kept
      cases kept
    · rw [stage] at kept
      cases kept
    · exact ended

-- A disconnect while the second item is awaited.
theorem stream_guarded_left : ∃ s : Stream Nat, execute (step true) start
    [.pull,.works (.value 1),.wake,.pull,.fire,.watchEnds,.wake,.works (.failed .cancelled),.wake,.hooked none] = some s ∧
      s.faulty = false ∧ s.yielded = [1] ∧ s.stage = .unwatching .disconnected := by
  refine ⟨_,rfl,?_,rfl,rfl⟩
  exact (stream_guarded (show execute (step true) (start : Stream Nat) [.pull,.works (.value 1),.wake,.pull,.fire,.watchEnds,
    .wake,.works (.failed .cancelled),.wake,.hooked none] = some _ from rfl)).1

end
end
end Stream

end Modelship.Infer.Cancellable

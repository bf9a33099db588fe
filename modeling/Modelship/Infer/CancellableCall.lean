import Modelship.Infer.Cancellable

namespace Modelship.Infer.Cancellable
open Foundation

inductive Leaving (Result : Type) where
  | value (result : Result)
  | failed (failure : Failure)
  | disconnected

-- Where `run_cancellable` stands: its waits are those of the generator, without a `yield`
-- and without `aclose`.
inductive Place (Result : Type) where
  | new
  | waiting
  | dropping
  | aborting
  | unwatching (exit : Leaving Result)
  | settling (exit : Leaving Result)
  | ended (exit : Leaving Result)

structure Call (Result : Type) where
  place : Place Result
  task : Option (Task Result)
  watch : Option Watch
  watched : Bool
  fired : Bool
  hooks : Nat
  cancels : Nat

inductive Move (Result : Type) where
  | begin
  | cancel
  | fire
  | watchEnds
  | works (outcome : Except Failure Result)
  | hooked (failure : Option Failure)
  | wake

-- What goes on without its caller, a cancel or the client.
def Move.own {Result : Type} : Move Result → Bool
  | .begin | .cancel | .fire => false
  | .watchEnds | .works _ | .hooked _ | .wake => true

namespace Call
section
variable {Result : Type}

def start : Call Result := ⟨.new,none,none,false,false,0,0⟩

def leave (c : Call Result) (exit : Leaving Result) : Call Result :=
  {c with place := .unwatching exit,watch := c.watch.map Watch.cancel}

def hook (c : Call Result) : Call Result := {c with place := .aborting,hooks := c.hooks + 1}

-- The last line of `finally`.
def unwatch (c : Call Result) (exit : Leaving Result) : Call Result := {c with place := .ended exit,watched := false}

def settle (c : Call Result) (exit : Leaving Result) : Call Result := match c.task with
  | some (.pending _) => {c with place := .settling exit,task := some (.pending true)}
  | _ => c.unwatch exit

def outcome : Except Failure Result → Outcome Result
  | .ok result => .value result
  | .error failure => .failed failure

def cancel (c : Call Result) : Option (Call Result) :=
  let c := {c with cancels := c.cancels + 1}
  match c.place,c.task with
  | .new,_ => some {c with place := .ended (.failed .cancelled)}
  | .waiting,_ | .aborting,_ => some (c.leave (.failed .cancelled))
  | .dropping,some (.done _) => some c.hook
  | .unwatching exit,_ => some (if c.watch = some .finished then c.settle exit else c)
  | .settling exit,some (.done _) => some (c.unwatch exit)
  | .dropping,_ | .settling _,_ => some c
  | .ended _,_ => none

-- An error of the work in `settling` leaves `finally` before its last line.
def wake (c : Call Result) : Option (Call Result) := match c.place,c.task with
  | .waiting,some (.done (.value result)) => some (c.leave (.value result))
  | .waiting,some (.done (.failed failure)) => some (c.leave (.failed failure))
  | .waiting,some (.pending _) =>
    if c.watch = some .finished then some {c with place := .dropping,task := some (.pending true)} else none
  | .dropping,some (.done (.value _)) | .dropping,some (.done (.failed .cancelled)) => some c.hook
  | .dropping,some (.done (.failed .error)) => some (c.leave (.failed .error))
  | .unwatching exit,_ => if c.watch = some .finished then some (c.settle exit) else none
  | .settling exit,some (.done (.value _)) | .settling exit,some (.done (.failed .cancelled)) => some (c.unwatch exit)
  | .settling _,some (.done (.failed .error)) => some {c with place := .ended (.failed .error)}
  | _,_ => none

variable (watchable : Bool)

def step (c : Call Result) : Move Result → Option (Call Result)
  | .begin => match c.place with
    | .new => some {c with place := .waiting,task := some (.pending false),watch := some .pending,watched := watchable}
    | _ => none
  | .cancel => c.cancel
  | .fire => if c.watched then some {c with fired := true} else none
  | .watchEnds => match c.watch with
    | some .pending => if c.fired then some {c with watch := some .finished} else none
    | some .cancelling => some {c with watch := some .finished}
    | _ => none
  | .works result => match c.task with
    | some (.pending _) => some {c with task := some (.done (outcome result))}
    | _ => none
  | .hooked failure => match c.place with
    | .aborting => some (c.leave (match failure with
      | none => .disconnected
      | some failure => .failed failure))
    | _ => none
  | .wake => c.wake

def leaving? : Place Result → Option (Leaving Result)
  | .unwatching exit | .settling exit | .ended exit => some exit
  | _ => none

def Placed (c : Call Result) : Prop := match c.place with
  | .new => c.task = none ∧ c.watch = none ∧ c.watched = false
  | .waiting => c.task.isSome ∧ (c.watch = some .pending ∨ c.watch = some .finished ∧ c.fired = true)
  | .dropping => Told c.task ∧ c.watch = some .finished ∧ c.fired = true
  | .aborting => Finished c.task ∧ c.watch = some .finished ∧ c.fired = true
  | .unwatching _ => (Finished c.task ∨ c.task.isSome ∧ 0 < c.cancels) ∧ (c.watch = some .cancelling ∨ c.watch = some .finished)
  | .settling _ => Told c.task ∧ 0 < c.cancels ∧ c.watch = some .finished
  | .ended _ => c.task = none ∧ c.watch = none ∧ c.watched = false ∨ Finished c.task ∧ c.watch = some .finished ∧
      (c.watched = true → 0 < c.cancels ∧ c.task = some (.done (.failed .error)))

-- What `finally` was entered with.
def Brings (c : Call Result) : Leaving Result → Prop
  | .value result => c.task = some (.done (.value result)) ∧ c.hooks = 0
  | .failed _ => c.hooks ≤ 1
  | .disconnected => Finished c.task ∧ c.hooks = 1 ∧ c.fired = true

structure Sound (c : Call Result) : Prop where
  placed : c.Placed
  before : leaving? c.place = none → c.hooks = match c.place with
    | .aborting => 1
    | _ => 0
  brings : ∀ exit, leaving? c.place = some exit → c.Brings exit
  going : c.task ≠ some (.done .stopped)

theorem start_sound : (start : Call Result).Sound := by
  refine ⟨⟨rfl,rfl,rfl⟩,fun _ => rfl,?_,?_⟩
  · intro exit left
    cases left
  · intro stopped
    cases stopped

section
variable {c d : Call Result} {exit : Leaving Result}

theorem leave_sound (sound : c.Sound) (task : Finished c.task ∨ c.task.isSome ∧ 0 < c.cancels)
    (watch : c.watch = some .pending ∨ c.watch = some .finished) (brings : c.Brings exit) : (c.leave exit).Sound := by
  refine ⟨⟨task,?_⟩,?_,?_,sound.going⟩
  · rcases watch with waits | finished
    · exact .inl (by simp [leave,waits,Watch.cancel])
    · exact .inr (by simp [leave,finished,Watch.cancel])
  · intro open_
    cases open_
  · intro other same
    cases same
    cases exit with
    | value result | failed failure | disconnected => exact brings

theorem unwatch_sound (sound : c.Sound) (task : Finished c.task) (watch : c.watch = some .finished)
    (left : leaving? c.place = some exit) : (c.unwatch exit).Sound := by
  have brings := sound.brings exit left
  refine ⟨.inr ⟨task,watch,fun watched => by cases watched⟩,?_,?_,sound.going⟩
  · intro open_
    cases open_
  · intro other same
    cases same
    cases exit with
    | value result | failed failure | disconnected => exact brings

theorem settle_sound (sound : c.Sound) (place : c.place = .unwatching exit) (watch : c.watch = some .finished) :
    (c.settle exit).Sound := by
  have placed := sound.placed
  simp only [Placed,place] at placed
  have left : leaving? c.place = some exit := by rw [place,leaving?]
  have brings := sound.brings exit left
  unfold settle
  split
  · rename_i told pending
    have still : ¬Finished c.task := by
      rintro ⟨outcome,done⟩
      rw [pending] at done
      cases done
    have cancelled := (placed.1.resolve_left still).2
    refine ⟨⟨.inl rfl,cancelled,watch⟩,?_,?_,fun stopped => by cases stopped⟩
    · intro open_
      cases open_
    · intro other same
      cases same
      cases exit with
      | value result =>
          rw [Brings,pending] at brings
          cases brings.1
      | failed failure => exact brings
      | disconnected => exact absurd brings.1 still
  · rename_i other
    refine unwatch_sound sound ?_ watch left
    rcases placed.1 with finished | ⟨asked,_⟩
    · exact finished
    · obtain ⟨task,there⟩ := Option.isSome_iff_exists.mp asked
      cases task with
      | pending told => exact absurd there (other told)
      | done outcome => exact ⟨outcome,there⟩

theorem hook_sound (sound : c.Sound) (unhooked : c.hooks = 0) (task : Finished c.task) (watch : c.watch = some .finished)
    (fired : c.fired = true) : c.hook.Sound := by
  refine ⟨⟨task,watch,fired⟩,?_,?_,sound.going⟩
  · intro _
    simp [hook,unhooked]
  · intro other left
    cases left

theorem failed_brings (sound : c.Sound) (still : leaving? c.place = none) (failure : Failure) : c.Brings (.failed failure) := by
  have hooks := sound.before still
  rw [Brings,hooks]
  split <;> decide

theorem still_place {task : Option (Task Result)} {told : Bool} (pending : task = some (.pending told)) : ¬Finished task := by
  rintro ⟨outcome,done⟩
  rw [pending] at done
  cases done

-- One more cancel from outside.
theorem counted_sound (sound : c.Sound) : ({c with cancels := c.cancels + 1} : Call Result).Sound := by
  refine ⟨?_,sound.before,?_,sound.going⟩
  · have placed := sound.placed
    cases place : c.place <;> simp only [Placed,place] at placed ⊢ <;> grind
  · intro exit left
    have brings := sound.brings exit left
    cases exit with
    | value result | failed failure | disconnected => exact brings

theorem cancel_sound (sound : c.Sound) (cancelled : c.cancel = some d) : d.Sound := by
  have counted := counted_sound sound
  have placed := sound.placed
  simp only [cancel] at cancelled
  split at cancelled
  case h_1 place =>
    cases cancelled
    have hooks : c.hooks = 0 := by simpa [place] using sound.before (by rw [place]; rfl)
    simp only [Placed,place] at placed
    refine ⟨.inl placed,(fun open_ => by cases open_),?_,sound.going⟩
    intro exit same
    cases same
    simp [Brings,hooks]
  case h_2 place =>
    cases cancelled
    simp only [Placed,place] at placed
    exact leave_sound counted (.inr ⟨placed.1,Nat.succ_pos _⟩) (placed.2.imp_right And.left)
      (failed_brings counted (by simp only [place]; rfl) .cancelled)
  case h_3 place =>
    cases cancelled
    simp only [Placed,place] at placed
    exact leave_sound counted (.inl placed.1) (.inr placed.2.1) (failed_brings counted (by simp only [place]; rfl) .cancelled)
  case h_4 outcome place done =>
    cases cancelled
    simp only [Placed,place] at placed
    have hooks : c.hooks = 0 := by simpa [place] using sound.before (by rw [place]; rfl)
    exact hook_sound counted hooks ⟨outcome,done⟩ placed.2.1 placed.2.2
  case h_5 exit place =>
    cases cancelled
    split
    · rename_i watch
      exact settle_sound counted place watch
    · exact counted
  case h_6 exit outcome place done =>
    cases cancelled
    simp only [Placed,place] at placed
    exact unwatch_sound counted ⟨outcome,done⟩ placed.2.2 (by simp only [place]; rfl)
  all_goals cases cancelled
  all_goals exact counted

theorem wake_sound (sound : c.Sound) (woken : c.wake = some d) : d.Sound := by
  have placed := sound.placed
  simp only [wake] at woken
  split at woken
  case h_1 result place done =>
    cases woken
    simp only [Placed,place] at placed
    have hooks : c.hooks = 0 := by simpa [place] using sound.before (by rw [place]; rfl)
    exact leave_sound sound (.inl ⟨_,done⟩) (placed.2.imp_right And.left) ⟨done,hooks⟩
  case h_2 failure place done =>
    cases woken
    simp only [Placed,place] at placed
    exact leave_sound sound (.inl ⟨_,done⟩) (placed.2.imp_right And.left) (failed_brings sound (by rw [place]; rfl) failure)
  case h_3 told place pending =>
    split at woken
    · rename_i watch
      cases woken
      simp only [Placed,place] at placed
      have hooks : c.hooks = 0 := by simpa [place] using sound.before (by rw [place]; rfl)
      have fired : c.fired = true := by
        rcases placed.2 with waits | ⟨_,fired⟩
        · rw [watch] at waits
          cases waits
        · exact fired
      refine ⟨⟨.inl rfl,watch,fired⟩,fun _ => hooks,?_,fun stopped => by cases stopped⟩
      intro exit left
      cases left
    · cases woken
  case h_4 place done | h_5 place done =>
    cases woken
    simp only [Placed,place] at placed
    have hooks : c.hooks = 0 := by simpa [place] using sound.before (by rw [place]; rfl)
    exact hook_sound sound hooks ⟨_,done⟩ placed.2.1 placed.2.2
  case h_6 place done =>
    cases woken
    simp only [Placed,place] at placed
    exact leave_sound sound (.inl ⟨_,done⟩) (.inr placed.2.1) (failed_brings sound (by rw [place]; rfl) .error)
  case h_7 exit place =>
    split at woken
    · rename_i watch
      cases woken
      exact settle_sound sound place watch
    · cases woken
  case h_8 exit result place done | h_9 exit place done =>
    cases woken
    simp only [Placed,place] at placed
    exact unwatch_sound sound ⟨_,done⟩ placed.2.2 (by rw [place]; rfl)
  case h_10 exit place done =>
    cases woken
    simp only [Placed,place] at placed
    have brings := sound.brings exit (by rw [place]; rfl)
    refine ⟨.inr ⟨⟨_,done⟩,placed.2.2,fun _ => ⟨placed.2.1,done⟩⟩,(fun open_ => by cases open_),?_,sound.going⟩
    intro other same
    cases same
    cases exit with
    | value result =>
        rw [Brings,done] at brings
        cases brings.1
    | failed failure => exact brings
    | disconnected => exact Nat.le_of_eq brings.2.1
  case h_11 =>
    cases woken

theorem works_sound {watchable : Bool} {result : Except Failure Result} (sound : c.Sound)
    (worked : c.step watchable (.works result) = some d) : d.Sound := by
  simp only [step] at worked
  split at worked
  · rename_i told pending
    cases worked
    have placed := sound.placed
    have finished : Finished (some (.done (outcome result))) := ⟨_,rfl⟩
    have still := still_place pending
    refine ⟨?_,sound.before,?_,?_⟩
    · cases place : c.place <;> simp only [Placed,place] at placed ⊢
      · simp [pending] at placed
      · exact ⟨rfl,placed.2⟩
      · exact ⟨.inr finished,placed.2⟩
      · exact absurd placed.1 still
      · exact ⟨.inl finished,placed.2⟩
      · exact ⟨.inr finished,placed.2⟩
      · rcases placed with ⟨none_,_⟩ | ⟨done,_⟩
        · rw [pending] at none_
          cases none_
        · exact absurd done still
    · intro exit left
      have brings := sound.brings exit left
      cases exit with
      | value other =>
          rw [Brings,pending] at brings
          cases brings.1
      | failed failure => exact brings
      | disconnected => exact absurd brings.1 still
    · cases result with
      | ok result => exact fun same => by cases same
      | error failure => exact fun same => by cases same
  · cases worked

theorem fire_sound {watchable : Bool} (sound : c.Sound) (fired : c.step watchable .fire = some d) : d.Sound := by
  simp only [step] at fired
  split at fired
  · cases fired
    refine ⟨?_,sound.before,?_,sound.going⟩
    · have placed := sound.placed
      cases place : c.place <;> simp only [Placed,place] at placed ⊢ <;> grind
    · intro exit left
      have brings := sound.brings exit left
      cases exit with
      | value result | failed failure => exact brings
      | disconnected => exact ⟨brings.1,brings.2.1,rfl⟩
  · cases fired

theorem watchEnds_sound {watchable : Bool} (sound : c.Sound) (ended : c.step watchable .watchEnds = some d) : d.Sound := by
  have placed := sound.placed
  have after :
    (c.watch = some .pending ∧ c.fired = true ∨ c.watch = some .cancelling) ∧ d = {c with watch := some .finished} := by
    simp only [step] at ended
    split at ended
    · rename_i watch
      split at ended
      · rename_i fired
        cases ended
        exact ⟨.inl ⟨watch,fired⟩,rfl⟩
      · cases ended
    · rename_i watch
      cases ended
      exact ⟨.inr watch,rfl⟩
    · cases ended
  obtain ⟨begun,rfl⟩ := after
  refine ⟨?_,sound.before,?_,sound.going⟩
  · cases place : c.place <;> simp only [Placed,place] at placed ⊢ <;> grind
  · intro exit left
    have brings := sound.brings exit left
    cases exit with
    | value result | failed failure | disconnected => exact brings

theorem step_sound {watchable : Bool} {move : Move Result} (sound : c.Sound) (taken : c.step watchable move = some d) :
    d.Sound := by
  have placed := sound.placed
  cases move with
  | begin =>
      simp only [step] at taken
      split at taken
      · rename_i place
        cases taken
        have hooks : c.hooks = 0 := by simpa [place] using sound.before (by rw [place]; rfl)
        refine ⟨⟨rfl,.inl rfl⟩,fun _ => hooks,?_,fun stopped => by cases stopped⟩
        intro exit left
        cases left
      · cases taken
  | cancel => exact cancel_sound sound taken
  | fire => exact fire_sound sound taken
  | watchEnds => exact watchEnds_sound sound taken
  | works result => exact works_sound sound taken
  | hooked failure =>
      simp only [step] at taken
      split at taken
      · rename_i place
        cases taken
        simp only [Placed,place] at placed
        have once : c.hooks = 1 := by simpa [place] using sound.before (by rw [place]; rfl)
        cases failure with
        | none => exact leave_sound sound (.inl placed.1) (.inr placed.2.1) ⟨placed.1,once,placed.2.2⟩
        | some failure => exact leave_sound sound (.inl placed.1) (.inr placed.2.1) (Nat.le_of_eq once)
      · cases taken
  | wake => exact wake_sound sound taken

def rank : Place Result → Nat
  | .waiting => 5
  | .dropping => 4
  | .aborting => 3
  | .unwatching _ => 2
  | .settling _ => 1
  | .new | .ended _ => 0

def measure (c : Call Result) : Nat :=
  let task := match c.task with
    | some (.pending _) => 1
    | _ => 0
  let watch := match c.watch with
    | some .finished => 0
    | _ => 1
  3 * rank c.place + task + watch

theorem measure_le (c : Call Result) : c.measure ≤ 17 := by
  have place : rank c.place ≤ 5 := by cases c.place <;> simp [rank]
  simp only [measure]
  split <;> split <;> omega

theorem leave_measure (exit : Leaving Result) : (c.leave exit).measure ≤ 8 := by
  simp only [measure,leave,rank]
  split <;> split <;> omega

theorem settle_measure (task : Finished c.task ∨ c.task.isSome ∧ 0 < c.cancels) (watch : c.watch = some .finished)
    (exit : Leaving Result) : (c.settle exit).measure ≤ 4 := by
  unfold settle
  split
  · simp [measure,rank,watch]
  · rename_i other
    have ended : ∃ outcome, c.task = some (.done outcome) := by
      rcases task with finished | ⟨asked,_⟩
      · exact finished
      · obtain ⟨task,there⟩ := Option.isSome_iff_exists.mp asked
        cases task with
        | pending told => exact absurd there (other told)
        | done outcome => exact ⟨outcome,there⟩
    obtain ⟨outcome,done⟩ := ended
    simp [unwatch,measure,rank,watch,done]

theorem wake_lowers (sound : c.Sound) (woken : c.wake = some d) : d.measure < c.measure := by
  have placed := sound.placed
  simp only [wake] at woken
  split at woken
  case h_1 place done | h_2 place done =>
    cases woken
    have large : 15 ≤ c.measure := by simp only [measure,place,rank]; omega
    exact Nat.lt_of_le_of_lt (leave_measure _) (by omega)
  case h_3 told place pending =>
    split at woken <;> cases woken
    simp only [measure,place,rank,pending]
    omega
  case h_4 place done | h_5 place done =>
    cases woken
    simp only [Placed,place] at placed
    simp [measure,hook,rank,place,done,placed.2.1]
  case h_6 place done =>
    cases woken
    have large : 12 ≤ c.measure := by simp only [measure,place,rank]; omega
    exact Nat.lt_of_le_of_lt (leave_measure _) (by omega)
  case h_7 exit place =>
    split at woken
    · rename_i watch
      cases woken
      simp only [Placed,place] at placed
      have large : 6 ≤ c.measure := by simp only [measure,place,rank]; omega
      exact Nat.lt_of_le_of_lt (settle_measure placed.1 watch exit) (by omega)
    · cases woken
  case h_8 place done | h_9 place done | h_10 place done =>
    cases woken
    simp only [Placed,place] at placed
    simp [measure,unwatch,rank,place,done,placed.2.2]
  case h_11 =>
    cases woken

theorem lowers {watchable : Bool} {move : Move Result} (sound : c.Sound) (own : move.own = true)
    (taken : c.step watchable move = some d) : d.measure < c.measure := by
  cases move with
  | begin | cancel | fire => cases own
  | wake => exact wake_lowers sound taken
  | watchEnds =>
      simp only [step] at taken
      split at taken
      · rename_i watch
        split at taken <;> cases taken
        simp [measure,watch]
      · rename_i watch
        cases taken
        simp [measure,watch]
      · cases taken
  | works result =>
      simp only [step] at taken
      split at taken <;> cases taken
      rename_i told pending
      simp [measure,pending]
  | hooked failure =>
      simp only [step] at taken
      split at taken <;> cases taken
      rename_i place
      have large : 9 ≤ c.measure := by simp only [measure,place,rank]; omega
      exact Nat.lt_of_le_of_lt (leave_measure _) (by omega)

theorem works_moves {watchable : Bool} {told : Bool} (pending : c.task = some (.pending told)) :
    ∃ move d, move.own = true ∧ c.step watchable move = some d :=
  ⟨.works (.error .cancelled),_,rfl,by simp only [step,pending]; rfl⟩

theorem wake_moves {watchable : Bool} {outcome : Outcome Result} (sound : c.Sound) (done : c.task = some (.done outcome))
    (place : c.place = .waiting ∨ c.place = .dropping ∨ ∃ exit, c.place = .settling exit) :
    ∃ move d, move.own = true ∧ c.step watchable move = some d := by
  have woken : ∃ d, c.wake = some d := by
    cases outcome with
    | stopped => exact absurd done sound.going
    | value result =>
        rcases place with place | place | ⟨exit,place⟩
        all_goals exact ⟨_,by simp only [wake,place,done]; rfl⟩
    | failed failure =>
        cases failure
        all_goals rcases place with place | place | ⟨exit,place⟩
        all_goals exact ⟨_,by simp only [wake,place,done]; rfl⟩
  obtain ⟨d,woken⟩ := woken
  exact ⟨.wake,d,rfl,woken⟩

theorem moves {watchable : Bool} (sound : c.Sound) (begun : c.task ≠ none) (going : ∀ exit, c.place ≠ .ended exit) :
    ∃ move d, move.own = true ∧ c.step watchable move = some d := by
  have placed := sound.placed
  have asked : ∀ exit, c.place = .waiting ∨ c.place = .dropping ∨ c.place = .settling exit →
      ∃ move d, move.own = true ∧ c.step watchable move = some d := by
    intro exit place
    obtain ⟨task,there⟩ := Option.ne_none_iff_exists'.mp begun
    cases task with
    | pending told => exact works_moves there
    | done outcome => exact wake_moves sound there (place.imp_right (Or.imp_right fun same => ⟨exit,same⟩))
  cases place : c.place with
  | new =>
      simp only [Placed,place] at placed
      exact absurd placed.1 begun
  | waiting => exact asked .disconnected (.inl place)
  | dropping => exact asked .disconnected (.inr (.inl place))
  | settling exit => exact asked exit (.inr (.inr place))
  | aborting => exact ⟨.hooked none,_,rfl,by simp only [step,place]; rfl⟩
  | unwatching exit =>
      simp only [Placed,place] at placed
      obtain ⟨_,cancelling | watch⟩ := placed
      · exact ⟨.watchEnds,_,rfl,by simp only [step,cancelling]; rfl⟩
      · exact ⟨.wake,c.settle exit,rfl,by simp only [step,wake,place,watch,if_true]⟩
  | ended exit => exact absurd place (going exit)

def Begun (c : Call Result) : Prop := c.task ≠ none

theorem begun_kept {watchable : Bool} {move : Move Result} (own : move.own = true) (begun : c.Begun)
    (taken : c.step watchable move = some d) : d.Begun := by
  cases move with
  | begin | cancel | fire => cases own
  | watchEnds =>
      simp only [step] at taken
      split at taken
      · split at taken <;> cases taken
        exact begun
      · cases taken
        exact begun
      · cases taken
  | works result =>
      simp only [step] at taken
      split at taken <;> cases taken
      simp [Begun]
  | hooked failure =>
      simp only [step] at taken
      split at taken <;> cases taken
      exact begun
  | wake =>
      simp only [step,wake] at taken
      split at taken
      case h_3 =>
        split at taken <;> cases taken
        simp [Begun]
      case h_7 =>
        split at taken <;> cases taken
        unfold settle
        split
        · simp [Begun]
        · exact begun
      all_goals cases taken
      all_goals exact begun

-- A call that is over has its task and its watch over and its id forgotten, unless a
-- cancel from outside made the work raise an error of its own; what it returns is what the
-- work did, and it tells of a disconnect after one, with the hook run once. One that has
-- begun comes to its end.
theorem call_guarded {watchable : Bool} {moves : List (Move Result)} (ran : execute (step watchable) start moves = some c) :
    (∀ exit, c.place = .ended exit → (c.task = none ∨ Finished c.task ∧ c.watch = some .finished) ∧
      (c.watched = true → 0 < c.cancels ∧ c.task = some (.done (.failed .error))) ∧
      (∀ result, exit = .value result → c.task = some (.done (.value result)) ∧ c.hooks = 0) ∧
      (exit = .disconnected → c.hooks = 1 ∧ c.fired = true)) ∧
    ∀ rest d, (∀ move ∈ rest, move.own = true) → execute (step watchable) c rest = some d → rest.length ≤ 17 ∧
      (c.task ≠ none → (∀ move, move.own = true → d.step watchable move = none) → ∃ exit, d.place = .ended exit) := by
  have sound : c.Sound := execute_invariant (fun _ _ _ sound taken => step_sound sound taken) start_sound ran
  refine ⟨?_,?_⟩
  · intro exit place
    have placed := sound.placed
    have brings := sound.brings exit (by rw [place]; rfl)
    simp only [Placed,place] at placed
    refine ⟨?_,?_,?_,?_⟩
    · rcases placed with ⟨none_,_⟩ | ⟨finished,watch,_⟩
      · exact .inl none_
      · exact .inr ⟨finished,watch⟩
    · intro watched
      rcases placed with ⟨_,_,unwatched⟩ | ⟨_,_,raised⟩
      · rw [watched] at unwatched
        cases unwatched
      · exact raised watched
    · rintro result rfl
      exact brings
    · rintro rfl
      exact brings.2
  · intro rest d own after
    have spent : rest.length + d.measure ≤ c.measure := by
      refine execute_spends measure ?_ ?_ sound own after
      · exact fun _ _ _ sound taken => step_sound sound taken
      · exact fun _ _ _ sound own taken => lowers sound own taken
    have most := measure_le c
    refine ⟨by omega,fun begun stuck => ?_⟩
    have last : d.Sound := execute_invariant (fun _ _ _ sound taken => step_sound sound taken) sound after
    have kept : d.Begun :=
      execute_within (fun move there _ _ begun taken => begun_kept (own move there) begun taken) (show c.Begun from begun) after
    by_contra going
    obtain ⟨move,e,mine,taken⟩ : ∃ move e, Move.own move = true ∧ d.step watchable move = some e :=
      Call.moves last kept (fun exit place => going ⟨exit,place⟩)
    rw [stuck move mine] at taken
    cases taken

-- The work raises an error of its own at the cancel: the id stays watched.
theorem call_guarded_raised : ∃ c : Call Nat, execute (step true) start
    [.begin,.cancel,.watchEnds,.wake,.works (.error .error),.wake] = some c ∧ c.place = .ended (.failed .error) ∧
      c.watched = true ∧ 0 < c.cancels := by
  refine ⟨_,rfl,rfl,rfl,?_⟩
  exact (((call_guarded (show execute (step true) (start : Call Nat) [.begin,.cancel,.watchEnds,.wake,.works (.error .error),
    .wake] =
    some _ from rfl)).1 _ rfl).2.1 rfl).1

end
end
end Call
end Modelship.Infer.Cancellable

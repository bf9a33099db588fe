import Mathlib.Data.List.Pairwise
import Modelship.Foundation.Dict
import Modelship.Foundation.FairLock
import Modelship.Foundation.Runs

namespace Modelship.Infer.Blocking
open Foundation

-- A replica's blocking calls: the callers that wait for `_exclusive`, the functions in the
-- executor, those that returned or raised and whose callback is due, and the outcomes.
structure Replica (Result : Type) where
  calls : Nat
  exclusive : FairLock Nat
  going : List (Nat × Bool)
  ended : List (Nat × Bool × Result)
  settled : List (Nat × Result)
  stopped : List Nat
  started : List Nat

inductive Action (Result : Type) where
  | call (exclusive : Bool)
  | cancel (id : Nat)
  | resume (id : Nat)
  | ends (id : Nat) (result : Result)
  | finished (id : Nat)

-- What goes on without a new caller or a cancel.
def Action.own {Result : Type} : Action Result → Bool
  | .call _ | .cancel _ => false
  | .resume _ | .ends _ _ | .finished _ => true

namespace Replica
section
variable {Result : Type}

def start : Replica Result := ⟨0,.free,[],[],[],[],[]⟩

-- The function goes to the executor, with its stop event.
def submit (r : Replica Result) (id : Nat) (exclusive : Bool) : Replica Result :=
  {r with going := r.going ++ [(id,exclusive)],started := if exclusive then r.started ++ [id] else r.started}

-- Past `acquire`, a caller goes on at once.
def acquired (r : Replica Result) (id : Nat) (lock : FairLock Nat × Bool) : Replica Result :=
  let r := {r with exclusive := lock.1}
  if lock.2 then r.submit id true else r

-- `run_blocking`, at each of its waits. A cancel reaches a caller that waits for the lock,
-- or one that waits for its function, which it tells to stop and does not stop.
def next (r : Replica Result) : Action Result → Option (Replica Result)
  | .call exclusive =>
    let id := r.calls
    let r := {r with calls := id + 1}
    some (if exclusive then r.acquired id (r.exclusive.acquire id) else r.submit id false)
  | .cancel id =>
    if id ∈ r.exclusive.keys then some {r with exclusive := r.exclusive.cancel id} else
    if id ∈ r.going.map Prod.fst ++ r.ended.map Prod.fst ∧ id ∉ r.stopped then some {r with stopped := r.stopped ++ [id]} else none
  | .resume id => (r.exclusive.resume id).map (r.acquired id)
  | .ends id result => (r.going.find? (·.1 = id)).map fun job =>
    {r with going := r.going.filter (·.1 ≠ id),ended := r.ended ++ [(id,job.2,result)]}
  | .finished id => (r.ended.find? (·.1 = id)).bind fun job =>
    let r := {r with ended := r.ended.filter (·.1 ≠ id),settled := r.settled ++ [(id,job.2.2)]}
    if job.2.1 then r.exclusive.release.map fun lock => {r with exclusive := lock} else some r

-- The exclusive functions that are in the executor or whose callback is due.
def occupants (r : Replica Result) : List Nat :=
  (r.going.filter (·.2)).map Prod.fst ++ (r.ended.filter (·.2.1)).map Prod.fst

def busy (r : Replica Result) : List Nat := r.exclusive.keys ++ (r.going.map Prod.fst ++ r.ended.map Prod.fst)

-- Each call has one place, the line is in the order of the calls, and nobody in it was
-- overtaken.
structure Lined (r : Replica Result) : Prop where
  fair : r.exclusive.Fair
  apart : r.busy.Nodup
  known : ∀ id ∈ r.busy ++ r.started, id < r.calls
  lined : r.exclusive.keys.Pairwise (· < ·)
  turns : r.started.Pairwise (· < ·)
  later : ∀ id ∈ r.started, ∀ waiter ∈ r.exclusive.waiters, waiter.2.live = true → id < waiter.1

structure Sound (r : Replica Result) : Prop extends Lined r where
  occupied : r.occupants.length = if r.exclusive.locked then 1 else 0

-- Nobody waits and nothing is in the executor.
def Idle (r : Replica Result) : Prop := r.exclusive = .free ∧ r.going = [] ∧ r.ended = []

def measure (r : Replica Result) : Nat := 3 * r.exclusive.waiters.length + 2 * r.going.length + r.ended.length

theorem found_mem {Value : Type} {entries : List (Nat × Value)} {id : Nat} {entry : Nat × Value}
    (found : entries.find? (·.1 = id) = some entry) : entry ∈ entries ∧ entry.1 = id :=
  ⟨List.mem_of_find?_eq_some found,by simpa using List.find?_some found⟩

theorem start_sound : (start : Replica Result).Sound := by
  refine ⟨⟨FairLock.free_fair,List.nodup_nil,?_,List.Pairwise.nil,List.Pairwise.nil,?_⟩,rfl⟩
  · intro id there
    cases there
  · intro id there
    cases there

section
variable {r t : Replica Result} {id : Nat}

theorem Lined.going_distinct (lined : r.Lined) : (r.going.map Prod.fst).Nodup :=
  (List.nodup_append.mp (List.nodup_append.mp lined.apart).2.1).1

theorem Lined.ended_distinct (lined : r.Lined) : (r.ended.map Prod.fst).Nodup :=
  (List.nodup_append.mp (List.nodup_append.mp lined.apart).2.1).2.1

theorem Lined.unplaced (lined : r.Lined) (waits : id ∈ r.exclusive.keys) : id ∉ r.going.map Prod.fst ++ r.ended.map Prod.fst :=
  fun there => (List.nodup_append.mp lined.apart).2.2 id waits id there rfl

-- The line, with fewer in it.
theorem relock_lined (lined : r.Lined) {lock : FairLock Nat} (fair : lock.Fair) (fewer : lock.keys.Sublist r.exclusive.keys)
    (live : ∀ waiter ∈ lock.waiters, waiter.2.live = true →
      ∃ before ∈ r.exclusive.waiters, before.1 = waiter.1 ∧ before.2.live = true) :
    ({r with exclusive := lock} : Replica Result).Lined := by
  have places : ({r with exclusive := lock} : Replica Result).busy.Sublist r.busy := fewer.append_right _
  refine ⟨fair,places.nodup lined.apart,?_,lined.lined.sublist fewer,lined.turns,?_⟩
  · intro id there
    exact lined.known id ((places.append_right _).subset there)
  · intro id ran waiter there lives
    obtain ⟨before,here,same,lived⟩ := live waiter there lives
    exact same ▸ lined.later id ran before here lived

-- A caller that has what it needs: its function goes to the executor.
theorem submit_lined (lined : r.Lined) {exclusive : Bool} (fresh : id ∉ r.busy) (known : id < r.calls)
    (turn : exclusive = true → (∀ earlier ∈ r.started, earlier < id) ∧
      ∀ waiter ∈ r.exclusive.waiters, waiter.2.live = true → id < waiter.1) : (r.submit id exclusive).Lined := by
  have places : (r.submit id exclusive).busy.Perm (id :: r.busy) := by
    have middle : (r.exclusive.keys ++ r.going.map Prod.fst ++ id :: r.ended.map Prod.fst).Perm
        (id :: (r.exclusive.keys ++ r.going.map Prod.fst ++ r.ended.map Prod.fst)) := List.perm_middle
    simpa [busy,submit] using middle
  refine ⟨lined.fair,places.nodup_iff.mpr (List.nodup_cons.mpr ⟨fresh,lined.apart⟩),?_,lined.lined,?_,?_⟩
  · intro other there
    rcases List.mem_append.mp there with busy | ran
    · rcases List.mem_cons.mp (places.subset busy) with rfl | before
      · exact known
      · exact lined.known other (List.mem_append_left _ before)
    · unfold submit at ran
      cases exclusive with
      | false => exact lined.known other (List.mem_append_right _ ran)
      | true =>
          rcases List.mem_append.mp ran with before | new
          · exact lined.known other (List.mem_append_right _ before)
          · cases List.mem_singleton.mp new
            exact known
  · unfold submit
    cases exclusive with
    | false => exact lined.turns
    | true =>
        refine List.pairwise_append.mpr ⟨lined.turns,List.pairwise_singleton _ _,?_⟩
        intro earlier there one single
        cases List.mem_singleton.mp single
        exact (turn rfl).1 earlier there
  · intro earlier there waiter waits lives
    unfold submit at there
    cases exclusive with
    | false => exact lined.later earlier there waiter waits lives
    | true =>
        rcases List.mem_append.mp there with before | new
        · exact lined.later earlier before waiter waits lives
        · cases List.mem_singleton.mp new
          exact (turn rfl).2 waiter waits lives

theorem occupants_length (r : Replica Result) :
    r.occupants.length = (r.going.filter (·.2)).length + (r.ended.filter (·.2.1)).length := by
  simp [occupants]

theorem submit_occupants (exclusive : Bool) :
    (r.submit id exclusive).occupants.length = r.occupants.length + if exclusive then 1 else 0 := by
  cases exclusive <;> simp [occupants,submit,List.filter_append]
  omega

theorem Lined.called (lined : r.Lined) : ({r with calls := r.calls + 1} : Replica Result).Lined :=
  ⟨lined.fair,lined.apart,fun id there => Nat.lt_succ_of_lt (lined.known id there),lined.lined,lined.turns,lined.later⟩

theorem Lined.fresh (lined : r.Lined) : r.calls ∉ r.busy :=
  fun there => Nat.lt_irrefl _ (lined.known _ (List.mem_append_left _ there))

-- A caller that goes to the end of the line.
theorem queue_lined (lined : r.Lined) (fair : (r.exclusive.acquire r.calls).1.Fair)
    (waits : (r.exclusive.acquire r.calls).1 = ⟨r.exclusive.locked,r.exclusive.waiters ++ [(r.calls,.pending)]⟩) :
    ({r with calls := r.calls + 1,exclusive := (r.exclusive.acquire r.calls).1} : Replica Result).Lined := by
  have keys : (r.exclusive.acquire r.calls).1.keys = r.exclusive.keys ++ [r.calls] := by
    rw [waits]
    simp [FairLock.keys]
  have places : ({r with calls := r.calls + 1,exclusive := (r.exclusive.acquire r.calls).1} : Replica Result).busy.Perm
      (r.calls :: r.busy) := by
    simp only [busy,keys,List.append_assoc]
    exact List.perm_middle
  refine ⟨fair,places.nodup_iff.mpr (List.nodup_cons.mpr ⟨lined.fresh,lined.apart⟩),?_,?_,lined.turns,?_⟩
  · intro id there
    rcases List.mem_append.mp there with busy | ran
    · rcases List.mem_cons.mp (places.subset busy) with rfl | before
      · exact Nat.lt_succ_self _
      · exact Nat.lt_succ_of_lt (lined.known id (List.mem_append_left _ before))
    · exact Nat.lt_succ_of_lt (lined.known id (List.mem_append_right _ ran))
  · rw [keys]
    refine List.pairwise_append.mpr ⟨lined.lined,List.pairwise_singleton _ _,?_⟩
    intro earlier there one single
    cases List.mem_singleton.mp single
    exact lined.known earlier (List.mem_append_left _ (List.mem_append_left _ there))
  · intro earlier ran waiter there lives
    rw [waits] at there
    rcases List.mem_append.mp there with before | new
    · exact lined.later earlier ran waiter before lives
    · cases List.mem_singleton.mp new
      exact lined.known earlier (List.mem_append_right _ ran)

theorem call_sound {exclusive : Bool} (sound : r.Sound) (called : r.next (.call exclusive) = some t) : t.Sound := by
  have lined := sound.toLined
  have unqueued : r.calls ∉ r.exclusive.keys := fun there => lined.fresh (List.mem_append_left _ there)
  have fair := FairLock.acquire_fair lined.fair unqueued
  cases called
  cases exclusive with
  | false =>
      refine ⟨submit_lined lined.called lined.fresh (Nat.lt_succ_self _) (fun asked => absurd asked Bool.false_ne_true),?_⟩
      exact (submit_occupants (r := {r with calls := r.calls + 1}) false).trans sound.occupied
  | true =>
      by_cases clear : r.exclusive.locked = false ∧ ∀ waiter ∈ r.exclusive.waiters, waiter.2 = .cancelled
      · have got : r.exclusive.acquire r.calls = (⟨true,r.exclusive.waiters⟩,true) := if_pos clear
        rw [got] at fair
        have still := relock_lined lined.called fair (List.Sublist.refl _) (fun waiter there lives => ⟨waiter,there,rfl,lives⟩)
        simp only [if_true,acquired,got]
        refine ⟨submit_lined still lined.fresh (Nat.lt_succ_self _) (fun _ => ⟨?_,?_⟩),?_⟩
        · exact fun earlier ran => lined.known earlier (List.mem_append_right _ ran)
        · intro waiter there lives
          rw [clear.2 waiter there] at lives
          cases lives
        · have none_ := sound.occupied
          rw [clear.1] at none_
          exact (submit_occupants (r := {r with calls := r.calls + 1,exclusive := ⟨true,r.exclusive.waiters⟩}) true).trans
            (congrArg (· + 1) none_)
      · have waits : r.exclusive.acquire r.calls = (⟨r.exclusive.locked,r.exclusive.waiters ++ [(r.calls,.pending)]⟩,false) :=
          if_neg clear
        have queued := queue_lined lined fair (congrArg Prod.fst waits)
        rw [waits] at queued
        simp only [if_true,acquired,waits]
        exact ⟨queued,sound.occupied⟩

theorem cancel_sound (sound : r.Sound) (cancelled : r.next (.cancel id) = some t) : t.Sound := by
  simp only [next] at cancelled
  split at cancelled
  · cases cancelled
    have keys : (r.exclusive.cancel id).keys = r.exclusive.keys := FairLock.cancel_keys
    refine ⟨relock_lined sound.toLined (FairLock.cancel_fair sound.fair) (keys ▸ List.Sublist.refl _) ?_,sound.occupied⟩
    intro waiter there lives
    rcases FairLock.mem_cancel there with before | ⟨before,_,_,rfl⟩
    · exact ⟨waiter,before,rfl,lives⟩
    · rw [Waiter.cancel_live] at lives
      cases lives
  · split at cancelled
    · cases cancelled
      exact ⟨⟨sound.fair,sound.apart,sound.known,sound.lined,sound.turns,sound.later⟩,sound.occupied⟩
    · cases cancelled

theorem resume_sound (sound : r.Sound) (resumed : r.next (.resume id) = some t) : t.Sound := by
  have lined := sound.toLined
  obtain ⟨⟨lock,got⟩,went,rfl⟩ := Option.map_eq_some_iff.mp resumed
  have fair := FairLock.resume_fair lined.fair went
  unfold FairLock.resume at went
  have without : (r.exclusive.without id).Sublist r.exclusive.waiters := List.filter_sublist
  split at went
  · rename_i woken
    cases went
    obtain ⟨rest,waiters,kept⟩ := FairLock.resume_first lined.fair woken
    have here : id ∈ r.exclusive.keys := by simp [FairLock.keys,waiters]
    have line := lined.lined
    rw [FairLock.keys,waiters,List.map_cons,List.pairwise_cons] at line
    have free : r.exclusive.locked = false := by
      cases locked : r.exclusive.locked with
      | false => rfl
      | true =>
          have asleep := lined.fair.held locked (id,.woken) (by simp [waiters])
          cases asleep
    have still := relock_lined lined fair (without.map Prod.fst) (fun waiter there lives => ⟨waiter,without.subset there,rfl,lives⟩)
    have fresh : id ∉ ({r with exclusive := ⟨true,r.exclusive.without id⟩} : Replica Result).busy := by
      intro there
      rcases List.mem_append.mp there with waits | placed
      · rw [FairLock.keys,kept] at waits
        exact Nat.lt_irrefl _ (line.1 id waits)
      · exact lined.unplaced here placed
    simp only [acquired]
    refine ⟨submit_lined still fresh (lined.known id (List.mem_append_left _ (List.mem_append_left _ here))) (fun _ => ⟨?_,?_⟩),?_⟩
    · exact fun earlier ran => lined.later earlier ran (id,.woken) (by simp [waiters]) rfl
    · intro waiter there _
      rw [kept] at there
      exact line.1 waiter.1 (List.mem_map_of_mem there)
    · have none_ := sound.occupied
      rw [free] at none_
      exact (submit_occupants (r := {r with exclusive := ⟨true,r.exclusive.without id⟩}) true).trans (congrArg (· + 1) none_)
  · cases went
    refine ⟨relock_lined lined fair ?_ (fun _ => FairLock.leave_live),sound.occupied⟩
    rw [FairLock.leave_keys]
    exact without.map Prod.fst
  · cases went
    refine ⟨relock_lined lined fair ?_ (fun _ => FairLock.leave_live),sound.occupied⟩
    rw [FairLock.leave_keys]
    exact without.map Prod.fst
  · cases went
  · cases went

theorem ends_sound {result : Result} (sound : r.Sound) (ended : r.next (.ends id result) = some t) : t.Sound := by
  have lined := sound.toLined
  obtain ⟨job,found,rfl⟩ := Option.map_eq_some_iff.mp ended
  obtain ⟨there,rfl⟩ := found_mem found
  have perm := keyed_perm lined.going_distinct there
  have places : (r.exclusive.keys ++ ((r.going.filter (·.1 ≠ job.1)).map Prod.fst ++
      (r.ended ++ [(job.1,job.2,result)]).map Prod.fst)).Perm r.busy := by
    refine List.Perm.append_left _ ?_
    have moved := (perm.map Prod.fst).append_right (r.ended.map Prod.fst)
    refine List.Perm.trans ?_ moved.symm
    have swapped : ((r.going.filter (·.1 ≠ job.1)).map Prod.fst ++ r.ended.map Prod.fst ++ [job.1]).Perm
        ([job.1] ++ ((r.going.filter (·.1 ≠ job.1)).map Prod.fst ++ r.ended.map Prod.fst)) := List.perm_append_comm
    simpa using swapped
  refine ⟨⟨lined.fair,places.nodup_iff.mpr lined.apart,?_,lined.lined,lined.turns,lined.later⟩,?_⟩
  · intro id busy
    rcases List.mem_append.mp busy with placed | ran
    · exact lined.known id (List.mem_append_left _ (places.subset placed))
    · exact lined.known id (List.mem_append_right _ ran)
  · rw [← sound.occupied]
    have counts := (perm.filter (·.2)).length_eq
    cases exclusive : job.2 <;> simp [occupants,List.filter_append,exclusive] at counts ⊢ <;> omega

-- A callback that is due for an exclusive function finds the lock held.
theorem Sound.held (sound : r.Sound) {job : Nat × Bool × Result} (there : job ∈ r.ended) (exclusive : job.2.1 = true) :
    r.exclusive.locked = true := by
  have occupied := sound.occupied
  cases locked : r.exclusive.locked with
  | true => rfl
  | false =>
      rw [locked] at occupied
      have none_ := List.length_eq_zero_iff.mp occupied
      have some_ : job.1 ∈ r.occupants :=
        List.mem_append_right _ (List.mem_map.mpr ⟨job,List.mem_filter.mpr ⟨there,exclusive⟩,rfl⟩)
      rw [none_] at some_
      cases some_

theorem finished_sound (sound : r.Sound) (finished : r.next (.finished id) = some t) : t.Sound := by
  have lined := sound.toLined
  obtain ⟨job,found,done⟩ := Option.bind_eq_some_iff.mp finished
  obtain ⟨there,rfl⟩ := found_mem found
  have perm := keyed_perm lined.ended_distinct there
  have counts := (perm.filter (·.2.1)).length_eq
  have occupied := sound.occupied
  have fewer : (r.ended.filter (·.1 ≠ job.1)).Sublist r.ended := List.filter_sublist
  have still : ({r with
      ended := r.ended.filter (·.1 ≠ job.1)
      settled := r.settled ++ [(job.1,job.2.2)]} : Replica Result).Lined := by
    have places : (r.exclusive.keys ++ (r.going.map Prod.fst ++ (r.ended.filter (·.1 ≠ job.1)).map Prod.fst)).Sublist r.busy :=
      ((fewer.map Prod.fst).append_left _).append_left _
    refine ⟨lined.fair,places.nodup lined.apart,?_,lined.lined,lined.turns,lined.later⟩
    intro id busy
    exact lined.known id ((places.append_right _).subset busy)
  dsimp only at done
  split at done
  · rename_i exclusive
    have held := sound.held there exclusive
    obtain ⟨lock,released,rfl⟩ := Option.map_eq_some_iff.mp done
    have fair := FairLock.release_fair lined.fair released
    unfold FairLock.release at released
    rw [if_pos held] at released
    cases released
    refine ⟨relock_lined still fair ?_ ?_,?_⟩
    · rw [FairLock.keys,FairLock.wake_keys]
      exact List.Sublist.refl _
    · intro waiter waits lives
      obtain ⟨before,here,same,lived⟩ := FairLock.mem_wake waits
      exact ⟨before,here,same,lived lives⟩
    · simp only [List.filter_cons,exclusive,if_true,List.length_cons] at counts
      rw [held,if_pos rfl,occupants_length] at occupied
      rw [occupants_length]
      simp only [Bool.false_eq_true,if_false]
      omega
  · rename_i shared
    cases done
    refine ⟨still,?_⟩
    simp only [List.filter_cons,shared,Bool.false_eq_true,if_false] at counts
    rw [← occupied,occupants_length,occupants_length]
    dsimp only
    omega

theorem next_sound {action : Action Result} (sound : r.Sound) (taken : r.next action = some t) : t.Sound := by
  cases action with
  | call exclusive => exact call_sound sound taken
  | cancel id => exact cancel_sound sound taken
  | resume id => exact resume_sound sound taken
  | ends id result => exact ends_sound sound taken
  | finished id => exact finished_sound sound taken

-- A waiter whose task is due to go on.
theorem resume_moves {waiter : Waiter} (lined : r.Lined) (there : (id,waiter) ∈ r.exclusive.waiters) (awake : waiter ≠ .pending) :
    ∃ t, r.next (.resume id) = some t ∧ t.measure < r.measure := by
  have standing := FairLock.mem_standing lined.fair there
  have fewer := FairLock.without_length lined.fair there
  have left : (r.exclusive.leave id).waiters.length = (r.exclusive.without id).length := FairLock.leave_length
  simp only [next,FairLock.resume,standing]
  cases waiter with
  | pending => exact absurd rfl awake
  | woken =>
      refine ⟨_,rfl,?_⟩
      simp only [acquired,submit,measure,if_true,List.length_append,List.length_singleton]
      omega
  | doomed | cancelled =>
      refine ⟨_,rfl,?_⟩
      simp only [acquired,measure,Bool.false_eq_true,if_false]
      omega

theorem ends_moves (lined : r.Lined) {job : Nat × Bool} (there : job ∈ r.going) (result : Result) :
    ∃ t, r.next (.ends job.1 result) = some t ∧ t.measure < r.measure := by
  obtain ⟨found,hit⟩ := Option.isSome_iff_exists.mp (List.find?_isSome (p := (·.1 = job.1)).mpr ⟨job,there,by simp⟩)
  have fewer := (keyed_perm lined.going_distinct there).length_eq
  refine ⟨_,by simp only [next,hit]; rfl,?_⟩
  simp only [measure,List.length_append,List.length_cons,List.length_nil] at fewer ⊢
  omega

theorem finished_moves (sound : r.Sound) {job : Nat × Bool × Result} (there : job ∈ r.ended) :
    ∃ t, r.next (.finished job.1) = some t ∧ t.measure < r.measure := by
  obtain ⟨found,hit⟩ := Option.isSome_iff_exists.mp (List.find?_isSome (p := (·.1 = job.1)).mpr ⟨job,there,by simp⟩)
  have fewer := (keyed_perm sound.ended_distinct there).length_eq
  have held := sound.held (found_mem hit).1
  simp only [next,hit,Option.bind_some]
  split
  · rename_i exclusive
    refine ⟨_,by rw [FairLock.release,if_pos (held exclusive)]; rfl,?_⟩
    simp only [measure,FairLock.wake_length,List.length_cons] at fewer ⊢
    omega
  · refine ⟨_,rfl,?_⟩
    simp only [measure,List.length_cons] at fewer ⊢
    omega

-- As long as a caller waits or a function is in the executor, something is due.
theorem moves [Inhabited Result] (sound : r.Sound) (busy : ¬r.Idle) :
    ∃ action t, action.own = true ∧ r.next action = some t ∧ t.measure < r.measure := by
  cases ended : r.ended with
  | cons job rest =>
      obtain ⟨t,taken,less⟩ := finished_moves sound (show job ∈ r.ended by rw [ended]; exact List.mem_cons_self)
      exact ⟨.finished job.1,t,rfl,taken,less⟩
  | nil =>
      cases going : r.going with
      | cons job rest =>
          obtain ⟨t,taken,less⟩ := ends_moves sound.toLined (show job ∈ r.going by rw [going]; exact List.mem_cons_self) default
          exact ⟨.ends job.1 default,t,rfl,taken,less⟩
      | nil =>
          -- A lock that nobody holds is free, and whoever stands first is due.
          have free : r.exclusive.locked = false := by
            have occupied := sound.occupied
            cases locked : r.exclusive.locked with
            | false => rfl
            | true =>
                rw [locked,occupants,ended,going] at occupied
                cases occupied
          cases waiters : r.exclusive.waiters with
          | nil =>
              refine absurd ⟨?_,going,ended⟩ busy
              obtain ⟨calls,⟨locked,line⟩,_,_,_,_,_⟩ := r
              cases free
              cases waiters
              rfl
          | cons first rest =>
              have awake := sound.fair.first free first (by rw [waiters]; rfl)
              obtain ⟨t,taken,less⟩ := resume_moves sound.toLined
                (show (first.1,first.2) ∈ r.exclusive.waiters by rw [waiters]; exact List.mem_cons_self) awake
              exact ⟨.resume first.1,t,rfl,taken,less⟩

-- Exclusive functions run one at a time, in the order of their calls, whoever is
-- cancelled and when; the lock is held for just as long, no callback releases it twice,
-- and no caller is left behind: once the functions end, all is idle again.
theorem exclusive_jobs_take_turns [Inhabited Result] {actions : List (Action Result)}
    (ran : execute Replica.next Replica.start actions = some r) :
    r.occupants.length ≤ 1 ∧ (r.exclusive.locked = true ↔ r.occupants ≠ []) ∧ r.started.Pairwise (· < ·) ∧
      (∀ job ∈ r.ended, (r.next (.finished job.1)).isSome) ∧
      ∃ rest t, (∀ action ∈ rest, action.own = true) ∧ execute Replica.next r rest = some t ∧ t.Idle := by
  have sound : r.Sound := execute_invariant (fun _ _ _ sound taken => next_sound sound taken) start_sound ran
  refine ⟨?_,?_,sound.turns,?_,?_⟩
  · rw [sound.occupied]
    split <;> omega
  · rw [← List.length_pos_iff,sound.occupied]
    cases r.exclusive.locked <;> simp
  · intro job there
    obtain ⟨t,taken,_⟩ := finished_moves sound there
    rw [taken]
    rfl
  · exact execute_rests measure (fun _ _ _ sound _ taken => next_sound sound taken) (fun _ sound busy => moves sound busy) sound

-- The second caller is cancelled in the line, the first while its function runs.
theorem take_turns_cancelled : ∃ r : Replica Nat, execute Replica.next Replica.start
    [.call true,.call true,.call true,.cancel 1,.cancel 0,.ends 0 7,.finished 0,.resume 1,.resume 2] = some r ∧
      r.started = [0,2] ∧ r.occupants.length ≤ 1 := by
  refine ⟨_,rfl,rfl,?_⟩
  exact (exclusive_jobs_take_turns (show execute Replica.next (Replica.start : Replica Nat) [.call true,.call true,.call true,
    .cancel 1,.cancel 0,.ends 0 7,.finished 0,.resume 1,.resume 2] = some _ from rfl)).1

end
end
end Replica

-- `stream_blocking`: what its function hands to the loop from its thread, in order. A
-- callback puts an item or the end into the queue, or settles the worker.
inductive Callback (Item : Type) where
  | put (item : Option Item)
  | settle

inductive Consumer (Result : Type) where
  | reading
  | joining
  | ended (result : Result)
  | closed

structure Stream (Item Result : Type) where
  emitted : List Item
  returned : Option Result
  ready : List (Callback Item)
  queue : List (Option Item)
  settled : Bool
  delivered : List Item
  consumer : Consumer Result

inductive Move (Item Result : Type) where
  | emit (item : Item)
  | returns (result : Result)
  | turn
  | take
  | close

namespace Stream
section
variable {Item Result : Type}

def start : Stream Item Result := ⟨[],none,[],[],false,[],.reading⟩

def next (s : Stream Item Result) : Move Item Result → Option (Stream Item Result)
  | .emit item => if s.returned.isNone then
      some {s with emitted := s.emitted ++ [item],ready := s.ready ++ [.put (some item)]} else none
  | .returns result => if s.returned.isNone then
      some {s with returned := some result,ready := s.ready ++ [.put none,.settle]} else none
  | .turn => match s.ready with
    | .put item :: rest => some {s with ready := rest,queue := s.queue ++ [item]}
    | .settle :: rest => some {s with ready := rest,settled := true}
    | [] => none
  | .take => match s.consumer,s.queue with
    | .reading,some item :: rest => some {s with queue := rest,delivered := s.delivered ++ [item]}
    | .reading,none :: rest => some {s with queue := rest,consumer := .joining}
    | .joining,_ => if s.settled then s.returned.map fun result => {s with consumer := .ended result} else none
    | _,_ => none
  | .close => match s.consumer with
    | .reading | .joining => some {s with consumer := .closed}
    | _ => none

-- What is still to come, in order.
def line (s : Stream Item Result) : List (Option Item) :=
  s.queue ++ s.ready.filterMap fun callback => match callback with
    | .put item => some item
    | .settle => none

def Followed (s : Stream Item Result) : Prop := match s.consumer with
  | .reading => s.delivered.map some ++ s.line = s.emitted.map some ++ if s.returned.isSome then [none] else []
  | .joining => s.line = [] ∧ s.delivered = s.emitted ∧ s.returned.isSome
  | .ended result => s.line = [] ∧ s.delivered = s.emitted ∧ s.returned = some result
  | .closed => s.delivered <+: s.emitted

structure Sound (s : Stream Item Result) : Prop where
  followed : s.Followed
  due : s.returned.isSome → s.settled = true ∨ .settle ∈ s.ready

theorem start_sound : (start : Stream Item Result).Sound := ⟨rfl,fun returned => by cases returned⟩

section
variable {s t : Stream Item Result}

theorem Sound.delivered (sound : s.Sound) : s.delivered <+: s.emitted := by
  have followed := sound.followed
  unfold Followed at followed
  split at followed
  · have items := congrArg (List.filterMap id) followed
    have plain : ∀ items : List Item, (items.map some).filterMap id = items := fun items => by simp [List.filterMap_map]
    rw [List.filterMap_append,List.filterMap_append,plain,plain] at items
    refine ⟨s.line.filterMap id,items.trans ?_⟩
    split <;> simp
  · exact ⟨[],by rw [List.append_nil,followed.2.1]⟩
  · exact ⟨[],by rw [List.append_nil,followed.2.1]⟩
  · exact followed

theorem emit_sound {item : Item} (sound : s.Sound) (emitted : s.next (.emit item) = some t) : t.Sound := by
  have followed := sound.followed
  have ahead := sound.delivered
  simp only [next] at emitted
  split at emitted
  · rename_i going
    cases emitted
    have none_ : s.returned = none := Option.isNone_iff_eq_none.mp going
    refine ⟨?_,fun returned => by rw [none_] at returned; cases returned⟩
    unfold Followed at followed ⊢
    cases consumer : s.consumer with
    | reading =>
        simp only [consumer,none_,line,Option.isSome_none,Bool.false_eq_true,if_false,List.append_nil] at followed
        simp only [line,none_,List.filterMap_append,List.map_append,Option.isSome_none,Bool.false_eq_true,if_false,
          List.append_nil,← followed]
        simp
    | joining =>
        simp only [consumer,none_] at followed
        cases followed.2.2
    | ended result =>
        simp only [consumer,none_] at followed
        cases followed.2.2
    | closed => exact ahead.trans (List.prefix_append ..)
  · cases emitted

theorem returns_sound {result : Result} (sound : s.Sound) (returned : s.next (.returns result) = some t) : t.Sound := by
  have followed := sound.followed
  simp only [next] at returned
  split at returned
  · rename_i going
    cases returned
    have none_ : s.returned = none := Option.isNone_iff_eq_none.mp going
    refine ⟨?_,fun _ => .inr (List.mem_append_right _ (by simp))⟩
    unfold Followed at followed ⊢
    cases consumer : s.consumer with
    | reading =>
        simp only [consumer,none_,line,Option.isSome_none,Bool.false_eq_true,if_false,List.append_nil] at followed
        simp only [line,List.filterMap_append,Option.isSome_some,if_true,← followed]
        simp
    | joining =>
        simp only [consumer,none_] at followed
        cases followed.2.2
    | ended result =>
        simp only [consumer,none_] at followed
        cases followed.2.2
    | closed =>
        simp only [consumer] at followed
        exact followed
  · cases returned

theorem turn_sound (sound : s.Sound) (turned : s.next .turn = some t) : t.Sound := by
  have followed := sound.followed
  have due := sound.due
  simp only [next] at turned
  split at turned
  · rename_i item rest ready
    cases turned
    have line_ : s.line = (s.queue ++ [item]) ++ rest.filterMap (fun callback => match callback with
        | .put item => some item
        | .settle => none) := by
      simp [line,ready]
    refine ⟨?_,?_⟩
    · unfold Followed at followed ⊢
      rw [line_] at followed
      exact followed
    · intro returned
      rcases due returned with settled | there
      · exact .inl settled
      · rw [ready] at there
        rcases List.mem_cons.mp there with same | later
        · cases same
        · exact .inr later
  · rename_i rest ready
    cases turned
    have line_ : s.line = s.queue ++ rest.filterMap (fun callback => match callback with
        | .put item => some item
        | .settle => none) := by
      simp [line,ready]
    refine ⟨?_,fun _ => .inl rfl⟩
    unfold Followed at followed ⊢
    rw [line_] at followed
    exact followed
  · cases turned

-- The end comes last.
theorem end_last {before after : List Item} {later : List (Option Item)} {ended : Bool}
    (same : before.map some ++ none :: later = after.map some ++ if ended then [none] else []) :
    later = [] ∧ before = after ∧ ended = true := by
  induction before generalizing after with
  | nil =>
      cases after with
      | nil =>
          cases ended with
          | false => cases same
          | true =>
              cases same
              exact ⟨rfl,rfl,rfl⟩
      | cons item rest => cases same
  | cons item rest ih =>
      cases after with
      | nil => cases ended <;> cases same
      | cons other more =>
          obtain ⟨head,tail⟩ := List.cons.inj same
          cases head
          obtain ⟨none_,rfl,last⟩ := ih tail
          exact ⟨none_,rfl,last⟩

theorem take_sound (sound : s.Sound) (taken : s.next .take = some t) : t.Sound := by
  have followed := sound.followed
  simp only [next] at taken
  split at taken
  · rename_i item rest consumer queue
    cases taken
    refine ⟨?_,sound.due⟩
    simp only [Followed,consumer,line,queue] at followed ⊢
    simpa using followed
  · rename_i rest consumer queue
    cases taken
    refine ⟨?_,sound.due⟩
    simp only [Followed,consumer,line,queue,List.cons_append] at followed ⊢
    exact end_last followed
  · rename_i consumer
    split at taken
    · obtain ⟨result,returned,rfl⟩ := Option.map_eq_some_iff.mp taken
      refine ⟨?_,sound.due⟩
      simp only [Followed,consumer] at followed ⊢
      exact ⟨followed.1,followed.2.1,returned⟩
    · cases taken
  · cases taken

theorem close_sound (sound : s.Sound) (closed : s.next .close = some t) : t.Sound := by
  have ahead := sound.delivered
  simp only [next] at closed
  split at closed
  · cases closed
    exact ⟨ahead,sound.due⟩
  · cases closed
    exact ⟨ahead,sound.due⟩
  · cases closed

theorem next_sound {move : Move Item Result} (sound : s.Sound) (taken : s.next move = some t) : t.Sound := by
  cases move with
  | emit item => exact emit_sound sound taken
  | returns result => exact returns_sound sound taken
  | turn => exact turn_sound sound taken
  | take => exact take_sound sound taken
  | close => exact close_sound sound taken

def measure (s : Stream Item Result) : Nat := 2 * s.ready.length + s.queue.length + match s.consumer with
  | .reading => 2
  | .joining => 1
  | .ended _ | .closed => 0

-- A function that has returned, before its outcome is out.
structure Returned (emitted : List Item) (result : Result) (s : Stream Item Result) : Prop where
  sound : s.Sound
  emitted : s.emitted = emitted
  returned : s.returned = some result
  open_ : s.consumer ≠ .closed

theorem turn_keeps (turned : s.next .turn = some t) :
    t.emitted = s.emitted ∧ t.returned = s.returned ∧ t.consumer = s.consumer := by
  simp only [next] at turned
  split at turned
  · cases turned
    exact ⟨rfl,rfl,rfl⟩
  · cases turned
    exact ⟨rfl,rfl,rfl⟩
  · cases turned

theorem take_keeps (taken : s.next .take = some t) :
    t.emitted = s.emitted ∧ t.returned = s.returned ∧ t.consumer ≠ .closed := by
  simp only [next] at taken
  split at taken
  · rename_i consumer _
    cases taken
    refine ⟨rfl,rfl,?_⟩
    rw [consumer]
    exact fun closed => by cases closed
  · cases taken
    exact ⟨rfl,rfl,fun closed => by cases closed⟩
  · split at taken
    · obtain ⟨result,_,rfl⟩ := Option.map_eq_some_iff.mp taken
      exact ⟨rfl,rfl,fun closed => by cases closed⟩
    · cases taken
  · cases taken

theorem returned_kept {emitted : List Item} {result : Result} {move : Move Item Result} (returned : Returned emitted result s)
    (own : move = .turn ∨ move = .take) (taken : s.next move = some t) : Returned emitted result t := by
  rcases own with rfl | rfl
  · obtain ⟨items,outcome,consumer⟩ := turn_keeps taken
    exact ⟨turn_sound returned.sound taken,items.trans returned.emitted,outcome.trans returned.returned,
      consumer ▸ returned.open_⟩
  · obtain ⟨items,outcome,open_⟩ := take_keeps taken
    exact ⟨take_sound returned.sound taken,items.trans returned.emitted,outcome.trans returned.returned,open_⟩

theorem returned_moves {emitted : List Item} {result : Result} (returned : Returned emitted result s)
    (unended : s.consumer ≠ .ended result) :
    ∃ move t, (move = .turn ∨ move = .take) ∧ s.next move = some t ∧ t.measure < s.measure := by
  have followed := returned.sound.followed
  have due := returned.sound.due (by rw [returned.returned]; rfl)
  cases ready : s.ready with
  | cons callback rest =>
      cases callback with
      | put item =>
          refine ⟨.turn,_,.inl rfl,by simp only [next,ready]; rfl,?_⟩
          simp only [measure,ready,List.length_cons,List.length_append,List.length_nil]
          omega
      | settle =>
          refine ⟨.turn,_,.inl rfl,by simp only [next,ready]; rfl,?_⟩
          simp only [measure,ready,List.length_cons]
          omega
  | nil =>
      have settled : s.settled = true := by
        rcases due with settled | there
        · exact settled
        · rw [ready] at there
          cases there
      cases consumer : s.consumer with
      | reading =>
          simp only [Followed,consumer,line,ready,returned.returned,Option.isSome_some,if_true,List.filterMap_nil,
            List.append_nil] at followed
          cases queue : s.queue with
          | nil =>
              rw [queue,List.append_nil] at followed
              have last : none ∈ s.delivered.map some := by
                rw [followed]
                exact List.mem_append_right _ List.mem_cons_self
              obtain ⟨_,_,same⟩ := List.mem_map.mp last
              cases same
          | cons first rest =>
              cases first with
              | some item =>
                  refine ⟨.take,_,.inr rfl,by simp only [next,consumer,queue]; rfl,?_⟩
                  simp only [measure,queue,consumer,List.length_cons]
                  omega
              | none =>
                  refine ⟨.take,_,.inr rfl,by simp only [next,consumer,queue]; rfl,?_⟩
                  simp only [measure,queue,consumer,List.length_cons]
                  omega
      | joining =>
          refine ⟨.take,_,.inr rfl,by simp only [next,consumer,settled,returned.returned]; rfl,?_⟩
          simp only [measure,consumer]
          omega
      | ended other =>
          simp only [Followed,consumer,returned.returned,Option.some.injEq] at followed
          exact absurd (by rw [consumer,followed.2.2]) unended
      | closed => exact absurd consumer returned.open_

-- A stream brings the items of its function in order, and ends with the function's own
-- outcome once it has brought them all; a function that has returned ends a stream that
-- is not closed.
theorem stream_delivers {moves : List (Move Item Result)} (ran : execute Stream.next Stream.start moves = some s) :
    s.delivered <+: s.emitted ∧
    (∀ result, s.consumer = .ended result → s.returned = some result ∧ s.delivered = s.emitted) ∧
    ∀ result, s.returned = some result → s.consumer ≠ .closed → ∃ rest t, (∀ move ∈ rest, move = .turn ∨ move = .take) ∧
      execute Stream.next s rest = some t ∧ t.consumer = .ended result ∧ t.delivered = s.emitted := by
  have sound : s.Sound := execute_invariant (fun _ _ _ sound taken => next_sound sound taken) start_sound ran
  refine ⟨sound.delivered,?_,?_⟩
  · intro result ended
    have followed := sound.followed
    simp only [Followed,ended] at followed
    exact ⟨followed.2.2,followed.2.1⟩
  · intro result returned open_
    obtain ⟨rest,t,own,after,ended⟩ : ∃ rest t, (∀ move ∈ rest, move = .turn ∨ move = .take) ∧
        execute Stream.next s rest = some t ∧ t.consumer = .ended result :=
      execute_rests measure (fun _ _ _ kept own taken => returned_kept kept own taken)
        (fun _ kept unended => returned_moves kept unended) (⟨sound,rfl,returned,open_⟩ : Returned s.emitted result s)
    have last := execute_within (fun move there _ _ kept taken => returned_kept kept (own move there) taken)
      (⟨sound,rfl,returned,open_⟩ : Returned s.emitted result s) after
    have followed := last.sound.followed
    simp only [Followed,ended] at followed
    exact ⟨rest,t,own,after,ended,followed.2.1.trans last.emitted⟩

theorem stream_delivers_two : ∃ s : Stream Nat String, execute Stream.next Stream.start
    [.emit 1,.turn,.emit 2,.take,.returns "done",.turn] = some s ∧ ∃ rest t, execute Stream.next s rest = some t ∧
      t.consumer = .ended "done" ∧ t.delivered = [1,2] := by
  refine ⟨_,rfl,?_⟩
  obtain ⟨_,_,drains⟩ := stream_delivers (show execute Stream.next (Stream.start : Stream Nat String)
    [.emit 1,.turn,.emit 2,.take,.returns "done",.turn] = some _ from rfl)
  obtain ⟨rest,t,_,ran,ended,all⟩ := drains "done" rfl (fun closed => by cases closed)
  exact ⟨rest,t,ran,ended,all⟩

end
end
end Stream
end Modelship.Infer.Blocking

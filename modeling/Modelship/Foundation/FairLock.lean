import Modelship.Foundation.Dict

namespace Foundation

-- A waiter of an asyncio lock: its future is pending, done, done with a cancel that its
-- task has yet to see, or cancelled.
inductive Waiter where
  | pending
  | woken
  | doomed
  | cancelled
  deriving DecidableEq

namespace Waiter

def asleep : Waiter → Bool
  | pending | cancelled => true
  | woken | doomed => false

-- Still to get the lock.
def live : Waiter → Bool
  | pending | woken => true
  | doomed | cancelled => false

def cancel : Waiter → Waiter
  | pending => cancelled
  | woken => doomed
  | other => other

theorem cancel_asleep {waiter : Waiter} (asleep : waiter.asleep = true) : waiter.cancel.asleep = true := by
  cases waiter <;> first | rfl | cases asleep

theorem cancel_waits (waiter : Waiter) : waiter.cancel ≠ .pending := by
  cases waiter <;> exact fun same => by cases same

theorem cancel_live {waiter : Waiter} : waiter.cancel.live = false := by
  cases waiter <;> rfl

end Waiter

-- asyncio.Lock, whose waiters stand in line.
structure FairLock (Key : Type) where
  locked : Bool
  waiters : List (Key × Waiter)

namespace FairLock
section
variable {Key : Type}

def free : FairLock Key := ⟨false,[]⟩

def wakeUpFirst : List (Key × Waiter) → List (Key × Waiter)
  | (key,.pending) :: rest => (key,.woken) :: rest
  | waiters => waiters

def keys (l : FairLock Key) : List Key := l.waiters.map Prod.fst

-- Taken at once only where nobody stands in line but those who gave up.
def acquire (l : FairLock Key) (key : Key) : FairLock Key × Bool :=
  if l.locked = false ∧ ∀ waiter ∈ l.waiters, waiter.2 = .cancelled then (⟨true,l.waiters⟩,true)
  else (⟨l.locked,l.waiters ++ [(key,.pending)]⟩,false)

-- Releasing a lock that is free raises.
def release (l : FairLock Key) : Option (FairLock Key) :=
  if l.locked then some ⟨false,wakeUpFirst l.waiters⟩ else none

-- No waiter but the first is awake, none while the lock is held, and the first of a free
-- lock is not left asleep.
structure Fair (l : FairLock Key) : Prop where
  distinct : l.keys.Nodup
  behind : ∀ waiter ∈ l.waiters.tail, waiter.2.asleep = true
  held : l.locked = true → ∀ waiter ∈ l.waiters, waiter.2.asleep = true
  first : l.locked = false → ∀ waiter ∈ l.waiters.head?, waiter.2 ≠ .pending

section
variable {waiters : List (Key × Waiter)}

@[simp] theorem wake_keys : (wakeUpFirst waiters).map Prod.fst = waiters.map Prod.fst := by
  unfold wakeUpFirst
  split <;> rfl

@[simp] theorem wake_tail : (wakeUpFirst waiters).tail = waiters.tail := by
  unfold wakeUpFirst
  split <;> rfl

@[simp] theorem wake_length : (wakeUpFirst waiters).length = waiters.length := by
  unfold wakeUpFirst
  split <;> rfl

theorem wake_first : ∀ waiter ∈ (wakeUpFirst waiters).head?, waiter.2 ≠ .pending := by
  intro waiter there
  unfold wakeUpFirst at there
  split at there
  · cases there
    exact fun same => by cases same
  · rename_i sleepless
    intro same
    obtain ⟨rest,rfl⟩ : ∃ rest, waiters = waiter :: rest := by
      cases waiters with
      | nil => cases there
      | cons head rest =>
          cases there
          exact ⟨rest,rfl⟩
    exact sleepless waiter.1 rest (by rw [← same])

theorem mem_wake {waiter : Key × Waiter} (there : waiter ∈ wakeUpFirst waiters) :
    ∃ before ∈ waiters, before.1 = waiter.1 ∧ (waiter.2.live = true → before.2.live = true) := by
  unfold wakeUpFirst at there
  split at there
  · rcases List.mem_cons.mp there with rfl | later
    · exact ⟨_,List.mem_cons_self,rfl,fun _ => rfl⟩
    · exact ⟨waiter,List.mem_cons_of_mem _ later,rfl,id⟩
  · exact ⟨waiter,there,rfl,id⟩

end

section
variable {l m : FairLock Key} {key : Key}

theorem free_fair : (free : FairLock Key).Fair := by
  refine ⟨List.nodup_nil,?_,?_,?_⟩
  · intro waiter there
    cases there
  · intro locked
    cases locked
  · intro _ waiter there
    cases there

theorem acquire_fair (fair : l.Fair) (fresh : key ∉ l.keys) : (l.acquire key).1.Fair := by
  unfold acquire
  split
  · rename_i clear
    refine ⟨fair.distinct,fair.behind,?_,?_⟩
    · intro _ waiter there
      rw [clear.2 waiter there]
      rfl
    · intro locked
      cases locked
  · rename_i busy
    refine ⟨?_,?_,?_,?_⟩
    · simp only [keys,List.map_append,List.map_cons,List.map_nil]
      exact List.nodup_append.mpr ⟨fair.distinct,List.nodup_singleton key,fun one there other single => by
        cases List.mem_singleton.mp single
        exact fun same => fresh (same ▸ there)⟩
    · intro waiter there
      cases waiters : l.waiters with
      | nil =>
          rw [waiters] at there
          cases there
      | cons head rest =>
          rw [waiters,List.cons_append,List.tail_cons] at there
          rcases List.mem_append.mp there with earlier | new
          · exact fair.behind waiter (by rw [waiters]; exact earlier)
          · cases List.mem_singleton.mp new
            rfl
    · intro locked waiter there
      rcases List.mem_append.mp there with earlier | new
      · exact fair.held locked waiter earlier
      · cases List.mem_singleton.mp new
        rfl
    · intro open_ waiter there
      cases waiters : l.waiters with
      | nil => exact absurd ⟨open_,by rw [waiters]; exact fun _ there => absurd there List.not_mem_nil⟩ busy
      | cons head rest =>
          simp only [waiters,List.cons_append,List.head?_cons,Option.mem_def,Option.some.injEq] at there
          exact fair.first open_ waiter (by rw [waiters,there]; rfl)

theorem release_fair (fair : l.Fair) (released : l.release = some m) : m.Fair := by
  unfold release at released
  split at released
  · cases released
    refine ⟨?_,?_,?_,fun _ => wake_first⟩
    · rw [keys,wake_keys]
      exact fair.distinct
    · rw [wake_tail]
      exact fair.behind
    · intro locked
      cases locked
  · cases released

end

theorem tail_filter {Item : Type} {keep : Item → Bool} {items : List Item} {item : Item}
    (there : item ∈ (items.filter keep).tail) : item ∈ items.tail := by
  cases items with
  | nil => cases there
  | cons head rest =>
      rw [List.filter_cons] at there
      split at there
      · exact (List.mem_filter.mp there).1
      · exact (List.mem_filter.mp (List.mem_of_mem_tail there)).1

section
variable [DecidableEq Key]

def cancel (l : FairLock Key) (key : Key) : FairLock Key :=
  ⟨l.locked,l.waiters.map fun waiter => if waiter.1 = key then (waiter.1,waiter.2.cancel) else waiter⟩

def standing (l : FairLock Key) (key : Key) : Option Waiter := (l.waiters.find? (·.1 = key)).map (·.2)

def without (l : FairLock Key) (key : Key) : List (Key × Waiter) := l.waiters.filter (·.1 ≠ key)

-- Whoever gives up lets the next one have a lock that is free.
def leave (l : FairLock Key) (key : Key) : FairLock Key :=
  ⟨l.locked,if l.locked then l.without key else wakeUpFirst (l.without key)⟩

-- A waiter's task goes on: with the lock, or out of the line.
def resume (l : FairLock Key) (key : Key) : Option (FairLock Key × Bool) :=
  match l.standing key with
  | some .woken => some (⟨true,l.without key⟩,true)
  | some .doomed | some .cancelled => some (l.leave key,false)
  | some .pending | none => none

section
variable {l m : FairLock Key} {key : Key} {got : Bool}

theorem standing_mem {waiter : Waiter} (found : l.standing key = some waiter) : (key,waiter) ∈ l.waiters := by
  obtain ⟨entry,hit,rfl⟩ := Option.map_eq_some_iff.mp found
  have same : entry.1 = key := by simpa using List.find?_some hit
  rw [← same]
  exact List.mem_of_find?_eq_some hit

theorem mem_standing (fair : l.Fair) {waiter : Waiter} (there : (key,waiter) ∈ l.waiters) : l.standing key = some waiter := by
  have distinct := fair.distinct
  unfold keys at distinct
  unfold standing
  generalize l.waiters = waiters at distinct there
  induction waiters with
  | nil => cases there
  | cons head rest ih =>
      obtain ⟨fresh,others⟩ := List.nodup_cons.mp distinct
      rcases List.mem_cons.mp there with rfl | later
      · simp
      · have apart : head.1 ≠ key := by
          rintro rfl
          exact fresh (List.mem_map.mpr ⟨_,later,rfl⟩)
        simpa [apart] using ih others later

-- Who gets the lock stood first.
theorem resume_first (fair : l.Fair) (woken : l.standing key = some .woken) :
    ∃ rest, l.waiters = (key,.woken) :: rest ∧ l.without key = rest := by
  have there := standing_mem woken
  have behind := fair.behind
  have distinct := fair.distinct
  unfold keys at distinct
  unfold without
  cases waiters : l.waiters with
  | nil =>
      rw [waiters] at there
      cases there
  | cons head rest =>
      rw [waiters] at there behind distinct
      rcases List.mem_cons.mp there with rfl | later
      · refine ⟨rest,rfl,?_⟩
        have fresh := (List.nodup_cons.mp distinct).1
        rw [List.filter_cons_of_neg (by simp),List.filter_eq_self]
        intro waiter member
        have apart : waiter.1 ≠ key := fun same => fresh (List.mem_map.mpr ⟨waiter,member,same⟩)
        simpa using apart
      · have asleep := behind _ later
        cases asleep

theorem cancel_keys : (l.cancel key).keys = l.keys := by
  unfold keys cancel
  rw [List.map_map]
  apply List.map_congr_left
  intro waiter _
  dsimp only [Function.comp_apply]
  split <;> rfl

theorem mem_cancel {waiter : Key × Waiter} (there : waiter ∈ (l.cancel key).waiters) :
    waiter ∈ l.waiters ∨ ∃ before ∈ l.waiters, before.1 = key ∧ waiter = (before.1,before.2.cancel) := by
  obtain ⟨before,here,same⟩ := List.mem_map.mp there
  split at same
  · rename_i mine
    exact .inr ⟨before,here,mine,same.symm⟩
  · exact .inl (same ▸ here)

theorem cancel_fair (fair : l.Fair) : (l.cancel key).Fair := by
  have sleeps : ∀ waiters : List (Key × Waiter), (∀ waiter ∈ waiters, waiter.2.asleep = true) → ∀ waiter ∈ waiters.map
      (fun waiter => if waiter.1 = key then (waiter.1,waiter.2.cancel) else waiter), waiter.2.asleep = true := by
    intro waiters asleep waiter there
    obtain ⟨before,here,rfl⟩ := List.mem_map.mp there
    split
    · exact Waiter.cancel_asleep (asleep before here)
    · exact asleep before here
  refine ⟨?_,?_,?_,?_⟩
  · rw [cancel_keys]
    exact fair.distinct
  · unfold cancel
    rw [← List.map_tail]
    exact sleeps _ fair.behind
  · intro locked
    exact sleeps _ (fair.held locked)
  · intro open_ waiter there
    unfold cancel at there
    rw [List.head?_map] at there
    obtain ⟨before,here,rfl⟩ := Option.map_eq_some_iff.mp there
    split
    · exact Waiter.cancel_waits _
    · exact fair.first open_ before here

theorem without_distinct (fair : l.Fair) : ((l.without key).map Prod.fst).Nodup :=
  (List.filter_sublist.map Prod.fst).nodup fair.distinct

theorem without_length (fair : l.Fair) {waiter : Waiter} (there : (key,waiter) ∈ l.waiters) :
    l.waiters.length = (l.without key).length + 1 :=
  (keyed_perm fair.distinct there).length_eq

theorem leave_length : (l.leave key).waiters.length = (l.without key).length := by
  unfold leave
  dsimp only
  split
  · rfl
  · exact wake_length

theorem leave_keys : (l.leave key).keys = (l.without key).map Prod.fst := by
  unfold leave keys
  split
  · rfl
  · exact wake_keys

theorem leave_live {waiter : Key × Waiter} (there : waiter ∈ (l.leave key).waiters) (lives : waiter.2.live = true) :
    ∃ before ∈ l.waiters, before.1 = waiter.1 ∧ before.2.live = true := by
  unfold leave at there
  dsimp only at there
  split at there
  · exact ⟨waiter,(List.mem_filter.mp there).1,rfl,lives⟩
  · obtain ⟨before,here,same,lived⟩ := mem_wake there
    exact ⟨before,(List.mem_filter.mp here).1,same,lived lives⟩

theorem leave_fair (fair : l.Fair) : (l.leave key).Fair := by
  unfold leave
  have behind : ∀ waiter ∈ (l.without key).tail, waiter.2.asleep = true := fun waiter there =>
    fair.behind waiter (tail_filter there)
  cases locked : l.locked with
  | true =>
      refine ⟨without_distinct fair,behind,?_,?_⟩
      · intro _ waiter there
        exact fair.held locked waiter (List.mem_filter.mp there).1
      · intro free
        cases free
  | false =>
      refine ⟨?_,?_,?_,fun _ => wake_first⟩
      · rw [keys]
        simpa using without_distinct fair
      · simpa using behind
      · intro held
        cases held

theorem resume_fair (fair : l.Fair) (resumed : l.resume key = some (m,got)) : m.Fair := by
  unfold resume at resumed
  split at resumed
  · rename_i woken
    cases resumed
    obtain ⟨rest,waiters,kept⟩ := resume_first fair woken
    have asleep : ∀ waiter ∈ rest, waiter.2.asleep = true := by
      intro waiter there
      exact fair.behind waiter (by rw [waiters]; exact there)
    rw [kept]
    refine ⟨?_,fun waiter there => asleep waiter (List.mem_of_mem_tail there),fun _ => asleep,?_⟩
    · rw [keys,← kept]
      exact without_distinct fair
    · intro locked
      cases locked
  · cases resumed
    exact leave_fair fair
  · cases resumed
    exact leave_fair fair
  · cases resumed
  · cases resumed

end
end
end
end FairLock
end Foundation

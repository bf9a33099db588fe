import Mathlib.Algebra.Order.Field.Rat
import Modelship.Foundation.Dict
import Modelship.Foundation.Tenure

namespace Modelship.Utils.DownloadLeases
open Foundation

def leaseSeconds : ℚ := 30
def idleExitSeconds : ℚ := 60

-- What a lease was granted for.
structure Term (Source : Type) where
  holder : String
  nodeId : String
  source : Source
  deriving DecidableEq

-- `_Lease`.
structure Lease (Source : Type) extends Term Source where
  expiresAt : ℚ
  cleaning : Bool
  deriving DecidableEq

-- `DownloadLeases`: `cleanups` are the running `_clean` tasks, each with the key and the
-- lease it was started for. `log` only records what became of the leases.
structure Service (Source : Type) where
  leases : Dict String (Lease Source)
  grantsFrom : ℚ
  lastCall : ℚ
  closing : Bool
  cleanups : List (String × Lease Source)
  log : List (Tenure String (Term Source))

namespace Service
section
variable {Source : Type} (s : Service Source) (now : ℚ)

def start : Service Source := ⟨.empty,now + leaseSeconds,now,false,[],[]⟩

-- `none` when granted, else what holds the key up.
def acquire (key : String) (source : Source) (holder nodeId : String) : Service Source × Option String :=
  let s := {s with lastCall := now}
  if s.closing then (s,some "lease service shutting down") else
  if now < s.grantsFrom then (s,some "lease service starting") else
  match s.leases.get? key with
  | some lease => (s,some ((if lease.cleaning then "cleaning up after " else "held by ") ++ lease.holder))
  | none =>
    ({s with
      leases := s.leases.set key ⟨⟨holder,nodeId,source⟩,now + leaseSeconds,false⟩
      log := s.log ++ [.granted key ⟨holder,nodeId,source⟩]},none)

def renew (key holder : String) : Service Source × Bool :=
  let s := {s with lastCall := now}
  match s.leases.get? key with
  | none => (s,false)
  | some lease =>
    if lease.cleaning || lease.holder ≠ holder then (s,false) else
    ({s with
      leases := s.leases.set key {lease with expiresAt := now + leaseSeconds}
      log := s.log ++ [.kept key lease.toTerm]},true)

def release (key holder : String) : Service Source :=
  let s := {s with lastCall := now}
  match s.leases.get? key with
  | none => s
  | some lease =>
    if !lease.cleaning && lease.holder = holder then
      {s with
        leases := s.leases.erase key
        log := s.log ++ [.released key lease.toTerm]}
    else s

def idle : Bool := s.leases.entries.isEmpty && idleExitSeconds ≤ now - s.lastCall

-- One round of the loop in `_reap`.
def reapOne (entry : String × Lease Source) : Service Source :=
  if entry.2.cleaning || now < entry.2.expiresAt then s else
  {s with
    leases := s.leases.set entry.1 {entry.2 with cleaning := true}
    cleanups := s.cleanups ++ [entry]
    log := s.log ++ [.reaped entry.1 entry.2.toTerm]}

def reap : Service Source :=
  let s := s.leases.entries.foldl (fun s entry => s.reapOne now entry) s
  if !s.closing && s.idle now then {s with closing := true} else s

-- The end of a running `_clean`: whether its removal succeeded or raised, it frees the key.
def cleaned (number : Nat) (_outcome : Except String Nat) : Service Source :=
  match s.cleanups[number]? with
  | none => s
  | some (key,lease) =>
    {s with
      leases := s.leases.erase key
      lastCall := now
      cleanups := s.cleanups.eraseIdx number
      log := s.log ++ [.cleaned key lease.toTerm]}

end
end Service

inductive Action (Source : Type) where
  | acquire (now : ℚ) (key : String) (source : Source) (holder nodeId : String)
  | renew (now : ℚ) (key holder : String)
  | release (now : ℚ) (key holder : String)
  | reap (now : ℚ)
  | cleaned (now : ℚ) (number : Nat) (outcome : Except String Nat)

def Service.next {Source : Type} (s : Service Source) : Action Source → Service Source
  | .acquire now key source holder nodeId => (s.acquire now key source holder nodeId).1
  | .renew now key holder => (s.renew now key holder).1
  | .release now key holder => s.release now key holder
  | .reap now => s.reap now
  | .cleaned now number outcome => s.cleaned now number outcome

-- The service after any calls, reaps and ends of cleanups, at any times.
def run {Source : Type} (now : ℚ) (actions : List (Action Source)) : Service Source :=
  actions.foldl Service.next (Service.start now)

namespace Service
section
variable {Source : Type} [DecidableEq Source] {s t : Service Source}

-- How a key stands in the table.
def standing (s : Service Source) (key : String) : Standing (Term Source) :=
  match s.leases.get? key with
  | none => .free
  | some lease => if lease.cleaning then .cleaning lease.toTerm else .held lease.toTerm

-- The table is what the log has led to, each running cleanup has its key's lease, and a
-- service that closes has none.
structure Orderly (s : Service Source) : Prop where
  traced : ∀ key, execute (follow key) .free s.log = some (s.standing key)
  tasks : ∀ task ∈ s.cleanups, s.leases.get? task.1 = some {task.2 with cleaning := true}
  apart : (s.cleanups.map Prod.fst).Nodup
  empty : s.closing = true → s.leases.entries = []

omit [DecidableEq Source] in
theorem standing_same {key : String} (same : t.leases.get? key = s.leases.get? key) : t.standing key = s.standing key := by
  unfold standing
  rw [same]

-- One more record moves its own key, and no other.
theorem Orderly.records (orderly : Orderly s) {event : Tenure String (Term Source)} (log : t.log = s.log ++ [event])
    (here : follow event.key (s.standing event.key) event = some (t.standing event.key))
    (others : ∀ key, key ≠ event.key → t.leases.get? key = s.leases.get? key) (key : String) :
    execute (follow key) .free t.log = some (t.standing key) := by
  rw [log]
  refine execute_append.mpr ⟨s.standing key,orderly.traced key,execute_cons.mpr ⟨t.standing key,?_,rfl⟩⟩
  by_cases same : key = event.key
  · rw [same]
    exact here
  · rw [standing_same (others key same)]
    unfold follow
    rw [if_pos (fun equal => same equal.symm)]

-- Nothing is recorded, and no lease changes.
theorem Orderly.same (orderly : Orderly s) (leases : t.leases = s.leases) (cleanups : t.cleanups = s.cleanups)
    (log : t.log = s.log) (empty : t.closing = true → t.leases.entries = []) : Orderly t := by
  constructor
  · intro key
    rw [log,standing_same (congrArg (Dict.get? · key) leases)]
    exact orderly.traced key
  · rw [leases,cleanups]
    exact orderly.tasks
  · rw [cleanups]
    exact orderly.apart
  · exact empty

omit [DecidableEq Source] in
theorem get_of_entries {key : String} (none_ : s.leases.entries = []) : s.leases.get? key = none := by
  by_contra found
  obtain ⟨lease,found⟩ := Option.ne_none_iff_exists'.mp found
  have there := Dict.get_some_mem found
  rw [none_] at there
  cases there

-- A lease that is not under cleanup has no task.
theorem Orderly.untasked (orderly : Orderly s) {key : String}
    (unclean : ∀ lease, s.leases.get? key = some lease → lease.cleaning = false) : ∀ task ∈ s.cleanups, task.1 ≠ key := by
  intro task there same
  have cleans := unclean _ (same ▸ orderly.tasks task there)
  cases cleans

-- A lease stands in the table, so the service is not closing.
theorem Orderly.serves (orderly : Orderly s) {key : String} {lease : Lease Source} (found : s.leases.get? key = some lease) :
    s.closing ≠ true := by
  intro closing
  have none_ : s.leases.get? key = none := get_of_entries (orderly.empty closing)
  rw [found] at none_
  cases none_

-- A call writes one lease that is not under cleanup, and records it.
theorem Orderly.writes (orderly : Orderly s) {event : Tenure String (Term Source)} (log : t.log = s.log ++ [event])
    (here : follow event.key (s.standing event.key) event = some (t.standing event.key))
    (others : ∀ key, key ≠ event.key → t.leases.get? key = s.leases.get? key) (cleanups : t.cleanups = s.cleanups)
    (unclean : ∀ lease, s.leases.get? event.key = some lease → lease.cleaning = false)
    (empty : t.closing = true → t.leases.entries = []) : Orderly t := by
  constructor
  · exact orderly.records log here others
  · intro task there
    rw [cleanups] at there
    rw [others task.1 (orderly.untasked unclean task there)]
    exact orderly.tasks task there
  · rw [cleanups]
    exact orderly.apart
  · exact empty

-- The same of a lease that is found.
theorem Orderly.rewrites (orderly : Orderly s) {event : Tenure String (Term Source)} {lease : Lease Source}
    (log : t.log = s.log ++ [event]) (found : s.leases.get? event.key = some lease) (held : lease.cleaning = false)
    (here : follow event.key (s.standing event.key) event = some (t.standing event.key))
    (others : ∀ key, key ≠ event.key → t.leases.get? key = s.leases.get? key) (cleanups : t.cleanups = s.cleanups)
    (closing : t.closing = s.closing) : Orderly t := by
  refine orderly.writes log here others cleanups ?_ ?_
  · intro other stored
    rw [found] at stored
    cases stored
    exact held
  · intro closed
    exact absurd (closing.symm.trans closed) (orderly.serves found)

theorem start_orderly (now : ℚ) : Orderly (start now : Service Source) :=
  ⟨fun _ => rfl,nofun,List.nodup_nil,nofun⟩

theorem acquire_orderly (orderly : Orderly s) (now : ℚ) (key : String) (source : Source) (holder nodeId : String) :
    Orderly (s.acquire now key source holder nodeId).1 := by
  have called : Orderly {s with lastCall := now} := orderly.same rfl rfl rfl orderly.empty
  unfold acquire
  simp only
  split
  · exact called
  · rename_i open_
    split
    · exact called
    · cases found : s.leases.get? key with
      | some lease => exact called
      | none =>
          apply orderly.writes rfl
          · simp [follow,Tenure.key,standing,found]
          · intro other apart
            exact (Dict.get_set ..).trans (if_neg (Ne.symm apart))
          · rfl
          · intro lease stored
            rw [Tenure.key,found] at stored
            cases stored
          · intro closing
            exact absurd closing open_

theorem renew_orderly (orderly : Orderly s) (now : ℚ) (key holder : String) : Orderly (s.renew now key holder).1 := by
  have called : Orderly {s with lastCall := now} := orderly.same rfl rfl rfl orderly.empty
  unfold renew
  simp only
  cases found : s.leases.get? key with
  | none => exact called
  | some lease =>
      simp only
      split
      · exact called
      · rename_i mine
        have held : lease.cleaning = false := by
          cases cleans : lease.cleaning with
          | false => rfl
          | true => exact absurd (by simp [cleans]) mine
        refine orderly.rewrites rfl found held ?_ ?_ rfl rfl
        · simp [follow,Tenure.key,standing,found,held]
        · intro other apart
          exact (Dict.get_set ..).trans (if_neg (Ne.symm apart))

theorem release_orderly (orderly : Orderly s) (now : ℚ) (key holder : String) : Orderly (s.release now key holder) := by
  have called : Orderly {s with lastCall := now} := orderly.same rfl rfl rfl orderly.empty
  unfold release
  simp only
  cases found : s.leases.get? key with
  | none => exact called
  | some lease =>
      simp only
      split
      · rename_i mine
        have held : lease.cleaning = false := by
          cases cleans : lease.cleaning with
          | false => rfl
          | true =>
              rw [cleans] at mine
              cases mine
        refine orderly.rewrites rfl found held ?_ ?_ rfl rfl
        · simp [follow,Tenure.key,standing,found,held]
        · intro other apart
          exact (Dict.get_erase ..).trans (if_neg (Ne.symm apart))
      · exact called

theorem reapOne_orderly (orderly : Orderly s) (now : ℚ) {entry : String × Lease Source}
    (found : s.leases.get? entry.1 = some entry.2) : Orderly (s.reapOne now entry) ∧
      ∀ key, key ≠ entry.1 → (s.reapOne now entry).leases.get? key = s.leases.get? key := by
  unfold reapOne
  split
  · exact ⟨orderly,fun _ _ => rfl⟩
  · rename_i expired
    have held : entry.2.cleaning = false := by
      cases cleans : entry.2.cleaning with
      | false => rfl
      | true => exact absurd (by simp [cleans]) expired
    have others : ∀ key, key ≠ entry.1 → (s.leases.set entry.1 {entry.2 with cleaning := true}).get? key =
        s.leases.get? key := fun key apart => (Dict.get_set ..).trans (if_neg (Ne.symm apart))
    have free : ∀ task ∈ s.cleanups, task.1 ≠ entry.1 := by
      apply orderly.untasked
      intro lease stored
      rw [found] at stored
      cases stored
      exact held
    refine ⟨?_,others⟩
    constructor
    · apply orderly.records rfl
      · simp [follow,Tenure.key,standing,found,held]
      · exact others
    · intro task there
      rcases List.mem_append.mp there with before | now
      · exact (others task.1 (free task before)).trans (orderly.tasks task before)
      · rw [List.mem_singleton.mp now]
        exact (Dict.get_set ..).trans (if_pos rfl)
    · rw [List.map_append,List.nodup_append]
      refine ⟨orderly.apart,by simp,?_⟩
      intro key there other now
      obtain ⟨task,present,rfl⟩ := List.mem_map.mp there
      rw [List.map_singleton,List.mem_singleton] at now
      rw [now]
      exact free task present
    · exact fun closing => absurd closing (orderly.serves found)

theorem reap_orderly (orderly : Orderly s) (now : ℚ) : Orderly (s.reap now) := by
  -- The leases still to come are in the table as the loop copied them.
  have all : ∀ (entries : List (String × Lease Source)) (s : Service Source), Orderly s → (entries.map Prod.fst).Nodup →
      (∀ entry ∈ entries, s.leases.get? entry.1 = some entry.2) →
      Orderly (entries.foldl (fun s entry => s.reapOne now entry) s) := by
    intro entries
    induction entries with
    | nil => exact fun _ orderly _ _ => orderly
    | cons entry rest ih =>
        intro s orderly distinct copied
        obtain ⟨fresh,others⟩ := List.nodup_cons.mp distinct
        obtain ⟨next,kept⟩ := reapOne_orderly orderly now (copied entry List.mem_cons_self)
        apply ih _ next others
        intro later there
        rw [kept later.1 (fun same => fresh (same ▸ List.mem_map.mpr ⟨later,there,rfl⟩))]
        exact copied later (List.mem_cons_of_mem _ there)
  have reaped := all s.leases.entries s orderly s.leases.distinct fun _ there => Dict.mem_get_some there
  unfold reap
  simp only
  split
  · rename_i quiet
    refine reaped.same ?_ ?_ ?_ ?_
    case refine_4 =>
      intro _
      rw [Bool.and_eq_true,idle,Bool.and_eq_true] at quiet
      exact List.isEmpty_iff.mp quiet.2.1
    all_goals rfl
  · exact reaped

theorem cleaned_orderly (orderly : Orderly s) (now : ℚ) (number : Nat) (outcome : Except String Nat) :
    Orderly (s.cleaned now number outcome) := by
  unfold cleaned
  cases task : s.cleanups[number]? with
  | none => exact orderly
  | some entry =>
      obtain ⟨key,lease⟩ := entry
      have there : (key,lease) ∈ s.cleanups := List.mem_of_getElem? task
      have found : s.leases.get? key = some {lease with cleaning := true} := orderly.tasks _ there
      have others : ∀ other, other ≠ key → (s.leases.erase key).get? other = s.leases.get? other :=
        fun other apart => (Dict.get_erase ..).trans (if_neg (Ne.symm apart))
      -- The tasks that go on are for other keys.
      have apart : ∀ other ∈ s.cleanups.eraseIdx number, other.1 ≠ key := by
        intro other present same
        obtain ⟨index,differs,at_⟩ := List.mem_eraseIdx_iff_getElem?.mp present
        have less : number < (s.cleanups.map Prod.fst).length := by
          rw [List.length_map]
          exact (List.getElem?_eq_some_iff.mp task).1
        have equal : (s.cleanups.map Prod.fst)[number]? = (s.cleanups.map Prod.fst)[index]? := by
          rw [List.getElem?_map,List.getElem?_map,task,at_]
          exact congrArg some same.symm
        exact differs ((List.getElem?_inj less orderly.apart).mp equal).symm
      constructor
      · apply orderly.records rfl
        · simp [follow,Tenure.key,standing,found]
        · exact others
      · intro other present
        exact (others other.1 (apart other present)).trans (orderly.tasks other (List.mem_of_mem_eraseIdx present))
      · exact orderly.apart.sublist ((List.eraseIdx_sublist s.cleanups number).map Prod.fst)
      · exact fun closing => absurd closing (orderly.serves found)

theorem next_orderly (orderly : Orderly s) (action : Action Source) : Orderly (s.next action) := by
  cases action with
  | acquire now key source holder nodeId => exact acquire_orderly orderly now key source holder nodeId
  | renew now key holder => exact renew_orderly orderly now key holder
  | release now key holder => exact release_orderly orderly now key holder
  | reap now => exact reap_orderly orderly now
  | cleaned now number outcome => exact cleaned_orderly orderly now number outcome

theorem run_orderly (now : ℚ) (actions : List (Action Source)) : Orderly (run now actions) := by
  have all : ∀ s : Service Source, Orderly s → Orderly (actions.foldl next s) := by
    induction actions with
    | nil => exact fun _ orderly => orderly
    | cons action rest ih => exact fun s orderly => ih _ (next_orderly orderly action)
  exact all (start now) (start_orderly now)

-- Two grants of a key that nothing has ended are one and the same.
theorem Orderly.single (orderly : Orderly s) {key : String} {term other : Term Source}
    {before after others later : List (Tenure String (Term Source))} (one : s.log = before ++ .granted key term :: after)
    (two : s.log = others ++ .granted key other :: later)
    (held : .released key term ∉ after ∧ .reaped key term ∉ after) (held_ : .released key other ∉ later ∧ .reaped key other ∉ later) :
    before = others ∧ term = other := by
  have ended : ∀ {term other : Term Source} {before after between later : List (Tenure String (Term Source))},
      s.log = before ++ .granted key term :: between ++ .granted key other :: later →
      after = between ++ .granted key other :: later →
      .released key term ∉ after → .reaped key term ∉ after → False := by
    intro term other before after between later split rest unreleased unreaped
    rcases grants_apart (orderly.traced key) split with back | ⟨taken,_⟩
    · exact unreleased (rest ▸ List.mem_append_left _ back)
    · exact unreaped (rest ▸ List.mem_append_left _ taken)
  rw [one] at two
  rcases List.append_eq_append_iff.mp two with ⟨between,rfl,rest⟩ | ⟨between,rfl,rest⟩
  · cases between with
    | nil =>
        cases rest
        exact ⟨(List.append_nil _).symm,rfl⟩
    | cons event between =>
        obtain ⟨first,more⟩ := List.cons.inj rest
        have split : s.log = before ++ .granted key term :: between ++ .granted key other :: later := by
          rw [one,more]
          simp
        exact (ended split more held.1 held.2).elim
  · cases between with
    | nil =>
        cases rest
        exact ⟨List.append_nil _,rfl⟩
    | cons event between =>
        obtain ⟨first,more⟩ := List.cons.inj rest
        have split : s.log = others ++ .granted key other :: between ++ .granted key term :: after := by
          rw [one,first]
        exact (ended split more held_.1 held_.2).elim

-- A holder whose lease was taken away has to be granted the key again to renew.
theorem Orderly.barred (orderly : Orderly s) {key : String} {term : Term Source}
    {before after : List (Tenure String (Term Source))} (reaped : s.log = before ++ .reaped key term :: after)
    (ungranted : ∀ other, .granted key other ∈ after → other.holder ≠ term.holder) (now : ℚ) :
    (s.renew now key term.holder).2 = false := by
  obtain ⟨one,two,_,taken,rest⟩ := follow_split (orderly.traced key) reaped
  rw [reaped_cleaning taken] at rest
  unfold renew
  simp only
  cases found : s.leases.get? key with
  | none => rfl
  | some lease =>
      simp only
      split
      · rfl
      · rename_i mine
        have held : lease.cleaning = false ∧ lease.holder = term.holder := by simpa using mine
        have stands : s.standing key = .held lease.toTerm := by simp [standing,found,held.1]
        rw [stands] at rest
        rcases held_granted rest with again | same
        · exact absurd held.2 (ungranted _ again)
        · cases same

-- What the leases guarantee. Each list of records is what one key, or all of them, went
-- through up to now.
structure Exclusive (s : Service Source) : Prop where
  one : ∀ key term other before after others later, s.log = before ++ .granted key term :: after →
    s.log = others ++ .granted key other :: later →
    .released key term ∉ after ∧ .reaped key term ∉ after → .released key other ∉ later ∧ .reaped key other ∉ later →
    before = others ∧ term = other
  handed : ∀ key term other before between after,
    s.log = before ++ .granted key term :: between ++ .granted key other :: after →
    .released key term ∈ between ∨ .cleaned key term ∈ between
  barred : ∀ key term before after, s.log = before ++ .reaped key term :: after →
    (∀ other, .granted key other ∈ after → other.holder ≠ term.holder) → ∀ now, (s.renew now key term.holder).2 = false
  frees : ∀ number key lease, s.cleanups[number]? = some (key,lease) →
    s.leases.get? key = some {lease with cleaning := true} ∧
    ∀ now outcome other, (s.cleaned now number outcome).leases.get? other = if key = other then none else s.leases.get? other
  open_ : s.closing = true → s.leases.entries = []

-- In every run, whatever the order and the times of calls, reaps and ends of cleanups.
theorem leases_exclude (now : ℚ) (actions : List (Action Source)) : Exclusive (run now actions) := by
  have orderly := run_orderly now actions
  constructor
  · intro key term other before after others later one two held held_
    exact orderly.single one two held held_
  · intro key term other before between after split
    exact (grants_apart (orderly.traced key) split).imp id And.right
  · intro key term before after reaped ungranted now
    exact orderly.barred reaped ungranted now
  · intro number key lease task
    refine ⟨orderly.tasks _ (List.mem_of_getElem? task),?_⟩
    intro now outcome other
    unfold cleaned
    rw [task]
    exact Dict.get_erase _ key other
  · exact orderly.empty

end
end Service

-- A holder that is reaped gets the key again and renews; a cleanup that fails frees the key
-- for another holder.
theorem reaped_lease_returns :
    (.reaped "k" ⟨"a","node-a",()⟩ ∈ (run 0 [.acquire 30 "k" () "a" "node-a",.reap 61,.cleaned 62 0 (.ok 1),
        .acquire 63 "k" () "a" "node-a"]).log ∧
      ((run 0 [.acquire 30 "k" () "a" "node-a",.reap 61,.cleaned 62 0 (.ok 1),
        .acquire 63 "k" () "a" "node-a"]).renew 64 "k" "a").2 = true) ∧
    ((run 0 [.acquire 30 "k" () "a" "node-a",.reap 61,.cleaned 62 0 (.error "unreachable"),
      .acquire 63 "k" () "b" "node-b"]).leases.get? "k").map (·.holder) = some "b" := by
  refine ⟨⟨?_,?_⟩,?_⟩
  · decide +kernel
  · decide +kernel
  · decide +kernel

end Modelship.Utils.DownloadLeases

import Modelship.Foundation.Dict
import Modelship.Foundation.Text

namespace Modelship.State
open Foundation

-- What one key of the actor's dict holds: a JSON value, or an append-only log of
-- (position, value) pairs. Positions count from 1.
inductive Cell (Value : Type) where
  | value (value : Value)
  | log (entries : List (Nat × Value))
  deriving DecidableEq

structure Held (Value : Type) where
  cell : Cell Value
  expiresAt : Option Int

def Held.expired (held : Held Value) (now : Int) : Bool :=
  match held.expiresAt with
  | none => false
  | some deadline => deadline ≤ now

def normalizePrefix (under : String) : String := normal under

def inNamespace (key under : String) : Bool :=
  under = "" || key = under || (under ++ "/").toList.isPrefixOf key.toList

-- Times are whole milliseconds of the actor's clock, read once by each call.
structure MemoryStoreActor (Value : Type) where
  data : Dict String (Held Value)
  lastSweep : Int
  sweepInterval : Int

namespace MemoryStoreActor

def start (now sweepInterval : Int) : MemoryStoreActor Value := ⟨.empty,now,sweepInterval⟩

def maybeSweep (s : MemoryStoreActor Value) (now : Int) : MemoryStoreActor Value :=
  if s.sweepInterval ≤ 0 ∨ now - s.lastSweep < s.sweepInterval then s else
  {s with data := s.data.select (fun entry => !entry.2.expired now),lastSweep := now}

-- An expired key is dropped by the read that finds it.
def live (s : MemoryStoreActor Value) (key : String) (now : Int) :
    MemoryStoreActor Value × Option (Held Value) :=
  match s.data.get? key with
  | none => (s,none)
  | some held => if held.expired now then ({s with data := s.data.erase key},none) else (s,some held)

def get (s : MemoryStoreActor Value) (key : String) (now : Int) :
    MemoryStoreActor Value × Option (Cell Value) :=
  let (s,held) := s.live key now
  (s,held.map Held.cell)

def deadline (now : Int) (ttl : Option Int) : Option Int := ttl.map (now + ·)

def set (s : MemoryStoreActor Value) (key : String) (value : Value) (ttl : Option Int) (now : Int) :
    MemoryStoreActor Value :=
  {s with data := s.data.set key ⟨.value value,deadline now ttl⟩}.maybeSweep now

def delete (s : MemoryStoreActor Value) (key : String) : MemoryStoreActor Value :=
  {s with data := s.data.erase key}

def list (s : MemoryStoreActor Value) (under : String) (now : Int) : List String :=
  (s.data.entries.filter (fun entry => inNamespace entry.1 (normalizePrefix under) && !entry.2.expired now)).map Prod.fst

def log (s : MemoryStoreActor Value) (key : String) (now : Int) :
    MemoryStoreActor Value × List (Nat × Value) :=
  match s.live key now with
  | (s,some ⟨.log entries,_⟩) => (s,entries)
  | (s,_) => (s,[])

-- Refused unless `position` is past the log's last entry.
def taken (entries : List (Nat × Value)) (position : Nat) : Bool :=
  match entries.getLast? with
  | some last => position ≤ last.1
  | none => false

def append (s : MemoryStoreActor Value) (key : String) (position : Nat) (value : Value)
    (ttl : Option Int) (now : Int) : MemoryStoreActor Value × Bool :=
  let (s,entries) := s.log key now
  if taken entries position then (s,false) else
  ({s with data := s.data.set key ⟨.log (entries ++ [(position,value)]),deadline now ttl⟩}.maybeSweep now,true)

def appendAndSet (s : MemoryStoreActor Value) (logKey : String) (position : Nat) (entry : Value)
    (key : String) (value : Value) (ttl : Option Int) (ifExists : Bool) (now : Int) :
    MemoryStoreActor Value × Bool :=
  let (s,held) := if ifExists then s.live key now else (s,none)
  if ifExists && held.isNone then (s,false) else
  match s.append logKey position entry ttl now with
  | (s,false) => (s,false)
  | (s,true) => (s.set key value ttl now,true)

def inRange (start : Int) (stop : Option Int) (position : Nat) : Bool :=
  start ≤ position && stop.all ((position : Int) ≤ ·)

theorem inRange_end (depth : Nat) : inRange 1 (some (depth + 1)) (depth + 1) = true := by
  simp only [inRange,Option.all_some,Bool.and_eq_true,decide_eq_true_eq]
  omega

def readRange (s : MemoryStoreActor Value) (key : String) (start : Int) (stop : Option Int) (now : Int) :
    MemoryStoreActor Value × List Value :=
  let (s,entries) := s.log key now
  (s,(entries.filter (fun entry => inRange start stop entry.1)).map Prod.snd)

def expire (s : MemoryStoreActor Value) (key : String) (ttl : Int) (now : Int) : MemoryStoreActor Value :=
  match s.live key now with
  | (s,some held) => {s with data := s.data.set key ⟨held.cell,some (now + ttl)⟩}
  | (s,none) => s

-- The store with no expiry. Every write of such a run has no ttl, so no key ever
-- has a deadline; the clock and the sweep then change nothing a caller can see.
def Timeless (s : MemoryStoreActor Value) : Prop :=
  ∀ key held, s.data.get? key = some held → held.expiresAt = none

-- What a caller can see of such a store.
def cells (s : MemoryStoreActor Value) (key : String) : Option (Cell Value) :=
  (s.data.get? key).map Held.cell

def logAt (s : MemoryStoreActor Value) (key : String) : List (Nat × Value) :=
  match s.cells key with
  | some (.log entries) => entries
  | _ => []

theorem start_timeless (now sweepInterval : Int) :
    Timeless (start now sweepInterval : MemoryStoreActor Value) := by
  intro key held found
  simp [start] at found

@[simp] theorem start_cells (now sweepInterval : Int) (key : String) :
    (start now sweepInterval : MemoryStoreActor Value).cells key = none := by
  simp [start,cells]

theorem live_timeless {s : MemoryStoreActor Value} (timeless : Timeless s) (key : String) (now : Int) :
    s.live key now = (s,s.data.get? key) := by
  unfold live
  cases found : s.data.get? key with
  | none => rfl
  | some held =>
      have never : held.expired now = false := by
        simp [Held.expired,timeless key held found]
      simp [never]

theorem get_timeless {s : MemoryStoreActor Value} (timeless : Timeless s) (key : String) (now : Int) :
    s.get key now = (s,s.cells key) := by
  simp [get,live_timeless timeless,cells]

theorem log_timeless {s : MemoryStoreActor Value} (timeless : Timeless s) (key : String) (now : Int) :
    s.log key now = (s,s.logAt key) := by
  unfold log logAt cells
  rw [live_timeless timeless]
  cases found : s.data.get? key with
  | none => rfl
  | some held =>
      obtain ⟨cell,expiresAt⟩ := held
      cases cell <;> rfl

theorem readRange_timeless {s : MemoryStoreActor Value} (timeless : Timeless s) (key : String)
    (start : Int) (stop : Option Int) (now : Int) :
    s.readRange key start stop now =
      (s,((s.logAt key).filter (fun entry => inRange start stop entry.1)).map Prod.snd) := by
  simp [readRange,log_timeless timeless]

theorem sweep_keeps {s : MemoryStoreActor Value} (timeless : Timeless s) (now : Int) :
    Timeless (s.maybeSweep now) ∧ (s.maybeSweep now).cells = s.cells := by
  unfold maybeSweep
  split
  · exact ⟨timeless,rfl⟩
  · have same : ∀ key, (s.data.select (fun entry => !entry.2.expired now)).get? key = s.data.get? key := by
      intro key
      rw [Dict.get_select]
      cases found : s.data.get? key with
      | none => rfl
      | some held => simp [Held.expired,timeless key held found]
    refine ⟨?_,?_⟩
    · intro key held found
      rw [same] at found
      exact timeless key held found
    · funext key
      simp only [cells,same]

-- Storing a cell under one key, as `set` and `append` do once they have decided to.
theorem store_timeless {s : MemoryStoreActor Value} (timeless : Timeless s) (key : String)
    (cell : Cell Value) (now : Int) :
    Timeless ({s with data := s.data.set key ⟨cell,none⟩}.maybeSweep now) ∧
      ∀ other, ({s with data := s.data.set key ⟨cell,none⟩}.maybeSweep now).cells other =
        if key = other then some cell else s.cells other := by
  have stored : Timeless {s with data := s.data.set key ⟨cell,none⟩} := by
    intro other held found
    simp only [Dict.get_set] at found
    split at found
    · cases found; rfl
    · exact timeless other held found
  obtain ⟨swept,same⟩ := sweep_keeps stored now
  refine ⟨swept,?_⟩
  intro other
  rw [same]
  simp only [cells,Dict.get_set]
  split <;> rfl

theorem set_timeless {s : MemoryStoreActor Value} (timeless : Timeless s) (key : String) (value : Value)
    (now : Int) :
    Timeless (s.set key value none now) ∧
      ∀ other, (s.set key value none now).cells other =
        if key = other then some (.value value) else s.cells other :=
  store_timeless timeless key (.value value) now

theorem delete_timeless {s : MemoryStoreActor Value} (timeless : Timeless s) (key : String) :
    Timeless (s.delete key) ∧
      ∀ other, (s.delete key).cells other = if key = other then none else s.cells other := by
  refine ⟨?_,?_⟩
  · intro other held found
    simp only [delete,Dict.get_erase] at found
    split at found
    · cases found
    · exact timeless other held found
  · intro other
    simp only [delete,cells,Dict.get_erase]
    split <;> rfl

theorem append_refused {s : MemoryStoreActor Value} (timeless : Timeless s) {key : String} {position : Nat}
    (held : taken (s.logAt key) position = true) (value : Value) (now : Int) :
    s.append key position value none now = (s,false) := by
  simp [append,log_timeless timeless,held]

theorem append_accepted {s : MemoryStoreActor Value} (timeless : Timeless s) {key : String} {position : Nat}
    (free : taken (s.logAt key) position = false) (value : Value) (now : Int) :
    ∃ t, s.append key position value none now = (t,true) ∧ Timeless t ∧
      ∀ other, t.cells other =
        if key = other then some (.log (s.logAt key ++ [(position,value)])) else s.cells other := by
  obtain ⟨kept,seen⟩ := store_timeless timeless key (.log (s.logAt key ++ [(position,value)])) now
  exact ⟨_,by simp [append,log_timeless timeless,free,deadline],kept,seen⟩

-- The conditional write of a record and its log entry, in one step: either nothing
-- is written, or both are.
theorem appendAndSet_cases {s : MemoryStoreActor Value} (timeless : Timeless s) (logKey : String)
    (position : Nat) (entry : Value) (key : String) (value : Value) (ifExists : Bool) (now : Int) :
    (s.appendAndSet logKey position entry key value none ifExists now = (s,false) ∧
      ((ifExists = true ∧ s.cells key = none) ∨ taken (s.logAt logKey) position = true)) ∨
    ((ifExists = true → s.cells key ≠ none) ∧ taken (s.logAt logKey) position = false ∧
      ∃ t, s.appendAndSet logKey position entry key value none ifExists now = (t,true) ∧ Timeless t ∧
        ∀ other, t.cells other =
          if key = other then some (.value value) else
          if logKey = other then some (.log (s.logAt logKey ++ [(position,entry)])) else s.cells other) := by
  have seen : s.data.get? key = none ↔ s.cells key = none := by simp [cells]
  by_cases refused : ifExists = true ∧ s.cells key = none
  · refine .inl ⟨?_,.inl refused⟩
    simp [appendAndSet,refused.1,live_timeless timeless,seen.mpr refused.2]
  · have proceeds : (if ifExists then s.live key now else (s,none)).1 = s ∧
        (ifExists && (if ifExists then s.live key now else (s,none)).2.isNone) = false := by
      cases ifExists with
      | false => exact ⟨rfl,rfl⟩
      | true =>
          have present : s.data.get? key ≠ none := fun gone => refused ⟨rfl,seen.mp gone⟩
          simp [live_timeless timeless,Option.isNone_eq_false_iff,Option.isSome_iff_ne_none,present]
    have opened : s.appendAndSet logKey position entry key value none ifExists now =
        match s.append logKey position entry none now with
        | (s,false) => (s,false)
        | (s,true) => (s.set key value none now,true) := by
      unfold appendAndSet
      simp only [proceeds]
      rfl
    cases busy : taken (s.logAt logKey) position with
    | true =>
        refine .inl ⟨?_,.inr rfl⟩
        rw [opened,append_refused timeless busy]
    | false =>
        obtain ⟨middle,appended,middleTimeless,middleCells⟩ := append_accepted timeless busy entry now
        obtain ⟨finalTimeless,finalCells⟩ := set_timeless middleTimeless key value now
        refine .inr ⟨fun wanted gone => refused ⟨wanted,gone⟩,rfl,_,by rw [opened,appended],finalTimeless,?_⟩
        intro other
        rw [finalCells,middleCells]

-- Entries of a log, oldest first, have strictly increasing positions.
def Ordered (entries : List (Nat × Value)) : Prop := entries.Pairwise (fun earlier later => earlier.1 < later.1)

theorem ordered_nil : Ordered ([] : List (Nat × Value)) := .nil

theorem taken_false {entries : List (Nat × Value)} {position : Nat} (ordered : Ordered entries)
    (free : taken entries position = false) : ∀ entry ∈ entries, entry.1 < position := by
  intro entry present
  rcases List.eq_nil_or_concat' entries with rfl | ⟨front,last,rfl⟩
  · cases present
  · have below : last.1 < position := by simpa [taken] using free
    rcases List.mem_append.mp present with early | final
    · have order := (List.pairwise_append.mp ordered).2.2 entry early last (by simp)
      omega
    · rw [List.mem_singleton.mp final]
      exact below

theorem ordered_append {entries : List (Nat × Value)} {position : Nat} (ordered : Ordered entries)
    (free : taken entries position = false) (value : Value) :
    Ordered (entries ++ [(position,value)]) := by
  refine List.pairwise_append.mpr ⟨ordered,List.pairwise_singleton _ _,?_⟩
  intro entry present last final
  rw [List.mem_singleton.mp final]
  exact taken_false ordered free entry present

theorem taken_of_mem {entries : List (Nat × Value)} {entry : Nat × Value} (ordered : Ordered entries)
    (present : entry ∈ entries) : taken entries entry.1 = true := by
  cases free : taken entries entry.1 with
  | true => rfl
  | false => exact absurd (taken_false ordered free entry present) (Nat.lt_irrefl _)

-- In an ordered log a position is held by at most one entry.
theorem readAt_mem {entries : List (Nat × Value)} {entry : Nat × Value} (ordered : Ordered entries)
    (present : entry ∈ entries) :
    (entries.filter (fun other => inRange entry.1 (some entry.1) other.1)).map Prod.snd = [entry.2] := by
  induction entries with
  | nil => cases present
  | cons head rest ih =>
      obtain ⟨first,others⟩ := List.pairwise_cons.mp ordered
      rcases List.mem_cons.mp present with rfl | later
      · have none : rest.filter (fun other => inRange entry.1 (some entry.1) other.1) = [] := by
          refine List.filter_eq_nil_iff.mpr ?_
          intro other found
          have order := first other found
          simp only [inRange,Option.all_some,Bool.and_eq_true,decide_eq_true_eq]
          omega
        simp [inRange] at none ⊢
        exact none
      · have order := first entry later
        have apart : inRange entry.1 (some entry.1) head.1 = false := by
          simp only [inRange,Option.all_some,Bool.and_eq_false_iff,decide_eq_false_iff_not]
          omega
        simpa [apart] using ih others later

theorem ordered_unique {entries : List (Nat × Value)} {position : Nat} {one two : Value} (ordered : Ordered entries)
    (first : (position,one) ∈ entries) (second : (position,two) ∈ entries) : one = two := by
  have read := readAt_mem ordered first
  rw [readAt_mem ordered second] at read
  exact (List.cons.inj read).1.symm

end MemoryStoreActor
end Modelship.State

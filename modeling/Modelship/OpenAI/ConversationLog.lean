import Modelship.Foundation.Runs
import Modelship.OpenAI.ResponsesState

namespace Modelship.ConversationLog
open Foundation State ResponsesState
open MemoryStoreActor (taken Ordered inRange)

abbrev Logs := String → List (Nat × Value)

def upTo (log : List (Nat × Value)) (depth : Nat) : List Value :=
  (log.filter (fun entry => inRange 1 (some depth) entry.1)).map Prod.snd

-- The entries a reader of (log, depth) collects, root first. A log whose first
-- entry has a base continues the path of that base.
inductive Path (logs : Logs) : String → Nat → List Entry → Prop where
  | root (held : taken (logs log) depth = true)
      (segment : (upTo (logs log) depth).mapM asEntry = some (first :: rest))
      (base : first.base = none) (whole : (first :: rest).length = depth) :
      Path logs log depth (first :: rest)
  | fork (held : taken (logs log) depth = true)
      (segment : (upTo (logs log) depth).mapM asEntry = some (first :: rest))
      (base : first.base = some origin) (whole : (first :: rest).length + origin.depth = depth)
      (earlier : Path logs origin.log origin.depth path) :
      Path logs log depth (path ++ first :: rest)

theorem Path.held {logs : Logs} (path : Path logs log depth found) : taken (logs log) depth = true := by
  cases path with
  | root held => exact held
  | fork held => exact held

theorem Path.read {s : Store} (timeless : s.Timeless) (identity : String) (now : Int)
    (path : Path (logsOf identity s) log depth found) :
    entries none identity now s log depth = (s,some found) := by
  induction path with
  | root held segment base whole =>
      unfold entries
      rw [MemoryStoreActor.readRange_timeless timeless]
      simp only [upTo,logsOf] at segment
      simp only [segment,base,whole,if_pos]
  | fork held segment base whole earlier ih =>
      unfold entries
      rw [MemoryStoreActor.readRange_timeless timeless]
      simp only [upTo,logsOf] at segment
      simp only [segment,base,whole,dif_pos,refresh,ih]

-- Logs only grow at their ends, past every position that is taken.
def Grows (before after : Logs) : Prop :=
  ∀ log, ∃ new, after log = before log ++ new ∧
    ∀ depth, taken (before log) depth = true → ∀ entry ∈ new, depth < entry.1

theorem upTo_grow {log new : List (Nat × Value)} {depth : Nat} (late : ∀ entry ∈ new, depth < entry.1) :
    upTo (log ++ new) depth = upTo log depth := by
  have none : new.filter (fun entry => inRange 1 (some depth) entry.1) = [] := by
    refine List.filter_eq_nil_iff.mpr ?_
    intro entry present
    have bound := late entry present
    simp only [inRange,Option.all_some,Bool.and_eq_true,decide_eq_true_eq]
    omega
  simp [upTo,none]

theorem taken_grow {log new : List (Nat × Value)} {depth : Nat} (held : taken log depth = true)
    (late : ∀ entry ∈ new, depth < entry.1) : taken (log ++ new) depth = true := by
  rcases List.eq_nil_or_concat' new with rfl | ⟨front,last,rfl⟩
  · simpa using held
  · have bound : depth < last.1 := late last (by simp)
    have below : depth ≤ last.1 := Nat.le_of_lt bound
    simpa [taken,← List.append_assoc] using below

theorem Path.grow {before after : Logs} (grown : Grows before after) (path : Path before log depth found) :
    Path after log depth found := by
  have carried : ∀ {log depth}, taken (before log) depth = true →
      taken (after log) depth = true ∧ upTo (after log) depth = upTo (before log) depth := by
    intro log depth held
    obtain ⟨new,same,late⟩ := grown log
    rw [same]
    exact ⟨taken_grow held (late depth held),upTo_grow (late depth held)⟩
  induction path with
  | root held segment base whole =>
      obtain ⟨kept,same⟩ := carried held
      exact .root kept (by rw [same]; exact segment) base whole
  | fork held segment base whole earlier ih =>
      obtain ⟨kept,same⟩ := carried held
      exact .fork kept (by rw [same]; exact segment) base whole ih

theorem upTo_all {log : List (Nat × Value)} {depth : Nat} (ordered : Ordered log)
    (free : taken log (depth + 1) = false) (value : Value) :
    upTo (log ++ [(depth + 1,value)]) (depth + 1) = upTo log depth ++ [value] := by
  have below := MemoryStoreActor.taken_false ordered free
  have same : log.filter (fun entry => inRange 1 (some (depth + 1)) entry.1) =
      log.filter (fun entry => inRange 1 (some depth) entry.1) := by
    refine List.filter_congr ?_
    intro entry present
    have bound := below entry present
    simp only [inRange,Option.all_some]
    congr 1
    simp only [decide_eq_decide]
    omega
  simp [upTo,same,MemoryStoreActor.inRange_end]

theorem taken_last (log : List (Nat × Value)) (depth : Nat) (value : Value) :
    taken (log ++ [(depth,value)]) depth = true := by simp [taken]

theorem grows_of_wrote {identity : String} {turn : Turn} {position : Position} {entry : Entry} {s t : Store}
    (wrote : Wrote identity turn position entry s t) :
    Grows (logsOf identity s) (logsOf identity t) := by
  intro log
  rw [wrote.logs]
  split
  · rename_i same
    subst log
    refine ⟨_,rfl,?_⟩
    intro depth held new present
    rw [List.mem_singleton.mp present]
    by_contra late
    have below : position.depth ≤ depth := Nat.le_of_not_lt late
    have free := wrote.free
    unfold taken at held free
    split at held
    · rename_i last found
      simp only [found,decide_eq_false_iff_not,decide_eq_true_eq] at free held
      omega
    · cases held
  · exact ⟨[],by simp,fun _ _ entry present => absurd present List.not_mem_nil⟩

theorem ordered_of_wrote {identity : String} {turn : Turn} {position : Position} {entry : Entry} {s t : Store}
    (ordered : ∀ log, Ordered (logsOf identity s log)) (wrote : Wrote identity turn position entry s t) (log : String) :
    Ordered (logsOf identity t log) := by
  rw [wrote.logs]
  split
  · rename_i same
    subst log
    exact MemoryStoreActor.ordered_append (ordered _) wrote.free _
  · exact ordered log

-- The three ways a turn's entry becomes the end of a path.
theorem Path.start {logs after : Logs} (entry : Entry) (unused : logs log = [])
    (placed : after log = logs log ++ [(1,.entry entry)]) (base : entry.base = none) :
    Path after log 1 [entry] := by
  refine .root ?_ ?_ base rfl
  · rw [placed]; exact taken_last _ _ _
  · rw [placed,unused]; simp [upTo,inRange,asEntry]

theorem Path.extend {before after : Logs} (grown : Grows before after) (ordered : Ordered (before log))
    (path : Path before log depth found) (entry : Entry) (free : taken (before log) (depth + 1) = false)
    (placed : after log = before log ++ [(depth + 1,.entry entry)]) :
    Path after log (depth + 1) (found ++ [entry]) := by
  have held : taken (after log) (depth + 1) = true := by rw [placed]; exact taken_last _ _ _
  have segment : ∀ {path}, (upTo (before log) depth).mapM asEntry = some path →
      (upTo (after log) (depth + 1)).mapM asEntry = some (path ++ [entry]) := by
    intro path read
    rw [placed,upTo_all ordered free,List.mapM_append,read]
    rfl
  cases path with
  | root _ read base whole =>
      rw [List.cons_append]
      exact .root held (segment read) base (by simpa using whole)
  | fork _ read base whole earlier =>
      rw [List.append_assoc,List.cons_append]
      refine .fork held (segment read) base ?_ (earlier.grow grown)
      simp only [List.length_cons,List.length_append,List.length_nil] at whole ⊢
      omega

theorem Path.branch {before after : Logs} (grown : Grows before after) {origin : Position}
    (path : Path before origin.log origin.depth found) (entry : Entry) (unused : before log = [])
    (placed : after log = before log ++ [(origin.depth + 1,.entry entry)]) (base : entry.base = some origin) :
    Path after log (origin.depth + 1) (found ++ [entry]) := by
  refine .fork ?_ ?_ base ?_ (path.grow grown)
  · rw [placed]; exact taken_last _ _ _
  · rw [placed,unused]; simp [upTo,MemoryStoreActor.inRange_end,asEntry]
  · simp only [List.length_cons,List.length_nil]; omega

-- A turn given to `write_async`, with the response it continues.
structure Written where
  turn : Turn
  previous : Option String

def Written.id (written : Written) : String := written.turn.responseId
def Written.items (written : Written) : List Json :=
  written.turn.input ++ written.turn.response.items "output"

-- The turns from the root to `id` along the links to the previous response.
inductive Lineage (turns : List Written) : String → List Written → Prop where
  | root (present : written ∈ turns) (first : written.previous = none) : Lineage turns written.id [written]
  | continued (present : written ∈ turns) (link : written.previous = some previous)
      (earlier : Lineage turns previous path) : Lineage turns written.id (path ++ [written])

theorem Lineage.mono {turns more : List Written} (subset : ∀ written ∈ turns, written ∈ more)
    (lineage : Lineage turns responseId path) : Lineage more responseId path := by
  induction lineage with
  | root present first => exact .root (subset _ present) first
  | continued present link _ ih => exact .continued (subset _ present) link ih

theorem Lineage.members {turns : List Written} (lineage : Lineage turns responseId path) :
    ∀ written ∈ path, written ∈ turns := by
  induction lineage with
  | root present _ =>
      intro written found
      rw [List.mem_singleton.mp found]
      exact present
  | continued present _ _ ih =>
      intro written found
      rcases List.mem_append.mp found with early | last
      · exact ih written early
      · rw [List.mem_singleton.mp last]
        exact present

theorem unique_id {turns : List Written} (distinct : (turns.map Written.id).Nodup) {one two : Written}
    (first : one ∈ turns) (second : two ∈ turns) (same : one.id = two.id) : one = two :=
  List.inj_on_of_nodup_map distinct first second same

theorem Lineage.parts {turns : List Written} (lineage : Lineage turns responseId path) :
    ∃ written front, written ∈ turns ∧ written.id = responseId ∧ path = front ++ [written] ∧
      (written.previous = none ∧ front = [] ∨
        ∃ previous, written.previous = some previous ∧ Lineage turns previous front) := by
  cases lineage with
  | root present first => exact ⟨_,[],present,rfl,rfl,.inl ⟨first,rfl⟩⟩
  | continued present link earlier => exact ⟨_,_,present,rfl,rfl,.inr ⟨_,link,earlier⟩⟩

theorem Lineage.unique {turns : List Written} (distinct : (turns.map Written.id).Nodup)
    (one : Lineage turns responseId path) (two : Lineage turns responseId other) : path = other := by
  induction one generalizing other with
  | @root written present first =>
      obtain ⟨again,front,member,same,rfl,why⟩ := two.parts
      cases unique_id distinct member present same
      rcases why with ⟨_,rfl⟩ | ⟨previous,link,_⟩
      · rfl
      · rw [first] at link; cases link
  | @continued written previous path present link earlier ih =>
      obtain ⟨again,front,member,same,rfl,why⟩ := two.parts
      cases unique_id distinct member present same
      rcases why with ⟨first,_⟩ | ⟨other,otherLink,before⟩
      · rw [link] at first; cases first
      · rw [link] at otherLink
        cases otherLink
        rw [ih before]

structure Conversations where
  store : Store
  turns : List Written
  points : String → StorePoint

-- `write` begins a `write_async` call; `advance` makes its next store call. The
-- calls of different responses interleave in any order.
inductive Action where
  | write (responseId : String) (response : Json) (previous : Option String) (input : List Json)
      (uuids : Nat → String)
  | advance (responseId : String) (now : Int)

def recordAt (identity : String) (s : Store) (responseId : String) : Option Record :=
  match s.cells (key identity responseId) with
  | some (.value (.record record)) => some record
  | _ => none

def storedAt (identity : String) (s : Store) (responseId : String) : Option Position :=
  match recordAt identity s responseId with
  | some (.stored _ position) => some position
  | _ => none

-- None, or the position of a response that is already stored.
def parentOf (identity : String) (s : Store) : Option String → Option (Option Position)
  | none => some none
  | some previous => (storedAt identity s previous).map some

def begin (s : Conversations) (written : Written) : Conversations :=
  {s with turns := s.turns ++ [written],points := Function.update s.points written.id .append}

def next (identity : String) (s : Conversations) : Action → Option Conversations
  | .write responseId response previous input uuids =>
    if s.turns.any (fun written => written.id == responseId) then none else
    (parentOf identity s.store previous).map fun parent =>
      begin s ⟨writeAsync uuids responseId response parent input,previous⟩
  | .advance responseId now =>
    match s.turns.find? (fun written => written.id == responseId) with
    | none => none
    | some written =>
      if s.points responseId = .finished then none else
      let (store,point) := storeTurn none identity now written.turn s.store (s.points responseId)
      some {s with store,points := Function.update s.points responseId point}

-- What a call does: it takes in a turn after a stored one, or takes one to its next store call.
inductive Enacts (identity : String) (s : Conversations) : Action → Conversations → Prop where
  | write (responseId response previous input uuids parent) (fresh : ∀ other ∈ s.turns, other.id ≠ responseId)
      (link : parent = none ∧ previous = none ∨
        ∃ earlier position, parent = some position ∧ previous = some earlier ∧ storedAt identity s.store earlier = some position) :
      Enacts identity s (.write responseId response previous input uuids)
        (begin s ⟨writeAsync uuids responseId response parent input,previous⟩)
  | advance (written now) (present : written ∈ s.turns) (unfinished : s.points written.id ≠ .finished) :
      Enacts identity s (.advance written.id now) {s with
        store := (storeTurn none identity now written.turn s.store (s.points written.id)).1
        points := Function.update s.points written.id
          (storeTurn none identity now written.turn s.store (s.points written.id)).2}

theorem next_enacts {identity : String} {s t : Conversations} {action : Action} (stepped : next identity s action = some t) :
    Enacts identity s action t := by
  cases action with
  | write responseId response previous input uuids =>
      simp only [next] at stepped
      obtain ⟨unused,begun⟩ := Option.ite_none_left_eq_some.mp stepped
      obtain ⟨parent,named,rfl⟩ := Option.map_eq_some_iff.mp begun
      refine .write responseId response previous input uuids parent ?_ ?_
      · intro other present same
        exact unused (List.any_eq_true.mpr ⟨other,present,by simpa using same⟩)
      · cases previous with
        | none =>
            cases named
            exact .inl ⟨rfl,rfl⟩
        | some earlier =>
            obtain ⟨position,stored,rfl⟩ := Option.map_eq_some_iff.mp named
            exact .inr ⟨earlier,position,rfl,rfl,stored⟩
  | advance responseId now =>
      simp only [next] at stepped
      split at stepped
      · cases stepped
      · rename_i written found
        have named : written.id = responseId := by simpa using List.find?_some found
        subst named
        obtain ⟨unfinished,same⟩ := Option.ite_none_left_eq_some.mp stepped
        cases same
        exact .advance written now (List.mem_of_find?_eq_some found) unfinished

def start (now sweepInterval : Int) : Conversations :=
  ⟨MemoryStoreActor.start now sweepInterval,[],fun _ => .finished⟩

-- What a stored turn's position reads back as.
def Reads (identity : String) (s : Conversations) (responseId : String) (position : Position) : Prop :=
  ∃ path lineage, Path (logsOf identity s.store) position.log position.depth path ∧
    Lineage s.turns responseId lineage ∧
    path.map (fun entry => {entry with base := none}) = lineage.map (fun written => written.turn.entry)

structure Pending (identity : String) (s : Conversations) (written : Written) : Prop where
  unconditional : written.turn.ifExists = false
  unstored : storedAt identity s.store written.id = none
  ownLog : logsOf identity s.store written.id = []
  parent : written.turn.parent = none ∧ written.previous = none ∧ s.points written.id = .append ∨
    ∃ previous position, written.turn.parent = some position ∧ written.previous = some previous ∧
      storedAt identity s.store previous = some position

structure Invariant (identity : String) (s : Conversations) : Prop where
  timeless : s.store.Timeless
  ordered : ∀ log, Ordered (logsOf identity s.store log)
  distinct : (s.turns.map Written.id).Nodup
  pending : ∀ written ∈ s.turns, s.points written.id ≠ .finished → Pending identity s written
  reads : ∀ responseId position, storedAt identity s.store responseId = some position →
    Reads identity s responseId position
  finished : ∀ written ∈ s.turns, s.points written.id = .finished →
    ∃ position, recordAt identity s.store written.id = some (written.turn.record position)
  entries : ∀ log position value, (position,value) ∈ logsOf identity s.store log →
    ∃ entry, value = .entry entry ∧ (∃ written ∈ s.turns, written.id = entry.responseId ∧
      s.points written.id = .finished) ∧
      ∃ written ∈ s.turns, written.id = log ∧ s.points written.id = .finished

theorem start_valid (identity : String) (now sweepInterval : Int) : Invariant identity (start now sweepInterval) := by
  have empty : ∀ log, logsOf identity (start now sweepInterval).store log = [] := by
    intro log
    simp [logsOf,MemoryStoreActor.logAt,start]
  refine ⟨MemoryStoreActor.start_timeless _ _,?_,List.nodup_nil,?_,?_,?_,?_⟩
  · intro log; rw [empty]; exact MemoryStoreActor.ordered_nil
  · intro written present; cases present
  · intro responseId position found; simp [storedAt,recordAt,start] at found
  · intro written present; cases present
  · intro log position value present; rw [empty] at present; cases present

theorem begin_valid (valid : Invariant identity s) {written : Written}
    (fresh : ∀ other ∈ s.turns, other.id ≠ written.id) (unconditional : written.turn.ifExists = false)
    (parent : written.turn.parent = none ∧ written.previous = none ∨
      ∃ previous position, written.turn.parent = some position ∧ written.previous = some previous ∧
        storedAt identity s.store previous = some position) :
    Invariant identity (begin s written) := by
  have old : ∀ other ∈ s.turns, (begin s written).points other.id = s.points other.id := by
    intro other present
    simp [begin,Function.update_of_ne (fresh other present)]
  have new : (begin s written).points written.id = .append := by simp [begin]
  refine ⟨valid.timeless,valid.ordered,?_,?_,?_,?_,?_⟩
  · simp only [begin,List.map_append,List.map_cons,List.map_nil,List.nodup_append]
    refine ⟨valid.distinct,by simp,?_⟩
    intro name one other two
    obtain ⟨earlier,present,rfl⟩ := List.mem_map.mp one
    rw [List.mem_singleton.mp two]
    exact fresh earlier present
  · intro other present unfinished
    rcases List.mem_append.mp present with earlier | last
    · rw [old other earlier] at unfinished
      obtain ⟨ifExists,unstored,ownLog,why⟩ := valid.pending other earlier unfinished
      exact ⟨ifExists,unstored,ownLog,by rw [old other earlier]; exact why⟩
    · rw [List.mem_singleton.mp last]
      refine ⟨unconditional,?_,?_,?_⟩
      · refine Option.eq_none_iff_forall_ne_some.mpr ?_
        intro position found
        obtain ⟨_,_,_,line,_⟩ := valid.reads written.id position found
        obtain ⟨other,_,member,same,_⟩ := line.parts
        exact fresh other member same
      · refine List.eq_nil_iff_forall_not_mem.mpr ?_
        rintro ⟨position,value⟩ found
        obtain ⟨_,_,_,other,member,same,_⟩ := valid.entries written.id position value found
        exact fresh other member same
      · exact parent.imp (fun ⟨one,two⟩ => ⟨one,two,new⟩) (fun found => found)
  · intro responseId position found
    obtain ⟨path,lineage,reads,line,same⟩ := valid.reads responseId position found
    exact ⟨path,lineage,reads,line.mono (fun _ present => List.mem_append_left _ present),same⟩
  · intro other present done
    rcases List.mem_append.mp present with earlier | last
    · exact valid.finished other earlier (by rw [← old other earlier]; exact done)
    · rw [List.mem_singleton.mp last,new] at done; cases done
  · intro log position value present
    obtain ⟨entry,same,⟨one,first,named,oneDone⟩,two,second,home,twoDone⟩ := valid.entries log position value present
    refine ⟨entry,same,⟨one,List.mem_append_left _ first,named,?_⟩,two,List.mem_append_left _ second,home,?_⟩
    · rw [old one first]; exact oneDone
    · rw [old two second]; exact twoDone

-- A call that made no write only moves on.
theorem move_valid (valid : Invariant identity s) {written : Written} (present : written ∈ s.turns)
    (unfinished : s.points written.id ≠ .finished) (point : StorePoint) (going : point ≠ .finished)
    (continued : written.turn.parent ≠ none) :
    Invariant identity {s with points := Function.update s.points written.id point} := by
  have doneStays : ∀ other ∈ s.turns,
      Function.update s.points written.id point other.id = .finished ↔ s.points other.id = .finished := by
    intro other _
    by_cases same : other.id = written.id
    · simp [same,going,unfinished]
    · simp [Function.update_of_ne same]
  refine ⟨valid.timeless,valid.ordered,valid.distinct,?_,valid.reads,?_,?_⟩
  · intro other member open_
    have waiting : s.points other.id ≠ .finished := fun done => open_ ((doneStays other member).mpr done)
    obtain ⟨ifExists,unstored,ownLog,why⟩ := valid.pending other member waiting
    refine ⟨ifExists,unstored,ownLog,?_⟩
    rcases why with ⟨noParent,first,atAppend⟩ | why
    · refine .inl ⟨noParent,first,?_⟩
      by_cases same : other.id = written.id
      · cases unique_id valid.distinct member present same
        exact absurd noParent continued
      · simpa [Function.update_of_ne same] using atAppend
    · exact .inr why
  · intro other member done
    exact valid.finished other member ((doneStays other member).mp done)
  · intro log position value found
    obtain ⟨entry,same,⟨one,first,named,oneDone⟩,two,second,home,twoDone⟩ := valid.entries log position value found
    exact ⟨entry,same,⟨one,first,named,(doneStays one first).mpr oneDone⟩,
      two,second,home,(doneStays two second).mpr twoDone⟩

theorem storedAt_wrote {identity : String} {turn : Turn} {position : Position} {entry : Entry} {s t : Store}
    (wrote : Wrote identity turn position entry s t) (responseId : String) :
    storedAt identity t responseId =
      if turn.responseId = responseId then some position else storedAt identity s responseId := by
  unfold storedAt recordAt
  rw [wrote.record]
  by_cases same : turn.responseId = responseId
  · simp only [if_pos same,Turn.record]
  · simp only [if_neg same]

-- A call that made its write is finished, and its position reads back as its lineage.
theorem wrote_valid (valid : Invariant identity s) {written : Written} (present : written ∈ s.turns)
    (unfinished : s.points written.id ≠ .finished) {position : Position} {entry : Entry} {t : Store}
    (wrote : Wrote identity written.turn position entry s.store t)
    (content : {entry with base := none} = written.turn.entry)
    (reads : Reads identity {s with store := t} written.id position)
    (home : position.log = written.id ∨ logsOf identity s.store position.log ≠ []) :
    Invariant identity {s with store := t,points := Function.update s.points written.id .finished} := by
  have grown := grows_of_wrote wrote
  have self : Function.update s.points written.id StorePoint.finished written.id = .finished := by simp
  have doneStays : ∀ {other : Written}, s.points other.id = .finished →
      Function.update s.points written.id .finished other.id = .finished := by
    intro other done
    by_cases same : other.id = written.id
    · rw [same]; exact self
    · simpa [Function.update_of_ne same] using done
  have apart : ∀ {other : Written}, Function.update s.points written.id .finished other.id ≠ .finished →
      other.id ≠ written.id ∧ s.points other.id ≠ .finished := by
    intro other open_
    refine ⟨fun same => open_ (by rw [same]; exact self),fun done => open_ (doneStays done)⟩
  refine ⟨wrote.timeless,ordered_of_wrote valid.ordered wrote,valid.distinct,?_,?_,?_,?_⟩
  · intro other member open_
    obtain ⟨different,waiting⟩ := apart open_
    obtain ⟨ifExists,unstored,ownLog,why⟩ := valid.pending other member waiting
    refine ⟨ifExists,?_,?_,?_⟩
    · rw [storedAt_wrote wrote,if_neg (fun same => different same.symm)]
      exact unstored
    · rw [wrote.logs]
      split
      · rename_i same
        rcases home with own | used
        · exact absurd (same.symm.trans own) different
        · exact absurd (by rw [same]; exact ownLog) used
      · exact ownLog
    · rcases why with ⟨noParent,first,atAppend⟩ | ⟨previous,origin,parent,link,stored⟩
      · exact .inl ⟨noParent,first,by simpa [Function.update_of_ne different] using atAppend⟩
      · refine .inr ⟨previous,origin,parent,link,?_⟩
        rw [storedAt_wrote wrote]
        split
        · -- a stored parent is not the response this call is only now storing
          rename_i same
          have unstored := (valid.pending written present unfinished).unstored
          rw [← same] at stored
          exact absurd (unstored.symm.trans stored) (by simp)
        · exact stored
  · intro responseId place found
    rw [storedAt_wrote wrote] at found
    split at found
    · rename_i same
      cases found
      rw [← same]
      exact reads
    · obtain ⟨path,lineage,old,line,same⟩ := valid.reads responseId place found
      exact ⟨path,lineage,old.grow grown,line,same⟩
  · intro other member done
    by_cases same : other.id = written.id
    · cases unique_id valid.distinct member present same
      exact ⟨position,by simp [recordAt,wrote.record,Written.id]⟩
    · have earlier : s.points other.id = .finished := by simpa [Function.update_of_ne same] using done
      obtain ⟨place,found⟩ := valid.finished other member earlier
      refine ⟨place,?_⟩
      have different : written.turn.responseId ≠ other.id := fun equal => same equal.symm
      unfold recordAt at found ⊢
      rw [wrote.record,if_neg different]
      exact found
  · intro log place value found
    rw [wrote.logs] at found
    have old : ∀ {log place value}, (place,value) ∈ logsOf identity s.store log →
        ∃ entry, value = .entry entry ∧ (∃ written_1 ∈ s.turns, written_1.id = entry.responseId ∧
          Function.update s.points written.id .finished written_1.id = .finished) ∧
          ∃ written_1 ∈ s.turns, written_1.id = log ∧
            Function.update s.points written.id .finished written_1.id = .finished := by
      intro log place value found
      obtain ⟨entry,same,⟨one,first,named,oneDone⟩,two,second,homed,twoDone⟩ := valid.entries log place value found
      exact ⟨entry,same,⟨one,first,named,doneStays oneDone⟩,two,second,homed,doneStays twoDone⟩
    split at found
    · rename_i here
      rcases List.mem_append.mp found with earlier | last
      · exact old earlier
      · cases List.mem_singleton.mp last
        have named : written.id = entry.responseId := by
          simpa [Turn.entry,Written.id] using (congrArg Entry.responseId content).symm
        refine ⟨entry,rfl,⟨written,present,named,self⟩,?_⟩
        rcases home with own | used
        · exact ⟨written,present,by rw [← here,own],self⟩
        · obtain ⟨⟨place,value⟩,member⟩ := List.exists_mem_of_ne_nil _ used
          obtain ⟨_,_,_,two,second,homed,twoDone⟩ := old member
          exact ⟨two,second,by rw [homed,here],twoDone⟩
    · exact old found

-- The write a call makes when its turn comes, at its parent's end or in a log of its own.
theorem place_valid (valid : Invariant identity s) {written : Written} (present : written ∈ s.turns)
    (unfinished : s.points written.id ≠ .finished) {position : Position} {entry : Entry} {t : Store}
    (wrote : Wrote identity written.turn position entry s.store t)
    (content : {entry with base := none} = written.turn.entry)
    (shape : (written.turn.parent = none ∧ written.previous = none ∧ position = ⟨written.id,1⟩ ∧ entry.base = none) ∨
      ∃ parent, written.turn.parent = some parent ∧
        (position = ⟨parent.log,parent.depth + 1⟩ ∨
          position = ⟨written.id,parent.depth + 1⟩ ∧ entry.base = some parent)) :
    Invariant identity {s with store := t,points := Function.update s.points written.id .finished} := by
  have grown := grows_of_wrote wrote
  obtain ⟨_,_,ownLog,why⟩ := valid.pending written present unfinished
  have placed : logsOf identity t position.log =
      logsOf identity s.store position.log ++ [(position.depth,.entry entry)] := by simp [wrote.logs]
  rcases shape with ⟨noParent,first,rfl,noBase⟩ | ⟨parent,continued,shape⟩
  · refine wrote_valid valid present unfinished wrote content ?_ (.inl rfl)
    refine ⟨[entry],[written],Path.start entry ownLog placed noBase,.root present first,?_⟩
    simp only [List.map_cons,List.map_nil,content]
  · rcases why with ⟨noParent,_⟩ | ⟨previous,origin,named,link,stored⟩
    · rw [continued] at noParent; cases noParent
    · rw [continued] at named
      cases named
      obtain ⟨path,lineage,reads,line,same⟩ := valid.reads previous parent stored
      have together : (path ++ [entry]).map (fun entry => {entry with base := none}) =
          (lineage ++ [written]).map (fun written => written.turn.entry) := by
        simp only [List.map_append,List.map_cons,List.map_nil,same,content]
      rcases shape with rfl | ⟨rfl,base⟩
      · refine wrote_valid valid present unfinished wrote content ?_ (.inr ?_)
        · exact ⟨_,_,reads.extend grown (valid.ordered _) entry wrote.free placed,
            .continued present link line,together⟩
        · intro empty
          have held := reads.held
          rw [empty] at held
          simp [taken] at held
      · refine wrote_valid valid present unfinished wrote content ?_ (.inl rfl)
        exact ⟨_,_,reads.branch grown entry ownLog placed base,.continued present link line,together⟩

theorem advance_valid (valid : Invariant identity s) {written : Written} (present : written ∈ s.turns)
    (unfinished : s.points written.id ≠ .finished) (now : Int) :
    Invariant identity {s with
      store := (storeTurn none identity now written.turn s.store (s.points written.id)).1
      points := Function.update s.points written.id
        (storeTurn none identity now written.turn s.store (s.points written.id)).2} := by
  have plain := (valid.pending written present unfinished).unconditional
  have ownLog := (valid.pending written present unfinished).ownLog
  have why := (valid.pending written present unfinished).parent
  have free : ∀ depth, taken (logsOf identity s.store written.id) depth = false := by
    intro depth; rw [ownLog]; rfl
  -- a write to the call's own empty log is never refused
  have forks : ∀ depth entry, ∃ t, written.turn.write none identity now s.store ⟨written.id,depth⟩ entry = (t,true) ∧
      Wrote identity written.turn ⟨written.id,depth⟩ entry s.store t := by
    intro depth entry
    rcases write_cases valid.timeless identity now written.turn ⟨written.id,depth⟩ entry with
      ⟨_,⟨conditional,_⟩ | held⟩ | ⟨_,accepted⟩
    · rw [plain] at conditional; cases conditional
    · rw [free depth] at held; cases held
    · exact accepted
  cases point : s.points written.id with
  | finished => exact absurd point unfinished
  | append =>
      cases parent : written.turn.parent with
      | none =>
          obtain ⟨t,accepted,wrote⟩ := forks 1 written.turn.entry
          have previous : written.previous = none := by
            rcases why with ⟨_,first,_⟩ | ⟨_,_,some_,_⟩
            · exact first
            · rw [parent] at some_; cases some_
          have placed := place_valid valid present unfinished wrote rfl (.inl ⟨parent,previous,rfl,rfl⟩)
          simp only [Written.id] at accepted placed ⊢
          simpa only [storeTurn,parent,accepted] using placed
      | some origin =>
          rcases write_cases valid.timeless identity now written.turn ⟨origin.log,origin.depth + 1⟩ written.turn.entry with
            ⟨refused,_⟩ | ⟨_,t,accepted,wrote⟩
          · have moved := move_valid valid present unfinished .readTaken (by simp) (by simp [parent])
            simpa only [storeTurn,parent,refused] using moved
          · have placed := place_valid valid present unfinished wrote rfl (.inr ⟨origin,parent,.inl rfl⟩)
            simpa only [storeTurn,parent,accepted] using placed
  | readTaken =>
      rcases why with ⟨_,_,atAppend⟩ | ⟨_,origin,parent,_,_⟩
      · rw [point] at atAppend; cases atAppend
      · have moved := move_valid valid present unfinished .fork (by simp) (by simp [parent])
        have other : ((((logsOf identity s.store origin.log).filter
            (fun entry => inRange (origin.depth + 1) (some (origin.depth + 1)) entry.1)).map Prod.snd).head?.bind
            asEntry).any (fun entry => entry.responseId == written.turn.responseId) = false := by
          refine Bool.eq_false_iff.mpr ?_
          intro found
          obtain ⟨entry,read,same⟩ := (Option.any_eq_true _ _).mp found
          obtain ⟨value,head,shape⟩ := Option.bind_eq_some_iff.mp read
          obtain ⟨⟨place,value⟩,kept,rfl⟩ := List.mem_map.mp (List.mem_of_mem_head? head)
          obtain ⟨held,rfl,⟨author,member,named,done⟩,_⟩ :=
            valid.entries origin.log place value (List.mem_filter.mp kept).1
          have equal : entry = held := by simpa [asEntry] using shape.symm
          have mine : author.id = written.id := by
            rw [named,← equal]
            simpa [Written.id] using same
          exact unfinished (mine ▸ done)
        simp only [storeTurn,parent,MemoryStoreActor.readRange_timeless valid.timeless]
        unfold logsOf at other
        simpa only [other,Bool.false_eq_true,if_false] using moved
  | fork =>
      rcases why with ⟨_,_,atAppend⟩ | ⟨_,origin,parent,_,_⟩
      · rw [point] at atAppend; cases atAppend
      · obtain ⟨t,accepted,wrote⟩ := forks (origin.depth + 1) {written.turn.entry with base := some origin}
        have placed := place_valid valid present unfinished wrote rfl (.inr ⟨origin,parent,.inr ⟨rfl,rfl⟩⟩)
        simp only [Written.id] at accepted placed ⊢
        simpa only [storeTurn,parent,accepted] using placed

theorem next_valid (valid : Invariant identity s) (stepped : next identity s action = some t) :
    Invariant identity t := by
  cases next_enacts stepped with
  | write responseId response previous input uuids parent fresh link => exact begin_valid valid fresh rfl link
  | advance written now present unfinished => exact advance_valid valid present unfinished now

theorem runs_valid (ran : execute (next identity) (start clock sweepInterval) actions = some s) :
    Invariant identity s :=
  execute_invariant (fun _ _ _ valid stepped => next_valid valid stepped) (start_valid identity clock sweepInterval) ran

-- Where a turn of the run comes from: the `write_async` call it was given to.
def Given (actions : List Action) (written : Written) : Prop :=
  ∃ input uuids, .write written.id written.turn.response written.previous input uuids ∈ actions ∧
    written.turn.input = withIds uuids input

theorem runs_given (ran : execute (next identity) s actions = some t) :
    ∀ written ∈ t.turns, written ∈ s.turns ∨ Given actions written := by
  induction actions generalizing s with
  | nil => cases ran; exact fun _ present => .inl present
  | cons action rest ih =>
      obtain ⟨middle,first,others⟩ := execute_cons.mp ran
      intro written present
      rcases ih others written present with earlier | ⟨input,uuids,member,same⟩
      · cases next_enacts first with
        | advance turn now known unfinished => exact .inl earlier
        | write responseId response previous input uuids parent fresh link =>
            rcases List.mem_append.mp earlier with old | new
            · exact .inl old
            · rw [List.mem_singleton.mp new]
              exact .inr ⟨input,uuids,List.mem_cons_self,rfl⟩
      · exact .inr ⟨input,uuids,List.mem_cons_of_mem _ member,same⟩

theorem history_path {s : Store} (timeless : s.Timeless) (identity : String) (now : Int) (response : Json)
    {position : Position} (path : Path (logsOf identity s) position.log position.depth found) :
    ∃ listings, historyAsync none identity now s response position = (s,some ⟨items found,position,listings⟩) := by
  unfold historyAsync refresh
  rw [path.read timeless identity now]
  have same := (timeless_leaves identity now).listings response s .empty found.reverse timeless
  simp only [mcpListings,same]
  exact ⟨_,rfl⟩

theorem items_path {path : List Entry} {lineage : List Written}
    (same : path.map (fun entry => {entry with base := none}) = lineage.map (fun written => written.turn.entry)) :
    items path = lineage.flatMap Written.items := by
  have left : items path = items (path.map (fun entry => {entry with base := none})) := by
    simp [items,List.flatMap_map]
  rw [left,same]
  simp only [items,List.flatMap_map,Turn.entry]
  rfl

-- Every stored response reads back as its own line of the conversation: each turn
-- from the root to it once, in order, its input before its output, and nothing else.
theorem history_follows_lineage (identity : String) (clock sweepInterval : Int) {actions : List Action}
    {s : Conversations} (ran : execute (next identity) (start clock sweepInterval) actions = some s)
    (responseId : String) (response : Json) (position : Position)
    (found : recordAt identity s.store responseId = some (.stored response position)) (now : Int) :
    ∃ earlier written listings, written.id = responseId ∧
      Lineage s.turns responseId (earlier ++ [written]) ∧
      (∀ other, Lineage s.turns responseId other → other = earlier ++ [written]) ∧
      (∀ turn ∈ earlier ++ [written], Given actions turn) ∧
      historyAsync none identity now s.store response position =
        (s.store,some ⟨earlier.flatMap Written.items ++ written.turn.input ++
          written.turn.response.items "output",position,listings⟩) ∧
      inputItemsAsync none identity now s.store (.stored response position) =
        (s.store,some (earlier.flatMap Written.items ++ written.turn.input)) := by
  have valid := runs_valid ran
  have stored : storedAt identity s.store responseId = some position := by simp [storedAt,found]
  obtain ⟨path,lineage,reads,line,same⟩ := valid.reads responseId position stored
  obtain ⟨written,earlier,present,named,rfl,_⟩ := line.parts
  have shape : ∃ front last, path = front ++ [last] ∧
      front.map (fun entry => {entry with base := none}) = earlier.map (fun written => written.turn.entry) ∧
      {last with base := none} = written.turn.entry := by
    rw [List.map_append] at same
    obtain ⟨front,rest,rfl,one,two⟩ := List.map_eq_append_iff.mp same
    obtain ⟨last,others,rfl,head,nothing⟩ := List.map_eq_cons_iff.mp two
    rw [List.map_nil,List.map_eq_nil_iff] at nothing
    subst nothing
    exact ⟨front,last,rfl,one,head⟩
  obtain ⟨front,last,rfl,frontSame,lastSame⟩ := shape
  obtain ⟨listings,history⟩ := history_path valid.timeless identity now response reads
  have lastInput : last.input = written.turn.input := by
    simpa [Turn.entry] using congrArg Entry.input lastSame
  refine ⟨earlier,written,listings,named,line,fun other another => another.unique valid.distinct line,?_,?_,?_⟩
  · intro turn member
    rcases runs_given ran turn (line.members turn member) with initial | given
    · cases initial
    · exact given
  · rw [history,items_path same]
    simp [Written.items]
  · have path := reads.read valid.timeless identity now
    simp [inputItemsAsync,path,items_path frontSame,lastInput]

-- Two continuations of one response race for the same position; the loser forks.
def message (text : String) : Json := .obj [("type",.str "message"),("id",.str text)]
def reply (text : String) : Json := .obj [("status",.str "completed"),("output",.arr [message text])]
def race : List Action :=
  [.write "a" (reply "A") none [message "q"] (fun _ => "0"),.advance "a" 0,
   .write "b" (reply "B") (some "a") [message "r"] (fun _ => "0"),
   .write "c" (reply "C") (some "a") [message "s"] (fun _ => "0"),
   .advance "c" 1,.advance "b" 1,.advance "b" 2,.advance "b" 3]

theorem history_follows_lineage_race :
    ∃ s response, execute (next "u") (start 0 1) race = some s ∧
      recordAt "u" s.store "b" = some (.stored response ⟨"b",2⟩) ∧
      ∃ listings, historyAsync none "u" 9 s.store response ⟨"b",2⟩ =
        (s.store,some ⟨[message "q",message "A",message "r",message "B"],⟨"b",2⟩,listings⟩) := by
  refine ⟨_,_,rfl,rfl,?_⟩
  have ran : execute (next "u") (start 0 1) race = some _ := rfl
  obtain ⟨earlier,written,listings,_,_,unique,_,history,_⟩ :=
    history_follows_lineage "u" 0 1 ran "b" _ ⟨"b",2⟩ rfl 9
  have line := unique _ (.continued (List.mem_cons_of_mem _ List.mem_cons_self) rfl (.root List.mem_cons_self rfl))
  refine ⟨listings,?_⟩
  have path : earlier.flatMap Written.items ++ written.turn.input ++ written.turn.response.items "output" =
      (earlier ++ [written]).flatMap Written.items := by simp [Written.items]
  rw [history,path,← line]
  rfl

end Modelship.ConversationLog

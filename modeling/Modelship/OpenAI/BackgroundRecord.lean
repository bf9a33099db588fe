import Modelship.OpenAI.ConversationLog

namespace Modelship.BackgroundRecord
open Foundation State ResponsesState ConversationLog
open MemoryStoreActor (taken Ordered inRange)

section
variable (identity target : String) (parent : Option Position) (input : List Json) (allowed : Json → Prop)

-- No log holds an entry of the background response.
def Absent (s : Store) : Prop :=
  ∀ log depth entry, (depth,.entry entry) ∈ logsOf identity s log → entry.responseId ≠ target

-- Exactly one does, and it is the terminal response's.
structure Occupies (response : Json) (position : Position) (s : Store) : Prop where
  entry : ∃ entry, (position.depth,.entry entry) ∈ logsOf identity s position.log ∧
    entry.responseId = target ∧ entry.input = input ∧ entry.output = response.items "output"
  only : ∀ log depth entry, (depth,.entry entry) ∈ logsOf identity s log → entry.responseId = target →
    log = position.log ∧ depth = position.depth
  home : parent = none ∧ position = ⟨target,1⟩ ∨
    ∃ origin, parent = some origin ∧ taken (logsOf identity s origin.log) (origin.depth + 1) = true ∧
      (position = ⟨origin.log,origin.depth + 1⟩ ∨ position = ⟨target,origin.depth + 1⟩)

def Ended (response : Json) (position : Position) : Cell Value :=
  .value (.record (.stored (response.set "output" (.arr [])) position))

-- A background response waits, has ended with one terminal response, or is deleted.
inductive Phase (s : Store) : Prop where
  | waiting (placeholder : Json)
      (held : s.cells (key identity target) = some (.value (.record (.background placeholder parent input))))
      (unused : logsOf identity s target = []) (absent : Absent identity target s)
  | ended (response : Json) (position : Position) (genuine : allowed response)
      (held : s.cells (key identity target) = some (Ended response position))
      (occupied : Occupies identity target parent input response position s)
  | deleted (held : s.cells (key identity target) = none)
      (entry : Absent identity target s ∨
        ∃ response position, allowed response ∧ Occupies identity target parent input response position s)

-- What a writer past its first refused append may rely on.
def Passed (s : Store) : StorePoint → Prop
  | .append => True
  | .finished => False
  | .readTaken => s.cells (key identity target) = none ∨
      ∃ origin, parent = some origin ∧ taken (logsOf identity s origin.log) (origin.depth + 1) = true
  | .fork => s.cells (key identity target) = none ∨
      ∃ origin, parent = some origin ∧ taken (logsOf identity s origin.log) (origin.depth + 1) = true ∧
        ∀ entry, (origin.depth + 1,.entry entry) ∈ logsOf identity s origin.log → entry.responseId ≠ target

def Ready (s : Store) (response : Json) : TerminalPoint → Prop
  | .read | .finished => True
  | .storing turn point => turn = ⟨target,response,parent,input,true⟩ ∧ Passed identity target parent s point

-- The invariant of the store and the terminal writes in flight on it.
structure Safe (writers : Json → TerminalPoint → Prop) (s : Store) : Prop where
  timeless : s.Timeless
  ordered : ∀ log, Ordered (logsOf identity s log)
  entries : ∀ log depth value, (depth,value) ∈ logsOf identity s log → ∃ entry, value = .entry entry
  phase : Phase identity target parent input allowed s
  ready : ∀ response point, writers response point →
    allowed response ∧ Ready identity target parent input s response point

end

variable {identity target : String} {parent : Option Position} {input : List Json} {allowed : Json → Prop}
  {writers : Json → TerminalPoint → Prop} {s t : Store}

theorem Safe.fewer {fewer : Json → TerminalPoint → Prop} (safe : Safe identity target parent input allowed writers s)
    (subset : ∀ response point, fewer response point → writers response point) :
    Safe identity target parent input allowed fewer s :=
  {safe with ready := fun response point present => safe.ready response point (subset response point present)}

-- One more call in flight, at a point where it may be.
def With (writers : Json → TerminalPoint → Prop) (response : Json) (point : TerminalPoint) :
    Json → TerminalPoint → Prop :=
  fun other place => writers other place ∨ other = response ∧ place = point

theorem Safe.add (safe : Safe identity target parent input allowed writers s) (genuine : allowed response)
    (ready : Ready identity target parent input s response point) :
    Safe identity target parent input allowed (With writers response point) s := by
  refine {safe with ready := ?_}
  intro other place present
  rcases present with old | ⟨rfl,rfl⟩
  · exact safe.ready other place old
  · exact ⟨genuine,ready⟩

theorem mem_wrote {turn : Turn} {position : Position} {entry other : Entry} {log : String} {depth : Nat}
    (wrote : Wrote identity turn position entry s t) :
    (depth,.entry other) ∈ logsOf identity t log ↔
      (depth,.entry other) ∈ logsOf identity s log ∨ (log = position.log ∧ depth = position.depth ∧ other = entry) := by
  rw [wrote.logs]
  split
  · rename_i same
    simp [same]
  · rename_i different
    have apart : log ≠ position.log := fun equal => different equal.symm
    simp [apart]

theorem taken_wrote {turn : Turn} {position : Position} {entry : Entry} {log : String} {depth : Nat}
    (wrote : Wrote identity turn position entry s t) (held : taken (logsOf identity s log) depth = true) :
    taken (logsOf identity t log) depth = true := by
  obtain ⟨new,same,late⟩ := grows_of_wrote wrote log
  rw [same]
  exact taken_grow held (late depth held)

-- A position that is taken gets no entry any more.
theorem taken_no_entry {turn : Turn} {position : Position} {entry other : Entry} {log : String} {depth : Nat}
    (wrote : Wrote identity turn position entry s t) (held : taken (logsOf identity s log) depth = true)
    (present : (depth,.entry other) ∈ logsOf identity t log) : (depth,.entry other) ∈ logsOf identity s log := by
  rcases (mem_wrote wrote).mp present with old | ⟨rfl,rfl,rfl⟩
  · exact old
  · rw [wrote.free] at held; cases held

theorem entries_wrote {turn : Turn} {position : Position} {entry : Entry}
    (entries : ∀ log depth value, (depth,value) ∈ logsOf identity s log → ∃ entry, value = .entry entry)
    (wrote : Wrote identity turn position entry s t) :
    ∀ log depth value, (depth,value) ∈ logsOf identity t log → ∃ entry, value = .entry entry := by
  intro log depth value present
  rw [wrote.logs] at present
  split at present
  · rcases List.mem_append.mp present with old | new
    · exact entries log depth value old
    · cases List.mem_singleton.mp new; exact ⟨_,rfl⟩
  · exact entries log depth value present

theorem passed_wrote {turn : Turn} {position : Position} {entry : Entry}
    (wrote : Wrote identity turn position entry s t)
    (gone : s.cells (key identity target) = none → t.cells (key identity target) = none)
    (passed : Passed identity target parent s point) : Passed identity target parent t point := by
  cases point with
  | append => trivial
  | finished => exact passed
  | readTaken => exact passed.imp gone (fun ⟨origin,same,held⟩ => ⟨origin,same,taken_wrote wrote held⟩)
  | fork =>
      refine passed.imp gone ?_
      rintro ⟨origin,same,held,others⟩
      refine ⟨origin,same,taken_wrote wrote held,?_⟩
      intro other present
      exact others other (taken_no_entry wrote held present)

theorem ready_wrote {turn : Turn} {position : Position} {entry : Entry}
    (wrote : Wrote identity turn position entry s t)
    (gone : s.cells (key identity target) = none → t.cells (key identity target) = none)
    (ready : Ready identity target parent input s response point) :
    Ready identity target parent input t response point := by
  cases point with
  | read => trivial
  | finished => trivial
  | storing turn point => exact ⟨ready.1,passed_wrote wrote gone ready.2⟩

theorem occupies_wrote {turn : Turn} {position place : Position} {entry : Entry}
    (wrote : Wrote identity turn place entry s t) (foreign : entry.responseId ≠ target)
    (occupied : Occupies identity target parent input response position s) :
    Occupies identity target parent input response position t := by
  refine ⟨?_,?_,?_⟩
  · obtain ⟨held,present,rest⟩ := occupied.entry
    exact ⟨held,(mem_wrote wrote).mpr (.inl present),rest⟩
  · intro log depth other present named
    rcases (mem_wrote wrote).mp present with old | ⟨_,_,rfl⟩
    · exact occupied.only log depth other old named
    · exact absurd named foreign
  · exact occupied.home.imp id (fun ⟨origin,same,held,shape⟩ => ⟨origin,same,taken_wrote wrote held,shape⟩)

theorem absent_wrote {turn : Turn} {place : Position} {entry : Entry}
    (wrote : Wrote identity turn place entry s t) (foreign : entry.responseId ≠ target)
    (absent : Absent identity target s) : Absent identity target t := by
  intro log depth other present
  rcases (mem_wrote wrote).mp present with old | ⟨_,_,rfl⟩
  · exact absent log depth other old
  · exact foreign

-- Another response's turn, stored at a position that exists or in a log of its own.
theorem Safe.other (safe : Safe identity target parent input allowed writers s) {turn : Turn} {place : Position}
    {entry : Entry} (wrote : Wrote identity turn place entry s t) (foreign : turn.responseId ≠ target)
    (named : entry.responseId ≠ target) (apart : place.log = target → logsOf identity s target ≠ []) :
    Safe identity target parent input allowed writers t := by
  have record : t.cells (key identity target) = s.cells (key identity target) := by
    rw [wrote.record,if_neg foreign]
  refine ⟨wrote.timeless,ordered_of_wrote safe.ordered wrote,entries_wrote safe.entries wrote,?_,?_⟩
  · cases safe.phase with
    | waiting placeholder held unused absent =>
        refine .waiting placeholder (record.trans held) ?_ (absent_wrote wrote named absent)
        rw [wrote.logs,if_neg (fun here => apart here unused)]
        exact unused
    | ended response position genuine held occupied =>
        exact .ended response position genuine (record.trans held) (occupies_wrote wrote named occupied)
    | deleted held entry =>
        refine .deleted (record.trans held) ?_
        exact entry.imp (absent_wrote wrote named)
          (fun ⟨response,position,genuine,occupied⟩ => ⟨response,position,genuine,occupies_wrote wrote named occupied⟩)
  · intro response point present
    obtain ⟨genuine,ready⟩ := safe.ready response point present
    exact ⟨genuine,ready_wrote wrote (fun gone => record.trans gone) ready⟩

-- The response's own terminal write, made while it waits.
theorem Safe.ends (safe : Safe identity target parent input allowed writers s) {response : Json} (genuine : allowed response)
    {position : Position} {entry : Entry}
    (wrote : Wrote identity ⟨target,response,parent,input,true⟩ position entry s t)
    (content : {entry with base := none} = (⟨target,response,parent,input,true⟩ : Turn).entry)
    (absent : Absent identity target s)
    (home : parent = none ∧ position = ⟨target,1⟩ ∨
      ∃ origin, parent = some origin ∧ taken (logsOf identity t origin.log) (origin.depth + 1) = true ∧
        (position = ⟨origin.log,origin.depth + 1⟩ ∨ position = ⟨target,origin.depth + 1⟩))
    (present : s.cells (key identity target) ≠ none) :
    Safe identity target parent input allowed writers t := by
  have named : entry.responseId = target := congrArg Entry.responseId content
  refine ⟨wrote.timeless,ordered_of_wrote safe.ordered wrote,entries_wrote safe.entries wrote,?_,?_⟩
  · refine .ended response position genuine (by simp [wrote.record,Ended,Turn.record]) ⟨?_,?_,home⟩
    · refine ⟨entry,(mem_wrote wrote).mpr (.inr ⟨rfl,rfl,rfl⟩),named,?_,?_⟩
      · exact congrArg Entry.input content
      · exact congrArg Entry.output content
    · intro log depth other found mine
      rcases (mem_wrote wrote).mp found with old | ⟨rfl,rfl,_⟩
      · exact absurd mine (absent log depth other old)
      · exact ⟨rfl,rfl⟩
  · intro other point flying
    obtain ⟨also,ready⟩ := safe.ready other point flying
    exact ⟨also,ready_wrote wrote (fun gone => absurd gone present) ready⟩

-- A change of other keys, or the deletion of the record.
theorem Safe.frame (safe : Safe identity target parent input allowed writers s) (timeless : t.Timeless)
    (same : ∀ log, logsOf identity t log = logsOf identity s log)
    (record : t.cells (key identity target) = s.cells (key identity target) ∨
      t.cells (key identity target) = none) :
    Safe identity target parent input allowed writers t := by
  have gone : s.cells (key identity target) = none → t.cells (key identity target) = none :=
    fun none => record.elim (fun equal => equal.trans none) (fun deleted => deleted)
  have absent : Absent identity target s → Absent identity target t := by
    intro absent log depth entry present
    rw [same] at present
    exact absent log depth entry present
  have occupied : ∀ {response position}, Occupies identity target parent input response position s →
      Occupies identity target parent input response position t := by
    intro response position occupied
    refine ⟨?_,?_,?_⟩
    · simpa only [same] using occupied.entry
    · simpa only [same] using occupied.only
    · simpa only [same] using occupied.home
  refine ⟨timeless,?_,?_,?_,?_⟩
  · intro log; rw [same]; exact safe.ordered log
  · intro log; rw [same]; exact safe.entries log
  · rcases record with kept | none
    · cases safe.phase with
      | waiting placeholder held unused missing =>
          exact .waiting placeholder (kept.trans held) ((same target).trans unused) (absent missing)
      | ended response position genuine held found =>
          exact .ended response position genuine (kept.trans held) (occupied found)
      | deleted held entry =>
          exact .deleted (kept.trans held) (entry.imp absent
            (fun ⟨response,position,genuine,found⟩ => ⟨response,position,genuine,occupied found⟩))
    · refine .deleted none ?_
      cases safe.phase with
      | waiting placeholder held unused missing => exact .inl (absent missing)
      | ended response position genuine held found => exact .inr ⟨response,position,genuine,occupied found⟩
      | deleted held entry =>
          exact entry.imp absent
            (fun ⟨response,position,genuine,found⟩ => ⟨response,position,genuine,occupied found⟩)
  · intro response point flying
    obtain ⟨genuine,ready⟩ := safe.ready response point flying
    refine ⟨genuine,?_⟩
    cases point with
    | read => trivial
    | finished => trivial
    | storing turn point =>
        refine ⟨ready.1,?_⟩
        have passed := ready.2
        cases point with
        | append => trivial
        | finished => exact passed
        | readTaken => exact passed.imp gone (by simp only [same]; exact fun found => found)
        | fork => exact passed.imp gone (by simp only [same]; exact fun found => found)

-- What one store step may do to the record and to the log entries.
structure Moves (identity target : String) (s t : Store) : Prop where
  stays : ∀ response position, s.cells (key identity target) = some (Ended response position) →
    t.cells (key identity target) = some (Ended response position) ∨ t.cells (key identity target) = none
  gone : s.cells (key identity target) = none → t.cells (key identity target) = none
  waits : ∀ placeholder parent input,
    t.cells (key identity target) = some (.value (.record (.background placeholder parent input))) →
    s.cells (key identity target) = some (.value (.record (.background placeholder parent input)))
  entries : ∀ log depth value, (depth,value) ∈ logsOf identity s log → (depth,value) ∈ logsOf identity t log
  new : ∀ log depth entry, (depth,.entry entry) ∈ logsOf identity t log → entry.responseId = target →
    (depth,.entry entry) ∈ logsOf identity s log ∨ t.cells (key identity target) ≠ none

theorem Moves.refl (identity target : String) (s : Store) : Moves identity target s s :=
  ⟨fun _ _ held => .inl held,fun none => none,fun _ _ _ held => held,fun _ _ _ present => present,
    fun _ _ _ present _ => .inl present⟩

theorem Moves.frame (same : ∀ log, logsOf identity t log = logsOf identity s log)
    (record : t.cells (key identity target) = s.cells (key identity target) ∨
      t.cells (key identity target) = none) : Moves identity target s t := by
  refine ⟨?_,?_,?_,?_,?_⟩
  · intro response position held
    exact record.imp (fun kept => kept.trans held) (fun none => none)
  · intro none
    exact record.elim (fun kept => kept.trans none) (fun deleted => deleted)
  · intro placeholder parent input held
    rcases record with kept | none
    · exact kept.symm.trans held
    · rw [none] at held; cases held
  · intro log depth value present; rw [same]; exact present
  · intro log depth entry present _; rw [same] at present; exact .inl present

theorem wrote_entries {turn : Turn} {position : Position} {entry : Entry}
    (wrote : Wrote identity turn position entry s t) (log : String) (depth : Nat) (value : Value)
    (present : (depth,value) ∈ logsOf identity s log) : (depth,value) ∈ logsOf identity t log := by
  obtain ⟨new,same,_⟩ := grows_of_wrote wrote log
  rw [same]
  exact List.mem_append_left _ present

theorem Moves.other {turn : Turn} {place : Position} {entry : Entry}
    (wrote : Wrote identity turn place entry s t) (foreign : turn.responseId ≠ target)
    (named : entry.responseId ≠ target) : Moves identity target s t := by
  have record : t.cells (key identity target) = s.cells (key identity target) := by
    rw [wrote.record,if_neg foreign]
  refine ⟨fun _ _ held => .inl (record.trans held),record.trans,fun _ _ _ => record.symm.trans,wrote_entries wrote,?_⟩
  intro log depth other present mine
  rcases (mem_wrote wrote).mp present with old | ⟨_,_,rfl⟩
  · exact .inl old
  · exact absurd mine named

-- An accepted terminal write finds the record still waiting: the entry of a
-- terminal response already stored would hold the position it appends at.
theorem Safe.accepted (safe : Safe identity target parent input allowed writers s) {response : Json}
    (genuine : allowed response) {position : Position} {entry : Entry}
    (wrote : Wrote identity ⟨target,response,parent,input,true⟩ position entry s t)
    (content : {entry with base := none} = (⟨target,response,parent,input,true⟩ : Turn).entry)
    (home : parent = none ∧ position = ⟨target,1⟩ ∨
      ∃ origin, parent = some origin ∧ taken (logsOf identity t origin.log) (origin.depth + 1) = true ∧
        (position = ⟨origin.log,origin.depth + 1⟩ ∨ position = ⟨target,origin.depth + 1⟩))
    (present : s.cells (key identity target) ≠ none)
    (held : ∀ other place, Occupies identity target parent input other place s →
      taken (logsOf identity s position.log) position.depth = true) :
    Safe identity target parent input allowed (With writers response .finished) t ∧
      Moves identity target s t := by
  cases safe.phase with
  | waiting placeholder here unused absent =>
      refine ⟨(safe.ends genuine wrote content absent home present).add genuine trivial,?_⟩
      have record : t.cells (key identity target) ≠ none := by simp [wrote.record]
      refine ⟨?_,fun none => absurd none present,?_,wrote_entries wrote,fun _ _ _ _ _ => .inr record⟩
      · intro other place stored
        rw [here] at stored
        cases stored
      · intro other origin given held
        simp [wrote.record,Turn.record] at held
  | ended other place _ _ occupied =>
      have busy := held other place occupied
      rw [wrote.free] at busy
      cases busy
  | deleted none _ => exact absurd none present

theorem occupies_taken (ordered : ∀ log, Ordered (logsOf identity s log))
    (occupied : Occupies identity target parent input response position s) :
    taken (logsOf identity s position.log) position.depth = true := by
  obtain ⟨entry,present,_⟩ := occupied.entry
  exact MemoryStoreActor.taken_of_mem (ordered _) present

-- What the read of the taken position finds out: an entry of this response there
-- is the one that is read.
theorem read_own {log : List (Nat × Value)} {depth : Nat} {entry : Entry} (ordered : Ordered log)
    (present : (depth,.entry entry) ∈ log) (mine : entry.responseId = target) :
    (((log.filter (fun other => inRange depth (some depth) other.1)).map Prod.snd).head?.bind asEntry).any
      (fun entry => entry.responseId == target) = true := by
  rw [MemoryStoreActor.readAt_mem ordered present]
  simp [asEntry,mine]

theorem Safe.storing (safe : Safe identity target parent input allowed writers s) {response : Json}
    (genuine : allowed response) (point : StorePoint) (passed : Passed identity target parent s point) (now : Int) :
    Safe identity target parent input allowed
        (With writers response (writeTerminalIfNotTerminal none identity now target response s
          (.storing ⟨target,response,parent,input,true⟩ point)).2)
        (writeTerminalIfNotTerminal none identity now target response s
          (.storing ⟨target,response,parent,input,true⟩ point)).1 ∧
      Moves identity target s (writeTerminalIfNotTerminal none identity now target response s
        (.storing ⟨target,response,parent,input,true⟩ point)).1 := by
  have still : ∀ place, Ready identity target parent input s response place →
      Safe identity target parent input allowed (With writers response place) s ∧ Moves identity target s s :=
    fun place ready => ⟨safe.add genuine ready,.refl identity target s⟩
  cases point with
  | finished => exact passed.elim
  | append =>
      cases parent with
      | none =>
          rcases write_cases safe.timeless identity now ⟨target,response,none,input,true⟩ ⟨target,1⟩
            (⟨target,response,none,input,true⟩ : Turn).entry with ⟨refused,_⟩ | ⟨present,after,taken,wrote⟩
          · simpa only [writeTerminalIfNotTerminal,storeTurn,refused] using still .finished trivial
          · simp only [writeTerminalIfNotTerminal,storeTurn,taken]
            refine safe.accepted genuine wrote rfl (.inl ⟨rfl,rfl⟩) (present rfl) ?_
            intro other place occupied
            have held := occupies_taken safe.ordered occupied
            rcases occupied.home with ⟨_,rfl⟩ | ⟨_,impossible,_⟩
            · exact held
            · cases impossible
      | some origin =>
          rcases write_cases safe.timeless identity now ⟨target,response,some origin,input,true⟩
            ⟨origin.log,origin.depth + 1⟩ (⟨target,response,some origin,input,true⟩ : Turn).entry with
            ⟨refused,why⟩ | ⟨present,after,taken,wrote⟩
          · simp only [writeTerminalIfNotTerminal,storeTurn,refused]
            refine still (.storing _ .readTaken) ⟨rfl,?_⟩
            exact why.imp And.right (fun busy => ⟨origin,rfl,busy⟩)
          · simp only [writeTerminalIfNotTerminal,storeTurn,taken]
            have held : MemoryStoreActor.taken (logsOf identity after origin.log) (origin.depth + 1) = true := by
              simp [wrote.logs,MemoryStoreActor.taken]
            refine safe.accepted genuine wrote rfl (.inr ⟨origin,rfl,held,.inl rfl⟩) (present rfl) ?_
            intro other place occupied
            rcases occupied.home with ⟨impossible,_⟩ | ⟨_,same,busy,_⟩
            · cases impossible
            · cases same; exact busy
  | readTaken =>
      cases parent with
      | none => exact still .finished trivial
      | some origin =>
          simp only [writeTerminalIfNotTerminal,storeTurn,MemoryStoreActor.readRange_timeless safe.timeless]
          split
          · rename_i stopped
            split at stopped
            · cases stopped; exact still .finished trivial
            · cases stopped
          · rename_i going
            split at going
            · cases going; contradiction
            · rename_i unread
              cases going
              refine still (.storing _ .fork) ⟨rfl,?_⟩
              refine passed.imp id ?_
              rintro ⟨_,same,busy⟩
              cases same
              refine ⟨origin,rfl,busy,?_⟩
              intro entry present mine
              exact unread (read_own (safe.ordered _) present mine)
  | fork =>
      cases parent with
      | none => exact still .finished trivial
      | some origin =>
          rcases write_cases safe.timeless identity now ⟨target,response,some origin,input,true⟩
            ⟨target,origin.depth + 1⟩
            {(⟨target,response,some origin,input,true⟩ : Turn).entry with base := some origin} with
            ⟨refused,_⟩ | ⟨present,after,taken,wrote⟩
          · simpa only [writeTerminalIfNotTerminal,storeTurn,refused] using still .finished trivial
          · simp only [writeTerminalIfNotTerminal,storeTurn,taken]
            rcases passed with none | ⟨_,same,busy,others⟩
            · exact absurd none (present rfl)
            · cases same
              refine safe.accepted genuine wrote rfl (.inr ⟨origin,rfl,taken_wrote wrote busy,.inr rfl⟩) (present rfl) ?_
              intro other place occupied
              have held := occupies_taken safe.ordered occupied
              rcases occupied.home with ⟨impossible,_⟩ | ⟨_,same,_,rfl | rfl⟩
              · cases impossible
              · cases same
                obtain ⟨entry,found,mine,_⟩ := occupied.entry
                exact absurd mine (others entry found)
              · cases same; exact held

theorem Safe.step (safe : Safe identity target parent input allowed writers s) {response : Json}
    {point : TerminalPoint} (flying : writers response point) (now : Int) :
    Safe identity target parent input allowed
        (With writers response (writeTerminalIfNotTerminal none identity now target response s point).2)
        (writeTerminalIfNotTerminal none identity now target response s point).1 ∧
      Moves identity target s (writeTerminalIfNotTerminal none identity now target response s point).1 := by
  obtain ⟨genuine,ready⟩ := safe.ready response point flying
  have still : ∀ place, Ready identity target parent input s response place →
      Safe identity target parent input allowed (With writers response place) s ∧ Moves identity target s s :=
    fun place ready => ⟨safe.add genuine ready,.refl identity target s⟩
  cases point with
  | finished => exact still .finished trivial
  | storing turn point =>
      obtain ⟨rfl,passed⟩ := ready
      exact safe.storing genuine point passed now
  | read =>
      simp only [writeTerminalIfNotTerminal,readRecord_timeless safe.timeless]
      cases safe.phase with
      | waiting placeholder held unused absent =>
          simp only [held]
          split
          · exact still .finished trivial
          · exact still (.storing _ .append) ⟨rfl,trivial⟩
      | ended other position _ held _ =>
          simp only [held,Ended]
          exact still .finished trivial
      | deleted held _ =>
          simp only [held]
          exact still .finished trivial

-- A terminal write that ends while the record still waits has stored its response.
theorem Safe.finishes (safe : Safe identity target parent input allowed writers s) {response : Json}
    {point : TerminalPoint} (flying : writers response point) (going : point ≠ .finished) (now : Int)
    (waits : ∀ other position, s.cells (key identity target) ≠ some (Ended other position))
    (open_ : ∀ placeholder, s.cells (key identity target) =
      some (.value (.record (.background placeholder parent input))) → isTerminal placeholder = false)
    (stops : (writeTerminalIfNotTerminal none identity now target response s point).2 = .finished) :
    s.cells (key identity target) = none ∨
    ∃ position, (writeTerminalIfNotTerminal none identity now target response s point).1.cells
      (key identity target) = some (Ended response position) := by
  obtain ⟨_,ready⟩ := safe.ready response point flying
  cases safe.phase with
  | ended other position _ held _ => exact absurd held (waits other position)
  | deleted held _ => exact .inl held
  | waiting placeholder held unused absent =>
      have present : s.cells (key identity target) ≠ none := by simp [held]
      have free : ∀ depth, taken (logsOf identity s target) depth = false := by
        intro depth; rw [unused]; rfl
      have ends : ∀ {t position entry}, Wrote identity ⟨target,response,parent,input,true⟩ position entry s t →
          ∃ position, t.cells (key identity target) = some (Ended response position) := by
        intro t position entry wrote
        exact ⟨position,by simp [wrote.record,Ended,Turn.record]⟩
      cases point with
      | finished => exact absurd rfl going
      | read =>
          simp [writeTerminalIfNotTerminal,readRecord_timeless safe.timeless,held,open_ placeholder held] at stops
      | storing turn point =>
          obtain ⟨rfl,passed⟩ := ready
          cases point with
          | finished => exact passed.elim
          | append =>
              cases parent with
              | none =>
                  rcases write_cases safe.timeless identity now ⟨target,response,none,input,true⟩ ⟨target,1⟩
                    (⟨target,response,none,input,true⟩ : Turn).entry with ⟨_,⟨_,gone⟩ | busy⟩ | ⟨_,after,stored,wrote⟩
                  · exact absurd gone present
                  · rw [free] at busy; cases busy
                  · simp only [writeTerminalIfNotTerminal,storeTurn,stored]
                    exact .inr (ends wrote)
              | some origin =>
                  rcases write_cases safe.timeless identity now ⟨target,response,some origin,input,true⟩
                    ⟨origin.log,origin.depth + 1⟩ (⟨target,response,some origin,input,true⟩ : Turn).entry with
                    ⟨refused,_⟩ | ⟨_,after,stored,wrote⟩
                  · simp [writeTerminalIfNotTerminal,storeTurn,refused] at stops
                  · simp only [writeTerminalIfNotTerminal,storeTurn,stored]
                    exact .inr (ends wrote)
          | readTaken =>
              rcases passed with gone | ⟨origin,rfl,_⟩
              · exact absurd gone present
              · simp only [writeTerminalIfNotTerminal,storeTurn,MemoryStoreActor.readRange_timeless safe.timeless] at stops
                split at stops
                · rename_i found
                  split at found
                  · rename_i own
                    obtain ⟨entry,read,same⟩ := (Option.any_eq_true _ _).mp own
                    obtain ⟨value,head,shape⟩ := Option.bind_eq_some_iff.mp read
                    obtain ⟨⟨place,value⟩,kept,rfl⟩ := List.mem_map.mp (List.mem_of_mem_head? head)
                    have inside := (List.mem_filter.mp kept).1
                    obtain ⟨held,rfl⟩ := safe.entries origin.log place value inside
                    cases shape
                    exact absurd (by simpa using same) (absent origin.log place entry inside)
                  · cases found
                · cases stops
          | fork =>
              rcases passed with gone | ⟨origin,rfl,_⟩
              · exact absurd gone present
              · rcases write_cases safe.timeless identity now ⟨target,response,some origin,input,true⟩
                  ⟨target,origin.depth + 1⟩
                  {(⟨target,response,some origin,input,true⟩ : Turn).entry with base := some origin} with
                  ⟨_,⟨_,gone⟩ | busy⟩ | ⟨_,after,stored,wrote⟩
                · exact absurd gone present
                · rw [free] at busy; cases busy
                · simp only [writeTerminalIfNotTerminal,storeTurn,stored]
                  exact .inr (ends wrote)

theorem terminal_effect (timeless : s.Timeless) (identity target : String) (now : Int) (response : Json)
    (point : TerminalPoint) :
    (writeTerminalIfNotTerminal none identity now target response s point).1 = s ∨
    ∃ turn position entry, Wrote identity turn position entry s
      (writeTerminalIfNotTerminal none identity now target response s point).1 := by
  cases point with
  | finished => exact .inl rfl
  | read =>
      refine .inl ?_
      simp only [writeTerminalIfNotTerminal,readRecord_timeless timeless]
      split
      · rename_i found
        split <;> exact (congrArg Prod.fst found).symm
      · rename_i found
        exact (congrArg Prod.fst found).symm
  | storing turn point =>
      have effect := storeTurn_effect timeless identity now turn point
      have store : (writeTerminalIfNotTerminal none identity now target response s (.storing turn point)).1 =
          (storeTurn none identity now turn s point).1 := by
        simp only [writeTerminalIfNotTerminal]
        split <;> rename_i found <;> rw [found]
      rw [store]
      exact effect.imp id (fun ⟨position,entry,wrote,_⟩ => ⟨turn,position,entry,wrote⟩)

-- A terminal write that goes on has written nothing yet.
theorem terminal_going {s : Store} (timeless : s.Timeless) {now : Int} {response : Json} {point : TerminalPoint}
    (going : (writeTerminalIfNotTerminal none identity now target response s point).2 ≠ .finished) :
    (writeTerminalIfNotTerminal none identity now target response s point).1 = s := by
  cases point with
  | finished => rfl
  | read =>
      rcases terminal_effect timeless identity target now response .read with same | ⟨turn,position,entry,wrote⟩
      · exact same
      · simp only [writeTerminalIfNotTerminal,readRecord_timeless timeless]
        split <;> rename_i found
        · split <;> exact (congrArg Prod.fst found).symm
        · exact (congrArg Prod.fst found).symm
  | storing turn point =>
      have stored : ∀ position entry, (turn.write none identity now s position entry).2 = false →
          (turn.write none identity now s position entry).1 = s := by
        intro position entry refused
        rcases write_cases timeless identity now turn position entry with ⟨same,_⟩ | ⟨_,t,accepted,_⟩
        · rw [same]
        · rw [accepted] at refused; cases refused
      cases point with
      | finished => rfl
      | append =>
          cases parent : turn.parent with
          | none => simp [writeTerminalIfNotTerminal,storeTurn,parent] at going
          | some origin =>
              have kept := stored ⟨origin.log,origin.depth + 1⟩ turn.entry
              simp only [writeTerminalIfNotTerminal,storeTurn,parent] at going ⊢
              cases result : turn.write none identity now s ⟨origin.log,origin.depth + 1⟩ turn.entry with
              | mk after accepted =>
                  rw [result] at kept
                  cases accepted with
                  | true => simp [result] at going
                  | false => simpa [result] using kept rfl
      | readTaken =>
          cases parent : turn.parent with
          | none => simp [writeTerminalIfNotTerminal,storeTurn,parent] at going
          | some origin =>
              simp only [writeTerminalIfNotTerminal,storeTurn,parent,MemoryStoreActor.readRange_timeless timeless]
              split <;> rename_i found <;> split at found <;> cases found <;> rfl
      | fork =>
          cases parent : turn.parent with
          | none => simp [writeTerminalIfNotTerminal,storeTurn,parent] at going
          | some origin => simp [writeTerminalIfNotTerminal,storeTurn,parent] at going

-- The other turns on the store and the terminal writes of the background response,
-- each at its next store call.
structure Background where
  others : Conversations
  writers : List (Json × TerminalPoint)

-- `terminal` begins a `write_terminal_if_not_terminal` call, `advance` makes the
-- next store call of one of them.
inductive Step where
  | other (action : Action)
  | terminal (response : Json)
  | advance (call : Nat) (now : Int)
  | delete

def writing : Action → String
  | .write responseId .. => responseId
  | .advance responseId _ => responseId

def Background.store (s : Background) : Store := s.others.store
def Background.held (identity target : String) (s : Background) : Option (Cell Value) :=
  s.store.cells (key identity target)

def step (identity target : String) (s : Background) : Step → Option Background
  | .other action =>
    if writing action = target then none else
    (next identity s.others action).map fun others => {s with others}
  | .terminal response => some {s with writers := s.writers ++ [(response,.read)]}
  | .advance call now =>
    match s.writers[call]? with
    | none => none
    | some (response,point) =>
      let (store,point) := writeTerminalIfNotTerminal none identity now target response s.store point
      some ⟨{s.others with store},s.writers.set call (response,point)⟩
  | .delete => some {s with others := {s.others with store := deleteAsync identity target s.store}}

-- What a step does.
inductive Took (identity target : String) (s : Background) : Step → Background → Prop where
  | other (action after) (foreign : writing action ≠ target) (moved : next identity s.others action = some after) :
      Took identity target s (.other action) {s with others := after}
  | terminal (response) : Took identity target s (.terminal response) {s with writers := s.writers ++ [(response,.read)]}
  | advance (call now response point) (found : s.writers[call]? = some (response,point)) :
      Took identity target s (.advance call now)
        ⟨{s.others with store := (writeTerminalIfNotTerminal none identity now target response s.store point).1},
          s.writers.set call (response,(writeTerminalIfNotTerminal none identity now target response s.store point).2)⟩
  | delete : Took identity target s .delete {s with others := {s.others with store := deleteAsync identity target s.store}}

theorem step_took {identity target : String} {s t : Background} {taken : Step} (stepped : step identity target s taken = some t) :
    Took identity target s taken t := by
  cases taken with
  | other action =>
      simp only [step] at stepped
      obtain ⟨foreign,begun⟩ := Option.ite_none_left_eq_some.mp stepped
      obtain ⟨after,moved,rfl⟩ := Option.map_eq_some_iff.mp begun
      exact .other action after foreign moved
  | terminal response =>
      cases stepped
      exact .terminal response
  | advance call now =>
      simp only [step] at stepped
      split at stepped
      · cases stepped
      · rename_i response point found
        cases stepped
        exact .advance call now response point found
  | delete =>
      cases stepped
      exact .delete

-- The placeholder just written, beside other turns in any state they can be in.
def launched (identity target : String) (now : Int) (uuids : Nat → String) (placeholder : Json)
    (parent : Option Position) (input : List Json) (base : Conversations) : Background :=
  ⟨{base with store := writeBackground none identity now uuids target placeholder parent input base.store},[]⟩

-- What the other turns rely on: they are not this response's, and the positions they
-- continue exist.
structure Others (identity target : String) (s : Conversations) : Prop where
  foreign : ∀ written ∈ s.turns, written.id ≠ target
  parent : ∀ written ∈ s.turns, s.points written.id ≠ .finished → ∀ origin, written.turn.parent = some origin →
    taken (logsOf identity s.store origin.log) origin.depth = true
  stored : ∀ responseId position, storedAt identity s.store responseId = some position →
    taken (logsOf identity s.store position.log) position.depth = true

structure Valid (identity target : String) (parent : Option Position) (input : List Json) (allowed : Json → Prop)
    (s : Background) : Prop where
  safe : Safe identity target parent input allowed (fun response point => (response,point) ∈ s.writers) s.store
  others : Others identity target s.others

theorem storedAt_iff {position : Position} : storedAt identity s responseId = some position ↔
    ∃ response, s.cells (key identity responseId) = some (.value (.record (.stored response position))) := by
  unfold storedAt recordAt
  constructor
  · intro found
    split at found
    · rename_i response place shown
      cases found
      split at shown
      · rename_i record held
        cases shown
        exact ⟨response,held⟩
      · cases shown
    · cases found
  · rintro ⟨response,held⟩
    simp [held]

theorem storedAt_taken (wrote : Wrote identity turn position entry s t)
    (stored : ∀ responseId place, storedAt identity s responseId = some place →
      taken (logsOf identity s place.log) place.depth = true) (responseId : String) (place : Position)
    (found : storedAt identity t responseId = some place) :
    taken (logsOf identity t place.log) place.depth = true := by
  rw [storedAt_wrote wrote] at found
  split at found
  · cases found
    simp [wrote.logs,taken]
  · exact taken_wrote wrote (stored responseId place found)

theorem other_valid {s : Background} (valid : Valid identity target parent input allowed s) {written : Written}
    (present : written ∈ s.others.turns) (unfinished : s.others.points written.id ≠ .finished) (now : Int) :
    Valid identity target parent input allowed {s with others := {s.others with
      store := (storeTurn none identity now written.turn s.store (s.others.points written.id)).1
      points := Function.update s.others.points written.id
        (storeTurn none identity now written.turn s.store (s.others.points written.id)).2}} ∧
    Moves identity target s.store (storeTurn none identity now written.turn s.store (s.others.points written.id)).1 := by
  have foreign := valid.others.foreign written present
  have open_ : ∀ {point} (other : Written), Function.update s.others.points written.id point other.id ≠ .finished →
      other ∈ s.others.turns → s.others.points other.id ≠ .finished := by
    intro point other going member done
    by_cases same : other.id = written.id
    · exact unfinished (same ▸ done)
    · rw [Function.update_of_ne same] at going; exact going done
  rcases storeTurn_effect valid.safe.timeless identity now written.turn (s.others.points written.id) with
    same | ⟨position,entry,wrote,named,home⟩
  · rw [same]
    refine ⟨⟨valid.safe,valid.others.foreign,?_,valid.others.stored⟩,.refl identity target _⟩
    intro other member going
    exact valid.others.parent other member (open_ other going member)
  · have apart : position.log = target → logsOf identity s.store target ≠ [] := by
      intro here empty
      rcases home with own | ⟨origin,continued,same⟩
      · exact foreign (own.symm.trans here)
      · have held := valid.others.parent written present unfinished origin continued
        rw [← same,here] at held
        have nothing : logsOf identity s.others.store target = [] := empty
        simp [nothing,taken] at held
    have mine : entry.responseId ≠ target := fun equal => foreign (named.symm.trans equal)
    refine ⟨⟨valid.safe.other wrote foreign mine apart,valid.others.foreign,?_,?_⟩,.other wrote foreign mine⟩
    · intro other member going origin continued
      exact taken_wrote wrote (valid.others.parent other member (open_ other going member) origin continued)
    · exact storedAt_taken wrote valid.others.stored

theorem Others.wrote {s : Conversations} (others : Others identity target s)
    (effect : t = s.store ∨ ∃ turn position entry, Wrote identity turn position entry s.store t) :
    Others identity target {s with store := t} := by
  rcases effect with rfl | ⟨turn,position,entry,wrote⟩
  · exact others
  · refine ⟨others.foreign,?_,storedAt_taken wrote others.stored⟩
    intro written member going origin continued
    exact taken_wrote wrote (others.parent written member going origin continued)

theorem delete_logs (timeless : s.Timeless) (identity target log : String) :
    logsOf identity (deleteAsync identity target s) log = logsOf identity s log := by
  refine logsOf_congr ?_
  simp [deleteAsync,(MemoryStoreActor.delete_timeless timeless _).2]

theorem Others.deleted {s : Conversations} (others : Others identity target s) (timeless : s.store.Timeless) :
    Others identity target {s with store := deleteAsync identity target s.store} := by
  refine ⟨others.foreign,?_,?_⟩
  · intro written member going origin continued
    rw [delete_logs timeless]
    exact others.parent written member going origin continued
  · intro responseId position found
    rw [delete_logs timeless]
    obtain ⟨response,held⟩ := storedAt_iff.mp found
    simp only [deleteAsync,(MemoryStoreActor.delete_timeless timeless _).2] at held
    split at held
    · cases held
    · exact others.stored responseId position (storedAt_iff.mpr ⟨response,held⟩)

-- Another turn's step leaves this response's record as it is.
theorem other_record {s t : Background} (valid : Valid identity target parent input allowed s) {action : Action}
    (stepped : step identity target s (.other action) = some t) :
    t.held identity target = s.held identity target ∧ t.writers = s.writers := by
  cases step_took stepped with
  | other action after foreign moved =>
      refine ⟨?_,rfl⟩
      cases next_enacts moved with
      | write responseId response previous given uuids parent fresh link => rfl
      | advance written now present unfinished =>
          rcases storeTurn_effect valid.safe.timeless identity now written.turn (s.others.points written.id) with
            kept | ⟨_,_,wrote,_⟩
          · exact congrArg (fun u : Store => u.cells (key identity target)) kept
          · exact (wrote.record target).trans (if_neg (valid.others.foreign written present))

theorem step_valid {s t : Background} (valid : Valid identity target parent input allowed s) {taken : Step}
    (genuine : ∀ response, taken = .terminal response → allowed response)
    (stepped : step identity target s taken = some t) :
    Valid identity target parent input allowed t ∧ Moves identity target s.store t.store := by
  cases step_took stepped with
  | terminal response =>
      have added : Safe identity target parent input allowed
          (With (fun response point => (response,point) ∈ s.writers) response .read) s.store :=
        valid.safe.add (genuine response rfl) trivial
      refine ⟨⟨added.fewer ?_,valid.others⟩,.refl identity target _⟩
      intro other point present
      exact (List.mem_append.mp present).imp id (fun last => by simpa using last)
  | delete =>
      have timeless := valid.safe.timeless
      have same := delete_logs timeless identity target
      have none : (deleteAsync identity target s.store).cells (key identity target) = none := by
        simp [deleteAsync,(MemoryStoreActor.delete_timeless timeless _).2]
      exact ⟨⟨valid.safe.frame (MemoryStoreActor.delete_timeless timeless _).1 same (.inr none),
        valid.others.deleted timeless⟩,.frame same (.inr none)⟩
  | advance call now response point found =>
      obtain ⟨safe,moves⟩ := valid.safe.step (List.mem_of_getElem? found) now
      refine ⟨⟨safe.fewer ?_,valid.others.wrote (terminal_effect valid.safe.timeless identity target now response point)⟩,moves⟩
      intro other place present
      exact (List.mem_or_eq_of_mem_set present).imp id Prod.mk.inj
  | other action after foreign moved =>
      cases next_enacts moved with
      | write responseId response previous given uuids origin fresh link =>
          refine ⟨⟨valid.safe,?_,?_,valid.others.stored⟩,.refl identity target _⟩
          · intro written present
            rcases List.mem_append.mp present with old | new
            · exact valid.others.foreign written old
            · rw [List.mem_singleton.mp new]; exact foreign
          · intro written present going position continued
            rcases List.mem_append.mp present with old | new
            · have open_ : s.others.points written.id ≠ .finished := by
                intro done
                exact going ((Function.update_of_ne (fresh written old) _ _).trans done)
              exact valid.others.parent written old open_ position continued
            · rw [List.mem_singleton.mp new] at continued
              rcases link with ⟨none_,_⟩ | ⟨earlier,place,some_,_,stored⟩
              · exact absurd (none_.symm.trans continued) (Option.some_ne_none _).symm
              · cases some_.symm.trans continued
                exact valid.others.stored earlier position stored
      | advance written now present unfinished => exact other_valid valid present unfinished now

theorem launched_logs {base : Conversations} (timeless : base.store.Timeless) (identity target : String) (now : Int)
    (uuids : Nat → String) (placeholder : Json) (parent : Option Position) (input : List Json) (log : String) :
    logsOf identity (launched identity target now uuids placeholder parent input base).store log =
      logsOf identity base.store log := by
  refine logsOf_congr ?_
  simp [launched,Background.store,writeBackground,(MemoryStoreActor.set_timeless timeless _ _ _).2]

theorem launched_absent {base : Conversations} (valid : Invariant identity base)
    (fresh : ∀ written ∈ base.turns, written.id ≠ target) (now : Int) (uuids : Nat → String)
    (placeholder : Json) (parent : Option Position) (input : List Json) :
    Absent identity target (launched identity target now uuids placeholder parent input base).store := by
  intro log depth entry present mine
  rw [launched_logs valid.timeless] at present
  obtain ⟨_,shape,⟨author,member,named,_⟩,_⟩ := valid.entries log depth _ present
  cases shape
  exact fresh author member (named.trans mine)

theorem launched_valid {base : Conversations} (valid : Invariant identity base)
    (fresh : ∀ written ∈ base.turns, written.id ≠ target) (now : Int) (uuids : Nat → String)
    (placeholder : Json) (parent : Option Position) (input : List Json) (allowed : Json → Prop) :
    Valid identity target parent (withIds uuids input) allowed
      (launched identity target now uuids placeholder parent input base) := by
  obtain ⟨timeless,cells⟩ := MemoryStoreActor.set_timeless valid.timeless (key identity target)
    (.record (.background placeholder parent (withIds uuids input))) now
  have same := launched_logs valid.timeless identity target now uuids placeholder parent input
  have position : ∀ responseId place, storedAt identity base.store responseId = some place →
      taken (logsOf identity base.store place.log) place.depth = true := by
    intro responseId place stored
    obtain ⟨path,lineage,reads,_⟩ := valid.reads responseId place stored
    exact reads.held
  have unstored : ∀ responseId place,
      storedAt identity (launched identity target now uuids placeholder parent input base).store responseId = some place →
      storedAt identity base.store responseId = some place := by
    intro responseId place found
    obtain ⟨response,held⟩ := storedAt_iff.mp found
    simp only [launched,Background.store,writeBackground,cells] at held
    split at held
    · cases held
    · exact storedAt_iff.mpr ⟨response,held⟩
  refine ⟨⟨timeless,?_,?_,?_,?_⟩,fresh,?_,?_⟩
  · intro log; rw [same]; exact valid.ordered log
  · intro log depth value present
    rw [same] at present
    obtain ⟨entry,rfl,_⟩ := valid.entries log depth value present
    exact ⟨entry,rfl⟩
  · refine .waiting placeholder (by simp [launched,Background.store,writeBackground,cells]) ?_ ?_
    · rw [same]
      refine List.eq_nil_iff_forall_not_mem.mpr ?_
      rintro ⟨depth,value⟩ found
      obtain ⟨_,_,_,other,member,home,_⟩ := valid.entries target depth value found
      exact fresh other member home
    · exact launched_absent valid fresh now uuids placeholder parent input
  · intro response point present
    cases present
  · intro written member going origin continued
    have logs := same origin.log
    unfold Background.store at logs
    rw [logs]
    rcases (valid.pending written member going).parent with ⟨first,_⟩ | ⟨earlier,place,named,_,stored⟩
    · rw [continued] at first; cases first
    · rw [continued] at named
      cases named
      exact position earlier origin stored
  · intro responseId place found
    have logs := same place.log
    unfold Background.store at logs
    rw [logs]
    exact position responseId place (unstored responseId place found)

-- How the record of a later moment follows from that of an earlier one.
def Follows (identity target : String) (s t : Background) : Prop :=
  (∀ response position, s.held identity target = some (Ended response position) →
    t.held identity target = some (Ended response position) ∨ t.held identity target = none) ∧
  (s.held identity target = none → t.held identity target = none)

theorem runs_move {s t : Background} {actions : List Step}
    (genuine : ∀ response, .terminal response ∈ actions → allowed response)
    (valid : Valid identity target parent input allowed s)
    (ran : execute (step identity target) s actions = some t) :
    Valid identity target parent input allowed t ∧ Follows identity target s t := by
  have kept : ∀ action ∈ actions, ∀ middle after,
      Valid identity target parent input allowed middle ∧ Follows identity target s middle →
      step identity target middle action = some after →
      Valid identity target parent input allowed after ∧ Follows identity target s after := by
    rintro action member middle after ⟨here,stays,gone⟩ stepped
    obtain ⟨there,moves⟩ := step_valid here (fun response same => genuine response (same ▸ member)) stepped
    refine ⟨there,?_,fun none => moves.gone (gone none)⟩
    intro response position held
    rcases stays response position held with still | none
    · exact moves.stays response position still
    · exact .inr (moves.gone none)
  have same : Follows identity target s s := ⟨fun _ _ held => .inl held,fun none => none⟩
  have moved := execute_within kept ⟨valid,same⟩ ran
  exact moved

-- An entry of the response appears at a moment at which its record is stored.
theorem runs_entry {s t : Background} {actions : List Step}
    (genuine : ∀ response, .terminal response ∈ actions → allowed response)
    (valid : Valid identity target parent input allowed s)
    (ran : execute (step identity target) s actions = some t) {log : String} {depth : Nat} {entry : Entry}
    (present : (depth,.entry entry) ∈ logsOf identity t.store log) (mine : entry.responseId = target) :
    (depth,.entry entry) ∈ logsOf identity s.store log ∨
    ∃ done rest middle, actions = done ++ rest ∧ execute (step identity target) s done = some middle ∧
      (depth,.entry entry) ∈ logsOf identity middle.store log ∧ middle.held identity target ≠ none := by
  induction actions generalizing s with
  | nil => cases ran; exact .inl present
  | cons action rest ih =>
      obtain ⟨next,first,others⟩ := execute_cons.mp ran
      obtain ⟨there,moves⟩ := step_valid valid
        (fun response same => genuine response (same ▸ List.mem_cons_self)) first
      rcases ih (fun response member => genuine response (List.mem_cons_of_mem _ member)) there others with
        early | ⟨done,after,middle,rfl,reached,found,held⟩
      · rcases moves.new log depth entry early mine with old | stored
        · exact .inl old
        · exact .inr ⟨[action],rest,next,rfl,execute_cons.mpr ⟨next,first,rfl⟩,early,stored⟩
      · exact .inr ⟨action :: done,after,middle,rfl,execute_cons.mpr ⟨next,first,reached⟩,found,held⟩

theorem entry_unique (safe : Safe identity target parent input allowed writers s) {log other : String}
    {depth place : Nat} {one two : Entry} (first : (depth,.entry one) ∈ logsOf identity s log)
    (second : (place,.entry two) ∈ logsOf identity s other) (mine : one.responseId = target)
    (also : two.responseId = target) : log = other ∧ depth = place ∧ one = two := by
  have within : ∀ {response position}, Occupies identity target parent input response position s →
      log = other ∧ depth = place ∧ one = two := by
    intro response position occupied
    obtain ⟨rfl,rfl⟩ := occupied.only log depth one first mine
    obtain ⟨rfl,rfl⟩ := occupied.only other place two second also
    have same := MemoryStoreActor.ordered_unique (safe.ordered position.log) first second
    exact ⟨rfl,rfl,Value.entry.inj same⟩
  cases safe.phase with
  | waiting _ _ _ absent => exact absurd mine (absent log depth one first)
  | ended _ _ _ _ occupied => exact within occupied
  | deleted _ entry =>
      rcases entry with absent | ⟨_,_,_,occupied⟩
      · exact absurd mine (absent log depth one first)
      · exact within occupied

-- A background response ends at most once, whatever terminal writes, deletions and
-- other turns interleave with it. `s` and `t` are any two moments of the run.
theorem background_ends_once (identity target : String) (clock sweepInterval now : Int) {earlier : List Action}
    {base : Conversations} (reached : execute (next identity) (start clock sweepInterval) earlier = some base)
    (fresh : ∀ written ∈ base.turns, written.id ≠ target) (uuids : Nat → String) (placeholder : Json)
    (parent : Option Position) (input : List Json) {before after : List Step} {s t : Background}
    (first : execute (step identity target) (launched identity target now uuids placeholder parent input base)
      before = some s)
    (later : execute (step identity target) s after = some t) :
    (∀ response position, s.held identity target = some (.value (.record (.stored response position))) →
      t.held identity target = some (.value (.record (.stored response position))) ∨
        t.held identity target = none) ∧
    (s.held identity target = none → t.held identity target = none) ∧
    (∀ response position, t.held identity target = some (.value (.record (.stored response position))) →
      ∃ given, .terminal given ∈ before ++ after ∧ response = given.set "output" (.arr [])) ∧
    (∀ log other depth place one two, (depth,.entry one) ∈ logsOf identity t.store log →
      (place,.entry two) ∈ logsOf identity t.store other → one.responseId = target → two.responseId = target →
      log = other ∧ depth = place ∧ one = two) ∧
    (∀ log depth entry, (depth,.entry entry) ∈ logsOf identity t.store log → entry.responseId = target →
      ∃ done rest middle given, before ++ after = done ++ rest ∧
        execute (step identity target) (launched identity target now uuids placeholder parent input base)
          done = some middle ∧ .terminal given ∈ before ++ after ∧
        middle.held identity target = some (.value (.record (.stored (given.set "output" (.arr [])) ⟨log,depth⟩))) ∧
        entry.output = given.items "output" ∧ entry.input = withIds uuids input) := by
  let allowed : Json → Prop := fun response => .terminal response ∈ before ++ after
  have initial := launched_valid (runs_valid reached) fresh now uuids placeholder parent input allowed
  have whole := execute_append.mpr ⟨s,first,later⟩
  obtain ⟨here,_⟩ := runs_move (fun response member => List.mem_append_left _ member) initial first
  obtain ⟨there,stays,gone⟩ := runs_move (fun response member => List.mem_append_right _ member) here later
  -- a stored record is one of the terminal responses with its output taken out
  have stored : ∀ {m : Background}, Valid identity target parent (withIds uuids input) allowed m →
      ∀ response position, m.held identity target = some (.value (.record (.stored response position))) →
      ∃ given, allowed given ∧ m.held identity target = some (Ended given position) ∧
        response = given.set "output" (.arr []) ∧
        Occupies identity target parent (withIds uuids input) given position m.store := by
    intro m valid response position held
    unfold Background.held at held
    cases valid.safe.phase with
    | waiting _ found => rw [found] at held; cases held
    | ended given place genuine found occupied =>
        rw [found] at held
        cases held
        exact ⟨given,genuine,found,rfl,occupied⟩
    | deleted found => rw [found] at held; cases held
  refine ⟨?_,gone,?_,?_,?_⟩
  · intro response position held
    obtain ⟨given,_,ended,rfl,_⟩ := stored here response position held
    exact stays given position ended
  · intro response position held
    obtain ⟨given,genuine,_,rfl,_⟩ := stored there response position held
    exact ⟨given,genuine,rfl⟩
  · intro log other depth place one two found also mine yours
    exact entry_unique there.safe found also mine yours
  · intro log depth entry found mine
    rcases runs_entry (fun response member => member) initial whole found mine with
      early | ⟨done,rest,middle,split,reached,present,held⟩
    · exact absurd mine
        (launched_absent (runs_valid reached) fresh now uuids placeholder parent input log depth entry early)
    · have begun : ∀ response, .terminal response ∈ done → allowed response := by
        intro response member
        simp only [allowed,split]
        exact List.mem_append_left _ member
      obtain ⟨valid,_⟩ := runs_move begun initial reached
      cases valid.safe.phase with
      | waiting _ _ _ absent => exact absurd mine (absent log depth entry present)
      | ended given position genuine record occupied =>
          obtain ⟨rfl,rfl⟩ := occupied.only log depth entry present mine
          obtain ⟨own,there,_,input,output⟩ := occupied.entry
          cases MemoryStoreActor.ordered_unique (valid.safe.ordered _) there present
          exact ⟨done,rest,middle,given,split,reached,genuine,record,output,input⟩
      | deleted none => exact absurd none held

-- A completion and a cancel race for the end of a continuation of "a", while another
-- turn takes its parent's next position; then the record is deleted.
def parentTurn : List Action :=
  [.write "a" (reply "A") none [message "q"] (fun _ => "0"),.advance "a" 0]
def contested : List Step :=
  [.terminal (reply "B"),.terminal (.obj [("status",.str "cancelled")]),.advance 0 1,.advance 1 1,
   .other (.write "c" (reply "C") (some "a") [] (fun _ => "0")),.other (.advance "c" 2),
   .advance 0 3,.advance 1 3,.advance 0 4,.advance 1 4,.advance 0 5,.advance 1 5]
def queued : Json := .obj [("status",.str "queued")]

theorem background_ends_once_contested :
    ∃ base s t, execute (next "u") (start 0 1) parentTurn = some base ∧
      execute (step "u" "bg") (launched "u" "bg" 1 (fun _ => "1") queued (some ⟨"a",1⟩) [message "r"] base)
        contested = some s ∧
      execute (step "u" "bg") s [.delete] = some t ∧
      s.held "u" "bg" = some (.value (.record (.stored ((reply "B").set "output" (.arr [])) ⟨"bg",2⟩))) ∧
      t.held "u" "bg" = none ∧
      ∃ entry, logsOf "u" t.store "bg" = [(2,.entry entry)] ∧ entry.output = [message "B"] ∧
        ∀ log depth other, (depth,.entry other) ∈ logsOf "u" t.store log → other.responseId = "bg" →
          log = "bg" ∧ depth = 2 ∧ other = entry := by
  obtain ⟨base,s,t,entry,reached,ids,first,later,ended,gone,entries,output,named⟩ : ∃ base s t entry,
      execute (next "u") (start 0 1) parentTurn = some base ∧ base.turns.map Written.id = ["a"] ∧
      execute (step "u" "bg") (launched "u" "bg" 1 (fun _ => "1") queued (some ⟨"a",1⟩) [message "r"] base)
        contested = some s ∧
      execute (step "u" "bg") s [.delete] = some t ∧
      s.held "u" "bg" = some (.value (.record (.stored ((reply "B").set "output" (.arr [])) ⟨"bg",2⟩))) ∧
      t.held "u" "bg" = none ∧ logsOf "u" t.store "bg" = [(2,.entry entry)] ∧ entry.output = [message "B"] ∧
      entry.responseId = "bg" := ⟨_,_,_,_,rfl,rfl,rfl,rfl,rfl,rfl,rfl,rfl,rfl⟩
  have fresh : ∀ written ∈ base.turns, written.id ≠ "bg" := by
    intro written member
    have among : written.id ∈ ["a"] := ids ▸ List.mem_map_of_mem member
    rw [List.mem_singleton.mp among]
    decide
  obtain ⟨_,_,_,unique,_⟩ := background_ends_once "u" "bg" 0 1 1 reached fresh (fun _ => "1") queued
    (some ⟨"a",1⟩) [message "r"] first later
  refine ⟨base,s,t,reached,first,later,ended,gone,entry,entries,output,?_⟩
  intro log depth other present mine
  exact unique log "bg" depth 2 other entry present (by rw [entries]; exact List.mem_cons_self) mine named

end Modelship.BackgroundRecord

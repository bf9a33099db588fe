import Mathlib.Data.List.Chain
import Modelship.OpenAI.ConversationLog
import Modelship.State.Fading

namespace Modelship.ConversationLog
open Foundation State ResponsesState
open MemoryStoreActor (taken Ordered inRange Fades)

-- The conversations under any ttl. `placed` remembers the position each record
-- was stored with, also after the record is gone.
structure Book where
  store : Store
  turns : List Written
  points : String → StorePoint
  placed : String → Option Position

namespace Book

def begin (s : Book) (written : Written) : Book :=
  {s with turns := s.turns ++ [written],points := Function.update s.points written.id .append}

def advance (ttl : Option Int) (identity responseId : String) (now : Int) (s : Book) : Option Book :=
  match s.turns.find? (fun written => written.id == responseId) with
  | none => none
  | some written =>
    if s.points responseId = .finished then none else
    let (store,point) := storeTurn ttl identity now written.turn s.store (s.points responseId)
    some {s with
      store
      points := Function.update s.points responseId point
      placed := Function.update s.placed responseId
        ((storedAt identity store responseId).or (s.placed responseId))}

-- A call that only reads the store.
def reads (s : Book) (store : Store) : Book := {s with store}

def start (now sweepInterval : Int) : Book :=
  ⟨MemoryStoreActor.start now sweepInterval,[],fun _ => .finished,fun _ => none⟩

end Book

-- What an accepted write leaves: the entry after the log as it was found, which
-- may be nothing, and the record.
structure Added (identity : String) (turn : Turn) (position : Position) (entry : Entry) (s t : Store) : Prop where
  found : ∃ content, (content = [] ∨ content = logsOf identity s position.log) ∧
    taken content position.depth = false ∧
    (logsOf identity t position.log = [] ∨
      logsOf identity t position.log = content ++ [(position.depth,.entry entry)])
  logs : ∀ log, position.log ≠ log → logsOf identity t log = [] ∨ logsOf identity t log = logsOf identity s log
  records : ∀ responseId record, recordAt identity t responseId = some record →
    if turn.responseId = responseId then record = turn.record position
    else recordAt identity s responseId = some record

theorem recordAt_cells {identity responseId : String} {s : Store} {record : Record} :
    recordAt identity s responseId = some record ↔
      s.cells (key identity responseId) = some (.value (.record record)) := by
  unfold recordAt
  constructor
  · intro found
    split at found
    · rename_i cell
      cases found
      exact cell
    · cases found
  · intro cell
    rw [cell]

theorem fades_record {identity responseId : String} {s t : Store} {record : Record} (fades : Fades s t)
    (found : recordAt identity t responseId = some record) : recordAt identity s responseId = some record :=
  recordAt_cells.mpr (fades _ _ (recordAt_cells.mp found))

theorem write_fades (ttl : Option Int) (identity : String) (now : Int) {turn : Turn} (plain : turn.ifExists = false)
    (s : Store) (position : Position) (entry : Entry) :
    (∃ t, turn.write ttl identity now s position entry = (t,false) ∧ Fades s t) ∨
    ∃ t, turn.write ttl identity now s position entry = (t,true) ∧ Added identity turn position entry s t := by
  unfold Turn.write
  rw [plain]
  rcases s.appendAndSet_fades (logKey identity position.log) position.depth (.entry entry)
    (key identity turn.responseId) (.record (turn.record position)) ttl now with refused | ⟨t,content,accepted,was,free,cells⟩
  · exact .inl refused
  · refine .inr ⟨t,accepted,⟨content,was,free,?_⟩,?_,?_⟩
    · unfold logsOf MemoryStoreActor.logAt
      cases left : t.cells (logKey identity position.log) with
      | none => exact .inl rfl
      | some cell =>
          have same := cells _ cell left
          simp only [key_ne_logKey,if_false,if_true] at same
          rw [same]
          exact .inr rfl
    · intro log apart
      unfold logsOf MemoryStoreActor.logAt
      cases left : t.cells (logKey identity log) with
      | none => exact .inl rfl
      | some cell =>
          have same := cells _ cell left
          simp only [key_ne_logKey,logKey_inj,apart,if_false] at same
          rw [same]
          exact .inr rfl
    · intro responseId record found
      have same := cells _ _ (recordAt_cells.mp found)
      simp only [key_inj,logKey_ne_key,if_false] at same
      split at same
      · rename_i equal
        rw [if_pos equal]
        injection same with value
        injection value
      · rename_i apart
        rw [if_neg apart]
        exact recordAt_cells.mpr same

-- The three ways a turn's entry is written.
def Placed (turn : Turn) (position : Position) (entry : Entry) : Prop :=
  turn.parent = none ∧ position = ⟨turn.responseId,1⟩ ∧ entry = turn.entry ∨
  ∃ parent, turn.parent = some parent ∧
    (position = ⟨parent.log,parent.depth + 1⟩ ∧ entry = turn.entry ∨
      position = ⟨turn.responseId,parent.depth + 1⟩ ∧ entry = {turn.entry with base := some parent})

theorem storeTurn_fades (ttl : Option Int) (identity : String) (now : Int) {turn : Turn} (plain : turn.ifExists = false)
    (s : Store) (point : StorePoint) :
    Fades s (storeTurn ttl identity now turn s point).1 ∨
    ∃ position entry, Placed turn position entry ∧ (storeTurn ttl identity now turn s point).2 = .finished ∧
      Added identity turn position entry s (storeTurn ttl identity now turn s point).1 := by
  cases point with
  | finished => exact .inl (Fades.refl s)
  | append =>
      cases parent : turn.parent with
      | none =>
          simp only [storeTurn,parent]
          rcases write_fades ttl identity now plain s ⟨turn.responseId,1⟩ turn.entry with
            ⟨t,refused,fades⟩ | ⟨t,accepted,added⟩
          · rw [refused]
            exact .inl fades
          · rw [accepted]
            exact .inr ⟨_,_,.inl ⟨parent,rfl,rfl⟩,trivial,added⟩
      | some origin =>
          simp only [storeTurn,parent]
          rcases write_fades ttl identity now plain s ⟨origin.log,origin.depth + 1⟩ turn.entry with
            ⟨t,refused,fades⟩ | ⟨t,accepted,added⟩
          · rw [refused]
            exact .inl fades
          · rw [accepted]
            exact .inr ⟨_,_,.inr ⟨origin,parent,.inl ⟨rfl,rfl⟩⟩,rfl,added⟩
  | readTaken =>
      refine .inl ?_
      cases parent : turn.parent with
      | none =>
          simp only [storeTurn,parent]
          exact Fades.refl s
      | some origin =>
          have fades := (s.readRange_fades (logKey identity origin.log) (origin.depth + 1) (some (origin.depth + 1)) now).1
          simp only [storeTurn,parent]
          split <;> exact fades
  | fork =>
      cases parent : turn.parent with
      | none =>
          simp only [storeTurn,parent]
          exact .inl (Fades.refl s)
      | some origin =>
          simp only [storeTurn,parent]
          rcases write_fades ttl identity now plain s ⟨turn.responseId,origin.depth + 1⟩
            {turn.entry with base := some origin} with ⟨t,refused,fades⟩ | ⟨t,accepted,added⟩
          · rw [refused]
            exact .inl fades
          · rw [accepted]
            exact .inr ⟨_,_,.inr ⟨origin,parent,.inr ⟨rfl,rfl⟩⟩,trivial,added⟩

-- The entries of turns that follow each other in one log.
def laid : Nat → List Written → List (Nat × Value)
  | _,[] => []
  | depth,written :: rest => (depth + 1,.entry written.turn.entry) :: laid (depth + 1) rest

def depthOf (base : Option Position) : Nat := (base.map Position.depth).getD 0

def Linked (one two : Written) : Prop := two.previous = some one.id

-- A log as its turns wrote it, from the one that began it.
structure Grown (turns : List Written) (log : String) (content : List (Nat × Value)) (base : Option Position)
    (first : Written) (rest : List Written) : Prop where
  content : content = (depthOf base + 1,.entry {first.turn.entry with base}) :: laid (depthOf base + 1) rest
  named : first.id = log
  members : ∀ written ∈ first :: rest, written ∈ turns
  linked : (first :: rest).IsChain Linked
  parent : first.turn.parent = base

-- A log that was gone when a turn was appended to it: it begins with an entry
-- that is not the first of a conversation and names no base.
def Beheaded (content : List (Nat × Value)) : Prop :=
  Ordered content ∧ ∃ position entry rest, content = (position,.entry entry) :: rest ∧ 2 ≤ position ∧ entry.base = none

def Holds (content : List (Nat × Value)) (position : Nat) (responseId : String) : Prop :=
  ∃ entry, (position,.entry entry) ∈ content ∧ entry.responseId = responseId

theorem mem_laid {depth position : Nat} {value : Value} {turns : List Written} :
    (position,value) ∈ laid depth turns ↔
      ∃ number written, turns[number]? = some written ∧ position = depth + number + 1 ∧
        value = .entry written.turn.entry := by
  induction turns generalizing depth with
  | nil => simp [laid]
  | cons head rest ih =>
      simp only [laid,List.mem_cons,Prod.mk.injEq,ih]
      constructor
      · rintro (⟨rfl,rfl⟩ | ⟨number,written,found,rfl,rfl⟩)
        · exact ⟨0,head,rfl,rfl,rfl⟩
        · exact ⟨number + 1,written,found,by omega,rfl⟩
      · rintro ⟨number,written,found,rfl,rfl⟩
        cases number with
        | zero =>
            cases found
            exact .inl ⟨rfl,rfl⟩
        | succ number => exact .inr ⟨number,written,found,by omega,rfl⟩

theorem laid_ordered (depth : Nat) (turns : List Written) : Ordered (laid depth turns) := by
  induction turns generalizing depth with
  | nil => exact MemoryStoreActor.ordered_nil
  | cons head rest ih =>
      refine List.pairwise_cons.mpr ⟨?_,ih (depth + 1)⟩
      rintro ⟨position,value⟩ there
      obtain ⟨number,_,_,rfl,_⟩ := mem_laid.mp there
      simp only
      omega

theorem laid_append (depth : Nat) (turns : List Written) (written : Written) :
    laid depth (turns ++ [written]) = laid depth turns ++ [(depth + turns.length + 1,.entry written.turn.entry)] := by
  induction turns generalizing depth with
  | nil => rfl
  | cons head rest ih =>
      simp only [List.cons_append,laid,ih,List.length_cons]
      have same : depth + 1 + rest.length + 1 = depth + (rest.length + 1) + 1 := by omega
      rw [same]

theorem laid_upTo (depth stop : Nat) (turns : List Written) :
    upTo (laid depth turns) stop = (turns.take (stop - depth)).map fun written => .entry written.turn.entry := by
  induction turns generalizing depth with
  | nil => simp [laid,upTo]
  | cons head rest ih =>
      by_cases within : depth + 1 ≤ stop
      · have more : stop - depth = stop - (depth + 1) + 1 := by omega
        have kept : inRange 1 (some stop) (depth + 1) = true := by
          simp only [inRange,Option.all_some,Bool.and_eq_true,decide_eq_true_eq]
          omega
        rw [more,List.take_succ_cons,List.map_cons,← ih]
        simp [laid,upTo,kept]
      · have none : stop - depth = 0 := by omega
        rw [none,List.take_zero,List.map_nil]
        simp only [upTo,List.map_eq_nil_iff,List.filter_eq_nil_iff]
        rintro ⟨position,value⟩ there
        obtain ⟨number,_,_,rfl,_⟩ := mem_laid.mp there
        simp only [inRange,Option.all_some,Bool.and_eq_true,decide_eq_true_eq]
        omega

theorem laid_entries (turns : List Written) :
    (turns.map fun written => Value.entry written.turn.entry).mapM asEntry =
      some (turns.map fun written => written.turn.entry) := by
  induction turns with
  | nil => rfl
  | cons head rest ih =>
      rw [List.map_cons,List.mapM_cons,ih]
      rfl

section
variable {turns : List Written} {log : String} {content : List (Nat × Value)} {base : Option Position} {first : Written}
  {rest : List Written}

theorem Grown.ordered (grown : Grown turns log content base first rest) : Ordered content := by
  rw [grown.content]
  refine List.pairwise_cons.mpr ⟨?_,laid_ordered _ _⟩
  rintro ⟨position,value⟩ there
  obtain ⟨number,_,_,rfl,_⟩ := mem_laid.mp there
  simp only
  omega

theorem Grown.whole (grown : Grown turns log content base first rest) : ¬Beheaded content := by
  rintro ⟨_,position,entry,others,same,late,bare⟩
  have begins := grown.content
  rw [same] at begins
  obtain ⟨head,_⟩ := List.cons.inj begins
  obtain ⟨at_,is_⟩ := Prod.mk.inj head
  injection is_ with is_
  subst entry
  cases base with
  | none =>
      simp only [depthOf,Option.map_none,Option.getD_none] at at_
      omega
  | some origin => cases bare

-- Each place of the log with the turn that wrote it.
theorem Grown.writer (grown : Grown turns log content base first rest) {position : Nat} {responseId : String} :
    Holds content position responseId ↔ ∃ number written, (first :: rest)[number]? = some written ∧
      position = depthOf base + number + 1 ∧ written.id = responseId := by
  unfold Holds
  rw [grown.content]
  constructor
  · rintro ⟨entry,there,rfl⟩
    rcases List.mem_cons.mp there with head | later
    · obtain ⟨rfl,is_⟩ := Prod.mk.inj head
      injection is_ with is_
      subst entry
      exact ⟨0,first,rfl,rfl,rfl⟩
    · obtain ⟨number,written,found,rfl,is_⟩ := mem_laid.mp later
      injection is_ with is_
      subst entry
      exact ⟨number + 1,written,found,by omega,rfl⟩
  · rintro ⟨number,written,found,rfl,rfl⟩
    cases number with
    | zero =>
        cases found
        exact ⟨_,List.mem_cons_self,rfl⟩
    | succ number =>
        refine ⟨written.turn.entry,List.mem_cons_of_mem _ (mem_laid.mpr ⟨number,written,found,by omega,rfl⟩),rfl⟩

theorem Grown.mono (grown : Grown turns log content base first rest) {more : List Written}
    (subset : ∀ written ∈ turns, written ∈ more) : Grown more log content base first rest :=
  ⟨grown.content,grown.named,fun written there => subset _ (grown.members written there),grown.linked,grown.parent⟩

-- A continuation of the last turn of the log is its next entry.
theorem Grown.append (grown : Grown turns log content base first rest) {written : Written} (present : written ∈ turns)
    {depth : Nat} {previous : String} (link : written.previous = some previous) (held : Holds content depth previous)
    (free : taken content (depth + 1) = false) :
    Grown turns log (content ++ [(depth + 1,.entry written.turn.entry)]) base first (rest ++ [written]) := by
  obtain ⟨number,before,found,rfl,named⟩ := grown.writer.mp held
  have bound : number < (first :: rest).length := (List.getElem?_eq_some_iff.mp found).1
  have below := MemoryStoreActor.taken_false grown.ordered free
  have last : number = rest.length := by
    obtain ⟨writer,there⟩ : ∃ writer, (first :: rest)[rest.length]? = some writer := by
      rw [List.getElem?_eq_getElem (by simp)]
      exact ⟨_,rfl⟩
    obtain ⟨entry,member,_⟩ := grown.writer.mpr ⟨rest.length,writer,there,rfl,rfl⟩
    have less := below _ member
    simp only [List.length_cons] at bound less
    omega
  constructor
  · rw [grown.content,laid_append,List.cons_append,last]
    have same : depthOf base + 1 + rest.length + 1 = depthOf base + rest.length + 1 + 1 := by omega
    rw [same]
  · exact grown.named
  · intro other there
    rcases List.mem_append.mp (show other ∈ (first :: rest) ++ [written] from there) with earlier | new
    · exact grown.members other earlier
    · rw [List.mem_singleton.mp new]
      exact present
  · rw [← List.cons_append]
    refine List.isChain_append.mpr ⟨grown.linked,List.isChain_singleton _,?_⟩
    intro one final two head
    rw [List.getLast?_eq_getElem?] at final
    simp only [List.length_cons,Nat.add_sub_cancel] at final
    rw [last] at found
    cases found.symm.trans final
    cases head
    rw [Linked,link,named]
  · exact grown.parent

end

def Finished (s : Book) (responseId : String) : Prop :=
  ∃ written ∈ s.turns, written.id = responseId ∧ s.points responseId = .finished

-- A place a record once named: the log is gone or lost its beginning, or the
-- response's entry is still there.
structure Stands (identity : String) (s : Book) (responseId : String) (position : Position) : Prop where
  depth : 1 ≤ position.depth
  log : Finished s position.log
  response : Finished s responseId
  held : logsOf identity s.store position.log = [] ∨ Beheaded (logsOf identity s.store position.log) ∨
    Holds (logsOf identity s.store position.log) position.depth responseId

structure Kept (identity : String) (s : Book) : Prop where
  distinct : (s.turns.map Written.id).Nodup
  plain : ∀ written ∈ s.turns, written.turn.ifExists = false
  parents : ∀ written ∈ s.turns, written.turn.parent = none ∧ written.previous = none ∨
    ∃ previous position, written.turn.parent = some position ∧ written.previous = some previous ∧
      s.placed previous = some position
  placed : ∀ responseId position, s.placed responseId = some position → Stands identity s responseId position
  logs : ∀ log, logsOf identity s.store log = [] ∨ Finished s log ∧
    (Beheaded (logsOf identity s.store log) ∨
      ∃ base first rest, Grown s.turns log (logsOf identity s.store log) base first rest)
  records : ∀ responseId record, recordAt identity s.store responseId = some record →
    ∃ written ∈ s.turns, ∃ position, written.id = responseId ∧ record = written.turn.record position ∧
      s.placed responseId = some position

section
variable {identity : String} {s : Book}

theorem start_kept (identity : String) (now sweepInterval : Int) : Kept identity (Book.start now sweepInterval) := by
  have empty : ∀ key, (Book.start now sweepInterval).store.cells key = none := by
    intro key
    exact MemoryStoreActor.start_cells now sweepInterval key
  constructor
  · exact List.nodup_nil
  · intro written there
    cases there
  · intro written there
    cases there
  · intro responseId position found
    cases found
  · intro log
    left
    simp [logsOf,MemoryStoreActor.logAt,empty]
  · intro responseId record found
    rw [recordAt_cells,empty] at found
    cases found

-- A turn that is not finished has no log of its own yet.
theorem Kept.unstarted (kept : Kept identity s) {written : Written} (unfinished : s.points written.id ≠ .finished) :
    logsOf identity s.store written.id = [] := by
  rcases kept.logs written.id with empty | ⟨⟨_,_,_,finished⟩,_⟩
  · exact empty
  · exact absurd finished unfinished

-- A store that lost some of its keys.
theorem Kept.fades (kept : Kept identity s) {store : Store} (fades : Fades s.store store) : Kept identity (s.reads store) := by
  have logs : ∀ log, logsOf identity store log = [] ∨ logsOf identity store log = logsOf identity s.store log :=
    fun log => fades.logAt (logKey identity log)
  refine ⟨kept.distinct,kept.plain,kept.parents,?_,?_,?_⟩
  · intro responseId position found
    have stands := kept.placed responseId position found
    refine ⟨stands.depth,stands.log,stands.response,?_⟩
    rcases logs position.log with gone | same
    · exact .inl gone
    · have held := stands.held
      rw [← same] at held
      exact held
  · intro log
    rcases logs log with gone | same
    · exact .inl gone
    · have before := kept.logs log
      rw [← same] at before
      exact before
  · intro responseId record found
    exact kept.records responseId record (fades_record fades found)

theorem Kept.begin (kept : Kept identity s) {written : Written} (fresh : ∀ other ∈ s.turns, other.id ≠ written.id)
    (plain : written.turn.ifExists = false)
    (parent : written.turn.parent = none ∧ written.previous = none ∨
      ∃ previous position, written.turn.parent = some position ∧ written.previous = some previous ∧
        s.placed previous = some position) : Kept identity (s.begin written) := by
  have finished : ∀ responseId, Finished s responseId → Finished (s.begin written) responseId := by
    rintro responseId ⟨other,there,rfl,done⟩
    refine ⟨other,List.mem_append_left _ there,rfl,?_⟩
    simp only [Book.begin]
    rw [Function.update_of_ne (fresh other there)]
    exact done
  constructor
  · simp only [Book.begin,List.map_append,List.map_cons,List.map_nil]
    refine List.nodup_append.mpr ⟨kept.distinct,List.nodup_singleton _,?_⟩
    intro one first two second same
    obtain ⟨other,there,rfl⟩ := List.mem_map.mp first
    exact fresh other there (same.trans (List.mem_singleton.mp second))
  · intro other there
    rcases List.mem_append.mp there with before | new
    · exact kept.plain other before
    · rw [List.mem_singleton.mp new]
      exact plain
  · intro other there
    rcases List.mem_append.mp there with before | new
    · exact kept.parents other before
    · rw [List.mem_singleton.mp new]
      exact parent
  · intro responseId position found
    have stands := kept.placed responseId position found
    exact ⟨stands.depth,finished _ stands.log,finished _ stands.response,stands.held⟩
  · intro log
    rcases kept.logs log with empty | ⟨done,headless | ⟨base,first,rest,grown⟩⟩
    · exact .inl empty
    · exact .inr ⟨finished _ done,.inl headless⟩
    · exact .inr ⟨finished _ done,.inr ⟨base,first,rest,grown.mono fun _ there => List.mem_append_left _ there⟩⟩
  · intro responseId record found
    obtain ⟨other,there,position,rest⟩ := kept.records responseId record found
    exact ⟨other,List.mem_append_left _ there,position,rest⟩

-- The state after a store call of a turn that is being written.
def Book.moved (s : Book) (written : Written) (store : Store) (point : StorePoint) (placed : Option Position) : Book :=
  {s with store,points := Function.update s.points written.id point,placed := Function.update s.placed written.id placed}

-- An advance takes a turn that is not finished through its next store call.
theorem Book.advance_moves {ttl : Option Int} {responseId : String} {now : Int} {t : Book}
    (stepped : s.advance ttl identity responseId now = some t) :
    ∃ written ∈ s.turns, written.id = responseId ∧ s.points written.id ≠ .finished ∧
      ∃ store point, storeTurn ttl identity now written.turn s.store (s.points written.id) = (store,point) ∧
        t = s.moved written store point ((storedAt identity store written.id).or (s.placed written.id)) := by
  unfold Book.advance at stepped
  split at stepped
  · cases stepped
  · rename_i written found
    have named : written.id = responseId := by simpa using List.find?_some found
    subst responseId
    obtain ⟨unfinished,same⟩ := Option.ite_none_left_eq_some.mp stepped
    cases same
    exact ⟨written,List.mem_of_find?_eq_some found,rfl,unfinished,_,_,rfl,rfl⟩

theorem Finished.moved {responseId : String} (finished : Finished s responseId) {written : Written}
    (unfinished : s.points written.id ≠ .finished) (store : Store) (point : StorePoint) (placed : Option Position) :
    Finished (s.moved written store point placed) responseId ∧ responseId ≠ written.id := by
  obtain ⟨other,there,rfl,done⟩ := finished
  have apart : other.id ≠ written.id := by
    intro same
    rw [same] at done
    exact unfinished done
  refine ⟨⟨other,there,rfl,?_⟩,apart⟩
  simp only [Book.moved,Function.update_of_ne apart]
  exact done

theorem Kept.unplaced (kept : Kept identity s) {written : Written} (unfinished : s.points written.id ≠ .finished) :
    s.placed written.id = none := by
  cases found : s.placed written.id with
  | none => rfl
  | some position =>
      obtain ⟨_,_,same,done⟩ := (kept.placed _ _ found).response
      exact absurd done unfinished

theorem Kept.parents_moved (kept : Kept identity s) {written : Written} (unfinished : s.points written.id ≠ .finished)
    (store : Store) (point : StorePoint) (placed : Option Position) :
    ∀ other ∈ s.turns, other.turn.parent = none ∧ other.previous = none ∨
      ∃ previous position, other.turn.parent = some position ∧ other.previous = some previous ∧
        (s.moved written store point placed).placed previous = some position := by
  intro other there
  rcases kept.parents other there with root | ⟨previous,position,parent,link,found⟩
  · exact .inl root
  · refine .inr ⟨previous,position,parent,link,?_⟩
    have apart : previous ≠ written.id := by
      rintro rfl
      rw [kept.unplaced unfinished] at found
      cases found
    simp only [Book.moved,Function.update_of_ne apart]
    exact found

-- A store call that writes nothing.
theorem Kept.waits (kept : Kept identity s) {written : Written} (unfinished : s.points written.id ≠ .finished)
    {store : Store} (fades : Fades s.store store) (point : StorePoint) :
    Kept identity (s.moved written store point ((storedAt identity store written.id).or (s.placed written.id))) := by
  have faded := kept.fades fades
  have nothing : storedAt identity store written.id = none := by
    cases found : storedAt identity store written.id with
    | none => rfl
    | some position =>
        obtain ⟨record,stored⟩ : ∃ record, recordAt identity store written.id = some record := by
          unfold storedAt at found
          split at found
          · exact ⟨_,by assumption⟩
          · cases found
        obtain ⟨_,_,place,_,_,placed⟩ := faded.records written.id record stored
        rw [show (s.reads store).placed written.id = s.placed written.id from rfl,kept.unplaced unfinished] at placed
        cases placed
  rw [nothing,Option.none_or]
  have moves : ∀ responseId, Finished s responseId →
      Finished (s.moved written store point (s.placed written.id)) responseId :=
    fun responseId finished => (finished.moved unfinished store point _).1
  have same : ∀ responseId, (s.moved written store point (s.placed written.id)).placed responseId = s.placed responseId := by
    intro responseId
    simp [Book.moved]
  refine ⟨kept.distinct,kept.plain,kept.parents_moved unfinished store point _,?_,?_,?_⟩
  · intro responseId position found
    rw [same] at found
    have stands := faded.placed responseId position found
    exact ⟨stands.depth,moves _ stands.log,moves _ stands.response,stands.held⟩
  · intro log
    rcases faded.logs log with empty | ⟨done,rest⟩
    · exact .inl empty
    · exact .inr ⟨moves _ done,rest⟩
  · intro responseId record found
    obtain ⟨other,there,position,named,told,placed⟩ := faded.records responseId record found
    refine ⟨other,there,position,named,told,?_⟩
    rw [same]
    exact placed

theorem Beheaded.append {content : List (Nat × Value)} {depth : Nat} (headless : Beheaded content)
    (free : taken content depth = false) (value : Value) : Beheaded (content ++ [(depth,value)]) := by
  obtain ⟨ordered,position,entry,rest,rfl,late,bare⟩ := headless
  exact ⟨MemoryStoreActor.ordered_append ordered free value,position,entry,rest ++ [(depth,value)],rfl,late,bare⟩

theorem Holds.append {content : List (Nat × Value)} {depth : Nat} {responseId : String}
    (held : Holds content depth responseId) (more : List (Nat × Value)) : Holds (content ++ more) depth responseId := by
  obtain ⟨entry,there,named⟩ := held
  exact ⟨entry,List.mem_append_left _ there,named⟩

-- A turn appended to its parent's log, which may have gone since the parent was read.
theorem appended {before after content : List (Nat × Value)} {depth : Nat} {entry : Entry}
    (was : content = [] ∨ content = before) (left : after = [] ∨ after = content ++ [(depth,.entry entry)])
    (late : 2 ≤ depth) (bare : entry.base = none) :
    after = [] ∨ Beheaded after ∨ before ≠ [] ∧ content = before ∧ after = before ++ [(depth,.entry entry)] := by
  rcases left with gone | rfl
  · exact .inl gone
  · have alone : Beheaded ([] ++ [(depth,.entry entry)]) :=
      ⟨List.pairwise_singleton _ _,depth,entry,[],rfl,late,bare⟩
    rcases was with rfl | rfl
    · exact .inr (.inl alone)
    · cases content with
      | nil => exact .inr (.inl alone)
      | cons head rest => exact .inr (.inr ⟨List.cons_ne_nil _ _,rfl,rfl⟩)

-- The log a turn was written to, and every place in it that a record named.
theorem Kept.written_log (kept : Kept identity s) {written : Written} (present : written ∈ s.turns)
    (unfinished : s.points written.id ≠ .finished) {position : Position} {entry : Entry}
    (how : Placed written.turn position entry) {store : Store} (added : Added identity written.turn position entry s.store store) :
    1 ≤ position.depth ∧ (position.log = written.id ∨ Finished s position.log) ∧ entry.responseId = written.id ∧
      (logsOf identity store position.log = [] ∨ Beheaded (logsOf identity store position.log) ∨
        ∃ base first rest, Grown s.turns position.log (logsOf identity store position.log) base first rest) ∧
      ∀ responseId place, Stands identity s responseId place → place.log = position.log →
        logsOf identity store position.log = [] ∨ Beheaded (logsOf identity store position.log) ∨
          Holds (logsOf identity store position.log) place.depth responseId := by
  obtain ⟨content,was,free,left⟩ := added.found
  have own : position.log = written.id → content = [] ∧
      ∀ responseId place, Stands identity s responseId place → place.log ≠ position.log := by
    intro mine
    rw [mine,kept.unstarted unfinished] at was
    refine ⟨was.elim id id,?_⟩
    intro responseId place stands same
    obtain ⟨_,_,_,done⟩ := stands.log
    rw [same,mine] at done
    exact unfinished done
  rcases how with ⟨root,rfl,rfl⟩ | ⟨parent,continued,⟨rfl,rfl⟩ | ⟨rfl,rfl⟩⟩
  · obtain ⟨rfl,elsewhere⟩ := own rfl
    refine ⟨Nat.le_refl 1,.inl rfl,rfl,?_,fun id place stands same => absurd same (elsewhere id place stands)⟩
    rcases left with gone | first
    · exact .inl gone
    · refine .inr (.inr ⟨none,written,[],first,rfl,?_,List.isChain_singleton _,root⟩)
      intro other there
      rw [List.mem_singleton.mp there]
      exact present
  · rcases kept.parents written present with ⟨none_,_⟩ | ⟨previous,origin,named,link,found⟩
    · rw [continued] at none_
      cases none_
    · cases continued.symm.trans named
      have stands := kept.placed previous parent found
      have late : 2 ≤ parent.depth + 1 := Nat.succ_le_succ stands.depth
      refine ⟨Nat.le_of_succ_le late,.inr stands.log,rfl,?_,?_⟩
      · rcases appended was left late rfl with gone | headless | ⟨started,rfl,grows⟩
        · exact .inl gone
        · exact .inr (.inl headless)
        · rw [grows]
          rcases kept.logs parent.log with empty | ⟨_,headless | ⟨base,first,rest,grown⟩⟩
          · exact absurd empty started
          · exact .inr (.inl (headless.append free _))
          · rcases stands.held with empty | headless | held
            · exact absurd empty started
            · exact absurd headless grown.whole
            · exact .inr (.inr ⟨base,first,_,grown.append present link held free⟩)
      · intro responseId place other same
        rcases appended was left late rfl with gone | headless | ⟨started,rfl,grows⟩
        · exact .inl gone
        · exact .inr (.inl headless)
        · rw [grows]
          have held := other.held
          rw [same] at held
          rcases held with empty | headless | held
          · exact absurd empty started
          · exact .inr (.inl (headless.append free _))
          · exact .inr (.inr (held.append _))
  · obtain ⟨rfl,elsewhere⟩ := own rfl
    refine ⟨Nat.le_add_left 1 _,.inl rfl,rfl,?_,fun id place stands same => absurd same (elsewhere id place stands)⟩
    rcases left with gone | first
    · exact .inl gone
    · refine .inr (.inr ⟨some parent,written,[],first,rfl,?_,List.isChain_singleton _,continued⟩)
      intro other there
      rw [List.mem_singleton.mp there]
      exact present

-- A store call that writes the turn's entry and its record.
theorem Kept.writes (kept : Kept identity s) {written : Written} (present : written ∈ s.turns)
    (unfinished : s.points written.id ≠ .finished) {position : Position} {entry : Entry}
    (how : Placed written.turn position entry) {store : Store} (added : Added identity written.turn position entry s.store store) :
    Kept identity (s.moved written store .finished ((storedAt identity store written.id).or (s.placed written.id))) := by
  obtain ⟨depth,owner,named,shape,others⟩ := kept.written_log present unfinished how added
  rw [kept.unplaced unfinished,Option.or_none]
  have mine : Finished (s.moved written store .finished (storedAt identity store written.id)) written.id :=
    ⟨written,present,rfl,by simp [Book.moved]⟩
  have moves : ∀ responseId, Finished s responseId →
      Finished (s.moved written store .finished (storedAt identity store written.id)) responseId :=
    fun responseId finished => (finished.moved unfinished store _ _).1
  have home : Finished (s.moved written store .finished (storedAt identity store written.id)) position.log := by
    rcases owner with same | done
    · rw [same]
      exact mine
    · exact moves _ done
  have ours : ∀ place, storedAt identity store written.id = some place → place = position := by
    intro place found
    unfold storedAt at found
    split at found
    · rename_i record
      cases found
      have told := added.records _ _ record
      rw [if_pos (show written.turn.responseId = written.id from rfl)] at told
      exact (Record.stored.inj told).2
    · cases found
  refine ⟨kept.distinct,kept.plain,kept.parents_moved unfinished store _ _,?_,?_,?_⟩
  · intro responseId place found
    by_cases same : responseId = written.id
    · subst responseId
      have recorded : storedAt identity store written.id = some place := by
        simpa [Book.moved] using found
      cases ours place recorded
      refine ⟨depth,home,mine,?_⟩
      obtain ⟨content,_,_,left⟩ := added.found
      rcases left with gone | grows
      · exact .inl gone
      · refine .inr (.inr ⟨entry,?_,named⟩)
        rw [show (s.moved written store .finished (storedAt identity store written.id)).store = store from rfl,grows]
        simp
    · simp only [Book.moved,Function.update_of_ne same] at found
      have stands := kept.placed responseId place found
      refine ⟨stands.depth,moves _ stands.log,moves _ stands.response,?_⟩
      by_cases here : position.log = place.log
      · have held := others responseId place stands here.symm
        rw [here] at held
        exact held
      · rcases added.logs place.log here with gone | unchanged
        · exact .inl gone
        · have held := stands.held
          rw [← unchanged] at held
          exact held
  · intro log
    by_cases here : position.log = log
    · subst log
      rcases shape with gone | rest
      · exact .inl gone
      · exact .inr ⟨home,rest⟩
    · rcases added.logs log here with gone | unchanged
      · exact .inl gone
      · rcases kept.logs log with empty | ⟨done,rest⟩
        · exact .inl (unchanged.trans empty)
        · rw [← unchanged] at rest
          exact .inr ⟨moves _ done,rest⟩
  · intro responseId record found
    have told := added.records responseId record found
    by_cases same : written.turn.responseId = responseId
    · rw [if_pos same] at told
      subst responseId
      refine ⟨written,present,position,rfl,told,?_⟩
      have stored : storedAt identity store written.id = some position := by
        unfold storedAt
        rw [show recordAt identity store written.id = some record from found,told]
        rfl
      exact (Function.update_self written.id _ s.placed).trans stored
    · rw [if_neg same] at told
      obtain ⟨other,there,place,id,is_,placed⟩ := kept.records responseId record told
      refine ⟨other,there,place,id,is_,?_⟩
      have apart : responseId ≠ written.id := fun equal => same equal.symm
      simp only [Book.moved,Function.update_of_ne apart]
      exact placed

theorem Kept.advance (kept : Kept identity s) {ttl : Option Int} {responseId : String} {now : Int} {t : Book}
    (stepped : s.advance ttl identity responseId now = some t) : Kept identity t := by
  obtain ⟨written,present,_,unfinished,store,point,took,rfl⟩ := Book.advance_moves stepped
  rcases storeTurn_fades ttl identity now (kept.plain written present) s.store (s.points written.id) with
    fades | ⟨position,entry,how,done,added⟩
  · rw [took] at fades
    exact kept.waits unfinished fades _
  · rw [took] at done added
    subst done
    exact kept.writes present unfinished how added

end

end Modelship.ConversationLog

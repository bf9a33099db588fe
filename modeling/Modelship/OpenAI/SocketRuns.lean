import Modelship.OpenAI.SocketChain

namespace Modelship.Socket
open Foundation State ResponsesState ConversationLog

-- Without a ttl the store loses nothing, so what was placed is still read.
structure Lasting (identity : String) (s : Connection) : Prop where
  follows : Follows identity s
  valid : Invariant identity ⟨s.book.store,s.book.turns,s.book.points⟩
  stored : ∀ id position, s.book.placed id = some position → storedAt identity s.book.store id = some position

theorem resolve_store {s : Connection} (timeless : s.book.store.Timeless) (identity : String) (previous : Option String)
    (frame : Input) (store : Bool) (now : Int) :
    (resolve none identity s previous frame store now).1 = s.book.store := by
  unfold resolve
  split
  · rfl
  · rename_i id
    split
    · rfl
    · have read : (resolvePrevious none identity now s.book.store id).1 = s.book.store := by
        unfold resolvePrevious
        rw [readAsync_bare,readRecord_timeless timeless]
        split
        · rfl
        · split
          · rename_i middle response position found
            cases (Prod.mk.inj found).1
            split
            · rfl
            · exact (timeless_leaves identity now).history _ response position timeless
          · rename_i found
            exact (Prod.mk.inj found).1.symm
      split
      · rename_i found
        rw [found] at read
        exact read
      · rename_i found
        rw [found] at read
        exact read

section
variable {identity : String} {s : Connection}

theorem Lasting.begun (valid : Invariant identity ⟨s.book.store,s.book.turns,s.book.points⟩)
    (stored : ∀ id position, s.book.placed id = some position → storedAt identity s.book.store id = some position)
    {written : Written} (fresh : ∀ other ∈ s.book.turns, other.id ≠ written.id) (plain : written.turn.ifExists = false)
    (parent : written.turn.parent = none ∧ written.previous = none ∨
      ∃ previous position, written.turn.parent = some position ∧ written.previous = some previous ∧
        s.book.placed previous = some position) :
    Invariant identity ⟨s.book.store,(s.book.begin written).turns,(s.book.begin written).points⟩ := by
  refine begin_valid valid fresh plain ?_
  rcases parent with root | ⟨previous,position,at_,link,placed⟩
  · exact .inl root
  · exact .inr ⟨previous,position,at_,link,stored previous position placed⟩

theorem Lasting.advance (lasting : Lasting identity s) {responseId : String} {now : Int} {book : Book}
    (stepped : s.book.advance none identity responseId now = some book) :
    Invariant identity ⟨book.store,book.turns,book.points⟩ ∧
      ∀ id position, book.placed id = some position → storedAt identity book.store id = some position := by
  obtain ⟨written,present,_,unfinished,store,point,took,rfl⟩ := Book.advance_moves stepped
  have valid := advance_valid lasting.valid present unfinished now
  rw [took] at valid
  refine ⟨valid,?_⟩
  intro id position placed
  by_cases same : id = written.id
  · subst id
    simp only [Book.moved,Function.update_self,lasting.follows.kept.unplaced unfinished,Option.or_none] at placed
    exact placed
  · simp only [Book.moved,Function.update_of_ne same] at placed
    have before := lasting.stored id position placed
    show storedAt identity store id = some position
    have effect := storeTurn_effect lasting.valid.timeless identity now written.turn (s.book.points written.id)
    rw [took] at effect
    dsimp only at effect
    rcases effect with unchanged | ⟨place,entry,wrote,_⟩
    · rw [unchanged]
      exact before
    · have apart : written.turn.responseId ≠ id := fun equal => same equal.symm
      rw [storedAt_wrote wrote,if_neg apart]
      exact before

theorem Lasting.next (lasting : Lasting identity s) {action : Action} {t : Connection}
    (stepped : next none identity s action = some t) : Lasting identity t := by
  have follows := lasting.follows.next stepped
  cases next_goes stepped with
  | asks previous frame store now free =>
      have same := resolve_store lasting.valid.timeless identity previous frame store now
      refine ⟨follows,?_,?_⟩
      · simp only [Book.reads,same]
        exact lasting.valid
      · simp only [Book.reads,same]
        exact lasting.stored
  | nameless response failed uuids turn asked unnamed => exact ⟨follows,lasting.valid,lasting.stored⟩
  | answers response failed uuids turn id asked named fresh =>
      have prepared := lasting.follows.asked turn asked
      unfold Socket.answered at follows ⊢
      by_cases keep : turn.store = true
      · simp only [keep,if_true] at follows ⊢
        have rooted : Rooted (told turn id response :: s.exchanges) := ⟨fresh,prepared.known,lasting.follows.rooted⟩
        have parent := (prepared.carries rooted uuids).2
        exact ⟨follows,Lasting.begun lasting.valid lasting.stored (lasting.follows.unwritten fresh) rfl parent,lasting.stored⟩
      · simp only [keep] at follows ⊢
        cases failed <;> exact ⟨follows,lasting.valid,lasting.stored⟩
  | abandons failed turn asked => exact ⟨follows,lasting.valid,lasting.stored⟩
  | elsewhere responseId response previous items uuids parent fresh link =>
      exact ⟨follows,Lasting.begun lasting.valid lasting.stored (lasting.follows.unwritten fresh) rfl link,lasting.stored⟩
  | advances responseId now book moved =>
      obtain ⟨valid,stored⟩ := lasting.advance moved
      exact ⟨follows,valid,stored⟩

end

theorem start_lasting (identity : String) (clock sweepInterval : Int) : Lasting identity (start clock sweepInterval) :=
  ⟨start_follows identity clock sweepInterval,start_valid identity clock sweepInterval,nofun⟩

theorem runs_last {identity : String} {clock sweepInterval : Int} {actions : List Action} {s : Connection}
    (ran : execute (next none identity) (start clock sweepInterval) actions = some s) : Lasting identity s :=
  execute_invariant (fun _ _ _ lasting stepped => lasting.next stepped) (start_lasting identity clock sweepInterval) ran

-- A write that is finished can be read.
theorem Lasting.reported {identity : String} {s : Connection} (lasting : Lasting identity s) {written : Written}
    (present : written ∈ s.book.turns) (finished : s.book.points written.id = .finished) (now : Int) :
    ∃ response position history items, recordAt identity s.book.store written.id = some (.stored response position) ∧
      historyAsync none identity now s.book.store response position = (s.book.store,some history) ∧
      inputItemsAsync none identity now s.book.store (.stored response position) = (s.book.store,some items) := by
  obtain ⟨position,record⟩ := lasting.valid.finished written present finished
  have stored : storedAt identity s.book.store written.id = some position := by
    unfold storedAt
    rw [show recordAt identity s.book.store written.id = _ from record]
    rfl
  obtain ⟨path,_,reads,_,_⟩ := lasting.valid.reads written.id position stored
  obtain ⟨listings,history⟩ := history_path lasting.valid.timeless identity now
    (written.turn.response.set "output" (.arr [])) reads
  have read := reads.read lasting.valid.timeless identity now
  have inputs : inputItemsAsync none identity now s.book.store
      (.stored (written.turn.response.set "output" (.arr [])) position) =
      (s.book.store,some (items path.dropLast ++ (path.getLast?.map Entry.input).getD [])) := by
    simp [inputItemsAsync,read]
  exact ⟨_,position,_,_,record,history,inputs⟩

-- An action of a socket whose turns end well.
def EndsWell : Action → Prop
  | .answer _ failed _ => failed = false
  | .abandon failed => failed = false
  | _ => True

-- The turns that only the socket remembers, oldest first.
def unstored (exchanges : List Exchange) : List String :=
  ((exchanges.filter fun turn => !turn.store).map Exchange.id).reverse

-- The cache holds the last of them.
def Remembers (s : Connection) : Prop :=
  s.cache.entries.map Prod.fst = (unstored s.exchanges).drop ((unstored s.exchanges).length - connCacheMax)

theorem unstored_known {exchanges : List Exchange} {id : String} (there : id ∈ unstored exchanges) : Known exchanges id := by
  obtain ⟨turn,member,rfl⟩ := List.mem_map.mp (List.mem_reverse.mp there)
  exact List.mem_map_of_mem (List.mem_filter.mp member).1

theorem drop_last_of {bound : Nat} (ids : List String) (id : String) :
    (ids.drop (ids.length - bound) ++ [id]).drop ((ids.drop (ids.length - bound) ++ [id]).length - bound) =
      (ids ++ [id]).drop ((ids ++ [id]).length - bound) := by
  have whole : ids.drop (ids.length - bound) ++ [id] = (ids ++ [id]).drop (ids.length - bound) := by
    rw [List.drop_append_of_le_length (Nat.sub_le _ _)]
  rw [whole,List.drop_drop]
  congr 1
  simp only [List.length_drop,List.length_append,List.length_cons,List.length_nil]
  omega

theorem remembers_set {s : Connection} (remembers : Remembers s) {turn : Exchange} (fresh : ¬Known s.exchanges turn.id)
    (forgotten : turn.store = false) (cached : Cached) :
    Remembers {s with exchanges := turn :: s.exchanges,cache := trim (s.cache.set turn.id cached)} := by
  have absent : turn.id ∉ s.cache.entries.map Prod.fst := by
    intro there
    rw [remembers] at there
    exact fresh (unstored_known (List.mem_of_mem_drop there))
  have grown : unstored (turn :: s.exchanges) = unstored s.exchanges ++ [turn.id] := by
    simp [unstored,forgotten]
  have keys : (s.cache.set turn.id cached).entries.map Prod.fst = s.cache.entries.map Prod.fst ++ [turn.id] := by
    simp [Dict.set,Dict.put_absent cached absent]
  have length : (s.cache.set turn.id cached).entries.length =
      (s.cache.entries.map Prod.fst ++ [turn.id]).length := by
    rw [← keys,List.length_map]
  unfold Remembers
  simp only [trim,List.map_drop,keys,grown,length]
  rw [show s.cache.entries.map Prod.fst = _ from remembers]
  exact drop_last_of _ _

theorem remembers_next {ttl : Option Int} {identity : String} {s t : Connection} (remembers : Remembers s)
    {action : Action} (well : EndsWell action) (stepped : next ttl identity s action = some t) : Remembers t := by
  cases next_goes stepped with
  | asks previous frame store now free => exact remembers
  | nameless response failed uuids turn asked unnamed =>
      simp only [EndsWell] at well
      subst failed
      exact remembers
  | answers response failed uuids turn id asked named fresh =>
      simp only [EndsWell] at well
      subst failed
      unfold answered
      by_cases keep : turn.store = true
      · simp only [keep,if_true]
        unfold Remembers at remembers ⊢
        simpa [ended,unstored,told,keep] using remembers
      · have unknown : ¬Known s.exchanges (told turn id response).id := fresh
        have forgotten : (told turn id response).store = false := by simpa [told] using keep
        have set := remembers_set remembers unknown forgotten (remembered turn response)
        simp only [keep,Bool.false_eq_true,if_false]
        exact set
  | abandons failed turn asked =>
      simp only [EndsWell] at well
      subst failed
      exact remembers
  | elsewhere responseId response previous items uuids parent fresh link =>
      unfold Remembers at remembers ⊢
      simpa [unstored] using remembers
  | advances responseId now book moved => exact remembers

theorem runs_remember {ttl : Option Int} {identity : String} {clock sweepInterval : Int} {actions : List Action}
    {s : Connection} (ran : execute (next ttl identity) (start clock sweepInterval) actions = some s)
    (well : ∀ action ∈ actions, EndsWell action) : Remembers s := by
  have kept : ∀ action ∈ actions, ∀ s t, Remembers s → next ttl identity s action = some t → Remembers t :=
    fun action there _ _ remembers stepped => remembers_next remembers (well action there) stepped
  have starts : Remembers (start clock sweepInterval) := rfl
  have reached := execute_within kept starts ran
  exact reached

-- While at most `connCacheMax` turns were not stored, each of them can be continued.
theorem remembered_resolves {s : Connection} (remembers : Remembers s)
    (few : (unstored s.exchanges).length ≤ connCacheMax) {id : String} (there : id ∈ unstored s.exchanges)
    (ttl : Option Int) (identity : String) (frame : Input) (store : Bool) (now : Int) :
    ∃ cached turn, s.cache.get? id = some cached ∧
      resolve ttl identity s (some id) frame store now = (s.book.store,some turn) ∧
      turn.input = .items (cached.items ++ asInputItems frame) := by
  have key : id ∈ s.cache.entries.map Prod.fst := by
    rw [remembers,Nat.sub_eq_zero_of_le few,List.drop_zero]
    exact there
  obtain ⟨cached,found⟩ := Option.isSome_iff_exists.mp (Dict.get_isSome.mpr key)
  refine ⟨cached,⟨some id,store,frame,.items (cached.items ++ asInputItems frame),cached.items ++ asInputItems frame,
    none,cached.listings⟩,found,?_,rfl⟩
  unfold resolve
  simp only [found]

-- Every turn that is to be stored has its write.
def Writes (s : Connection) : Prop :=
  ∀ turn ∈ s.exchanges, turn.store = true → ∃ written ∈ s.book.turns, written.id = turn.id

theorem writes_begun {s : Connection} (writes : Writes s) {turn : Exchange} {written : Written} (same : written.id = turn.id) :
    Writes {s with book := s.book.begin written,exchanges := turn :: s.exchanges} := by
  intro other there store
  rcases List.mem_cons.mp there with rfl | earlier
  · exact ⟨written,List.mem_append_right _ (List.mem_singleton.mpr rfl),same⟩
  · obtain ⟨before,present,named⟩ := writes other earlier store
    exact ⟨before,List.mem_append_left _ present,named⟩

theorem writes_next {ttl : Option Int} {identity : String} {s t : Connection} (follows : Follows identity s)
    (writes : Writes s) {action : Action} (stepped : next ttl identity s action = some t) : Writes t := by
  cases next_goes stepped with
  | asks previous frame store now free => exact writes
  | nameless response failed uuids turn asked unnamed => exact writes
  | answers response failed uuids turn id asked named fresh =>
      unfold answered
      by_cases keep : turn.store = true
      · simp only [keep,if_true]
        exact writes_begun writes rfl
      · have plain : Writes {s with exchanges := told turn id response :: s.exchanges} := by
          intro other there store
          rcases List.mem_cons.mp there with rfl | earlier
          · exact absurd store keep
          · exact writes other earlier store
        simp only [keep]
        cases failed <;> exact plain
  | abandons failed turn asked => exact writes
  | elsewhere responseId response previous items uuids parent fresh link => exact writes_begun writes rfl
  | advances responseId now book moved =>
      intro turn there store
      rw [(advance_keeps follows.kept moved).1]
      exact writes turn there store

theorem runs_write {ttl : Option Int} {identity : String} {clock sweepInterval : Int} {actions : List Action}
    {s : Connection} (ran : execute (next ttl identity) (start clock sweepInterval) actions = some s) : Writes s := by
  have kept : ∀ s action t, (Follows identity s ∧ Writes s) → next ttl identity s action = some t →
      Follows identity t ∧ Writes t :=
    fun _ _ _ both stepped => ⟨both.1.next stepped,writes_next both.1 both.2 stepped⟩
  have starts : Follows identity (start clock sweepInterval) ∧ Writes (start clock sweepInterval) :=
    ⟨start_follows identity clock sweepInterval,fun _ there => absurd there List.not_mem_nil⟩
  exact (execute_invariant kept starts ran).2

section
variable {identity : String} {s : Connection} {ttl : Option Int} {now : Int} {after : Store} {responseId : String}
  {response : Json} {position : Position}

theorem Follows.history_items (follows : Follows identity s)
    (record : recordAt identity s.book.store responseId = some (.stored response position)) {history : History}
    (read : historyAsync ttl identity now s.book.store response position = (after,some history)) :
    Minted (conversation s.exchanges responseId) history.items := by
  obtain ⟨_,lineage,line,items⟩ := follows.kept.history (MemoryStoreActor.Fades.refl _) record read
  rw [items]
  exact (follows.line line).2

theorem Follows.input_items (follows : Follows identity s)
    (record : recordAt identity s.book.store responseId = some (.stored response position)) {items : List Json}
    (read : inputItemsAsync ttl identity now s.book.store (.stored response position) = (after,some items)) :
    ∃ turn ∈ s.exchanges, turn.id = responseId ∧
      Minted (conversationTo s.exchanges turn.previous ++ turn.items) items := by
  obtain ⟨earlier,written,rfl,line,rfl⟩ := follows.kept.inputs (MemoryStoreActor.Fades.refl _) record read
  obtain ⟨last,front,present,_,same,why⟩ := line.parts
  obtain ⟨rfl,final⟩ := List.append_inj' same rfl
  cases final
  obtain ⟨turn,there,named,_,carries⟩ := follows.writes written present
  refine ⟨turn,there,named,?_⟩
  rcases why with ⟨first,rfl⟩ | ⟨previous,link,before⟩
  · rw [first] at carries
    exact carries
  · rw [link] at carries
    rw [carries.1]
    exact (follows.line before).2.append carries.2

end

theorem socket_turns_continue_the_chain (ttl : Option Int) (identity : String) (clock sweepInterval : Int)
    {actions : List Action} {s : Connection}
    (ran : execute (next ttl identity) (start clock sweepInterval) actions = some s) :
    (∀ turn, s.asked = some turn →
      Minted (conversationTo s.exchanges turn.previous ++ asInputItems turn.frame) (asInputItems turn.input)) ∧
    (∀ responseId response position, recordAt identity s.book.store responseId = some (.stored response position) →
      ∀ now after,
        (∀ history, historyAsync ttl identity now s.book.store response position = (after,some history) →
          Minted (conversation s.exchanges responseId) history.items) ∧
        ∀ items, inputItemsAsync ttl identity now s.book.store (.stored response position) = (after,some items) →
          ∃ turn ∈ s.exchanges, turn.id = responseId ∧
            Minted (conversationTo s.exchanges turn.previous ++ turn.items) items) ∧
    (ttl = none → ∀ turn ∈ s.exchanges, turn.store = true → s.book.points turn.id = .finished → ∀ now,
      ∃ response position history items, recordAt identity s.book.store turn.id = some (.stored response position) ∧
        historyAsync ttl identity now s.book.store response position = (s.book.store,some history) ∧
        inputItemsAsync ttl identity now s.book.store (.stored response position) = (s.book.store,some items)) ∧
    ((∀ action ∈ actions, EndsWell action) → (unstored s.exchanges).length ≤ connCacheMax →
      ∀ id ∈ unstored s.exchanges, ∀ frame store now, ∃ cached turn, s.cache.get? id = some cached ∧
        resolve ttl identity s (some id) frame store now = (s.book.store,some turn) ∧
        turn.input = .items (cached.items ++ asInputItems frame)) := by
  have follows := runs_follow ran
  refine ⟨fun turn asked => (follows.asked turn asked).input,?_,?_,?_⟩
  · intro responseId response position record now after
    exact ⟨fun history read => follows.history_items record read,fun items read => follows.input_items record read⟩
  · rintro rfl turn there store finished now
    obtain ⟨written,present,same⟩ := runs_write ran turn there store
    rw [← same] at finished ⊢
    exact (runs_last ran).reported present finished now
  · intro well few id there frame store now
    exact remembered_resolves (runs_remember ran well) few there ttl identity frame store now

def answerOf (id text : String) : Json :=
  .obj [("id",.str id),("status",.str "completed"),("output",.arr [message text])]

-- A socket that stores its second turn only, whose parent is in the cache alone,
-- and continues it from the store.
def mixed : List Action :=
  [.ask none (.text "q") false 0,.answer (answerOf "a" "A") false (fun _ => "0"),
   .ask (some "a") (.items [message "r"]) true 1,.answer (answerOf "b" "B") false (fun _ => "1"),.advance "b" 1,
   .ask (some "b") (.items [message "s"]) false 2]

theorem socket_turns_continue_the_chain_mixed : ∃ s turn,
    execute (next (some 100) "u") (start 0 1) mixed = some s ∧ s.asked = some turn ∧
      conversationTo s.exchanges turn.previous ++ asInputItems turn.frame =
        asInputItems (.text "q") ++ [message "A",message "r",message "B",message "s"] ∧
      Minted (conversationTo s.exchanges turn.previous ++ asInputItems turn.frame) (asInputItems turn.input) := by
  have run : ((execute (next (some 100) "u") (start 0 1) mixed).any fun s => s.asked.any fun turn =>
      decide (conversationTo s.exchanges turn.previous ++ asInputItems turn.frame =
        asInputItems (.text "q") ++ [message "A",message "r",message "B",message "s"])) = true := by decide +kernel
  obtain ⟨s,ran,there⟩ := (Option.any_eq_true _ _).mp run
  obtain ⟨turn,asked,same⟩ := (Option.any_eq_true _ _).mp there
  exact ⟨s,turn,ran,asked,of_decide_eq_true same,
    (socket_turns_continue_the_chain (some 100) "u" 0 1 ran).1 turn asked⟩

end Modelship.Socket

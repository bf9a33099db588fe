import Modelship.OpenAI.Socket

namespace Modelship.Socket
open Foundation State ResponsesState ConversationLog
open MemoryStoreActor (Fades)

-- `given` is `item`, or `item` with the id that a store call minted for it.
def MintedItem (item given : Json) : Prop := given = item ∨ ∃ uuid, given = withId item uuid

-- The same items, up to minted ids.
def Minted (items given : List Json) : Prop := List.Forall₂ MintedItem items given

theorem withId_again (item : Json) (one two : String) : withId (withId item one) two = withId item one := by
  cases tagged : idTag item with
  | none => simp [withId,tagged]
  | some tag =>
      by_cases has : (item.get "id").truthy = true
      · simp [withId,tagged,has]
      · have same : idTag (item.set "id" (.str (tag ++ "_" ++ one))) = some tag := by
          rw [← tagged]
          simp [idTag]
        have minted : (Json.str (tag ++ "_" ++ one)).truthy = true := by
          simp [Json.truthy]
        simp only [withId,tagged,has]
        simp [same,minted]

theorem MintedItem.trans {item middle given : Json} (first : MintedItem item middle) (second : MintedItem middle given) :
    MintedItem item given := by
  rcases first with rfl | ⟨one,rfl⟩
  · exact second
  · rcases second with rfl | ⟨two,rfl⟩
    · exact .inr ⟨one,rfl⟩
    · exact .inr ⟨one,withId_again item one two⟩

theorem Minted.refl (items : List Json) : Minted items items := List.forall₂_same.mpr fun _ _ => .inl rfl

theorem Minted.trans {items middle given : List Json} (first : Minted items middle) (second : Minted middle given) :
    Minted items given := by
  unfold Minted at first second ⊢
  induction first generalizing given with
  | nil =>
      cases second
      exact .nil
  | cons head _ ih =>
      cases second with
      | cons next rest => exact .cons (head.trans next) (ih rest)

theorem Minted.append {one two three four : List Json} (first : Minted one two) (second : Minted three four) :
    Minted (one ++ three) (two ++ four) := List.rel_append first second

theorem withIds_minted (uuids : Nat → String) (items : List Json) : Minted items (withIds uuids items) := by
  unfold withIds Minted
  induction items generalizing uuids with
  | nil => exact .nil
  | cons item rest ih =>
      rw [List.mapIdx_cons]
      exact .cons (.inr ⟨uuids 0,rfl⟩) (ih fun number => uuids (number + 1))

-- Every turn continues an older one, and no two turns share an id.
def Rooted : List Exchange → Prop
  | [] => True
  | turn :: older => turn.id ∉ older.map Exchange.id ∧
    (∀ previous, turn.previous = some previous → previous ∈ older.map Exchange.id) ∧ Rooted older

def Known (exchanges : List Exchange) (id : String) : Prop := id ∈ exchanges.map Exchange.id

theorem unknown_unused {exchanges : List Exchange} {id : String} (unused : ¬exchanges.any (fun turn => turn.id == id) = true) :
    ¬Known exchanges id := by
  intro known
  obtain ⟨exchange,there,same⟩ := List.mem_map.mp known
  exact unused (List.any_eq_true.mpr ⟨exchange,there,by simpa using same⟩)

-- Everything that a step can do.
inductive Goes (ttl : Option Int) (identity : String) (s : Connection) : Action → Connection → Prop where
  | asks (previous frame store now)
      (free : ¬(s.asked.isSome || s.storing.any (fun id => s.book.points id ≠ .finished)) = true) :
      Goes ttl identity s (.ask previous frame store now) {s with
        book := s.book.reads (resolve ttl identity s previous frame store now).1
        asked := (resolve ttl identity s previous frame store now).2}
  | nameless (response failed uuids turn) (asked : s.asked = some turn) (unnamed : usableId response = none) :
      Goes ttl identity s (.answer response failed uuids) (ended turn failed s)
  | answers (response failed uuids turn id) (asked : s.asked = some turn) (named : usableId response = some id)
      (fresh : ¬Known s.exchanges id) :
      Goes ttl identity s (.answer response failed uuids) (answered turn id response failed uuids s)
  | abandons (failed turn) (asked : s.asked = some turn) : Goes ttl identity s (.abandon failed) (ended turn failed s)
  | elsewhere (responseId response previous items uuids parent) (fresh : ¬Known s.exchanges responseId)
      (link : parent = none ∧ previous = none ∨
        ∃ before position, parent = some position ∧ previous = some before ∧ s.book.placed before = some position) :
      Goes ttl identity s (.elsewhere responseId response previous items uuids) {s with
        book := s.book.begin ⟨writeAsync uuids responseId response parent items,previous⟩
        exchanges := ⟨responseId,previous,items,response.items "output",true⟩ :: s.exchanges}
  | advances (responseId now book) (moved : s.book.advance ttl identity responseId now = some book) :
      Goes ttl identity s (.advance responseId now) {s with book}

theorem next_goes {ttl : Option Int} {identity : String} {s t : Connection} {action : Action}
    (stepped : next ttl identity s action = some t) : Goes ttl identity s action t := by
  cases action with
  | ask previous frame store now =>
      simp only [next] at stepped
      split at stepped
      case isTrue => cases stepped
      case isFalse free =>
        cases stepped
        exact .asks previous frame store now free
  | answer response failed uuids =>
      simp only [next] at stepped
      split at stepped
      case h_1 => cases stepped
      case h_2 turn asked =>
        split at stepped
        case h_1 unnamed =>
          cases stepped
          exact .nameless response failed uuids turn asked unnamed
        case h_2 id named =>
          split at stepped
          case isTrue => cases stepped
          case isFalse unused =>
            cases stepped
            exact .answers response failed uuids turn id asked named (unknown_unused unused)
  | abandon failed =>
      simp only [next] at stepped
      split at stepped
      case h_1 => cases stepped
      case h_2 turn asked =>
        cases stepped
        exact .abandons failed turn asked
  | elsewhere responseId response previous items uuids =>
      simp only [next] at stepped
      split at stepped
      case isTrue => cases stepped
      case isFalse unused =>
        obtain ⟨parent,found,rfl⟩ := Option.map_eq_some_iff.mp stepped
        refine .elsewhere responseId response previous items uuids parent (unknown_unused unused) ?_
        cases previous with
        | none =>
            cases found
            exact .inl ⟨rfl,rfl⟩
        | some before =>
            obtain ⟨position,placed,rfl⟩ := Option.map_eq_some_iff.mp found
            exact .inr ⟨before,position,rfl,rfl,placed⟩
  | advance responseId now =>
      obtain ⟨book,moved,rfl⟩ := Option.map_eq_some_iff.mp stepped
      exact .advances responseId now book moved

theorem conversation_older {turn : Exchange} {older : List Exchange} (rooted : Rooted (turn :: older)) {id : String}
    (known : Known older id) : conversation (turn :: older) id = conversation older id := by
  have apart : turn.id ≠ id := by
    rintro rfl
    exact rooted.1 known
  simp [conversation,apart]

theorem conversationTo_older {turn : Exchange} {older : List Exchange} (rooted : Rooted (turn :: older))
    {previous : Option String} (known : ∀ id, previous = some id → Known older id) :
    conversationTo (turn :: older) previous = conversationTo older previous := by
  cases previous with
  | none => rfl
  | some id => exact conversation_older rooted (known id rfl)

theorem conversation_member {exchanges : List Exchange} (rooted : Rooted exchanges) {turn : Exchange}
    (there : turn ∈ exchanges) :
    conversation exchanges turn.id = conversationTo exchanges turn.previous ++ turn.items ++ turn.output ∧
      ∀ previous, turn.previous = some previous → Known exchanges previous := by
  induction exchanges with
  | nil => cases there
  | cons head older ih =>
      have earlier : ∀ {previous : String}, Known older previous → Known (head :: older) previous := by
        intro previous known
        exact List.mem_cons_of_mem _ known
      rcases List.mem_cons.mp there with rfl | before
      · refine ⟨?_,fun previous link => earlier (rooted.2.1 previous link)⟩
        rw [conversationTo_older rooted rooted.2.1]
        simp only [conversation,if_true]
        cases turn.previous <;> rfl
      · obtain ⟨whole,known⟩ := ih rooted.2.2 before
        rw [conversation_older rooted (List.mem_map_of_mem before),conversationTo_older rooted known]
        exact ⟨whole,fun previous link => earlier (known previous link)⟩

-- What a stored turn was given to store, against what its client knows of it. A
-- turn that has no parent in the store carries all that went before it.
def Carries (exchanges : List Exchange) (written : Written) (turn : Exchange) : Prop :=
  turn.id = written.id ∧ turn.output = written.turn.response.items "output" ∧
  match written.previous with
  | none => Minted (conversationTo exchanges turn.previous ++ turn.items) written.turn.input
  | some previous => turn.previous = some previous ∧ Minted turn.items written.turn.input

structure Prepared (s : Connection) (turn : Asked) : Prop where
  known : ∀ previous, turn.previous = some previous → Known s.exchanges previous
  input : Minted (conversationTo s.exchanges turn.previous ++ asInputItems turn.frame) (asInputItems turn.input)
  stored : turn.parent = none ∧ turn.inputItems = asInputItems turn.input ∨
    ∃ previous position, turn.previous = some previous ∧ turn.parent = some position ∧
      s.book.placed previous = some position ∧ turn.inputItems = asInputItems turn.frame

structure Follows (identity : String) (s : Connection) : Prop where
  kept : Kept identity s.book
  rooted : Rooted s.exchanges
  writes : ∀ written ∈ s.book.turns, ∃ turn ∈ s.exchanges, Carries s.exchanges written turn
  cache : ∀ id cached, s.cache.get? id = some cached →
    Known s.exchanges id ∧ Minted (conversation s.exchanges id) cached.items
  asked : ∀ turn, s.asked = some turn → Prepared s turn

section
variable {identity : String} {s : Connection}

-- A line of the log tells the conversation that the client knows.
theorem Follows.line (follows : Follows identity s) {id : String} {path : List Written}
    (line : Lineage s.book.turns id path) :
    Known s.exchanges id ∧ Minted (conversation s.exchanges id) (path.flatMap Written.items) := by
  induction line with
  | @root written present first =>
      obtain ⟨turn,there,same,output,carries⟩ := follows.writes written present
      rw [first] at carries
      obtain ⟨whole,_⟩ := conversation_member follows.rooted there
      rw [← same,whole]
      refine ⟨List.mem_map_of_mem there,?_⟩
      simp only [List.flatMap_cons,List.flatMap_nil,List.append_nil,Written.items,output]
      exact carries.append (Minted.refl _)
  | @continued written previous path present link earlier ih =>
      obtain ⟨turn,there,same,output,carries⟩ := follows.writes written present
      rw [link] at carries
      obtain ⟨whole,_⟩ := conversation_member follows.rooted there
      rw [← same,whole,carries.1]
      refine ⟨List.mem_map_of_mem there,?_⟩
      simp only [List.flatMap_append,List.flatMap_cons,List.flatMap_nil,List.append_nil,Written.items,output,
        List.append_assoc]
      exact ih.2.append (carries.2.append (Minted.refl _))

theorem Follows.written_known (follows : Follows identity s) {written : Written} (present : written ∈ s.book.turns) :
    Known s.exchanges written.id := by
  obtain ⟨turn,there,same,_⟩ := follows.writes written present
  rw [← same]
  exact List.mem_map_of_mem there

theorem Follows.unwritten (follows : Follows identity s) {id : String} (fresh : ¬Known s.exchanges id) :
    ∀ other ∈ s.book.turns, other.id ≠ id := by
  intro other present same
  exact fresh (same ▸ follows.written_known present)

theorem Follows.placed_known (follows : Follows identity s) {id : String} {position : Position}
    (placed : s.book.placed id = some position) : Known s.exchanges id := by
  obtain ⟨written,present,rfl,_⟩ := (follows.kept.placed id position placed).response
  exact follows.written_known present

theorem Follows.reads (follows : Follows identity s) {left : Store} (fades : Fades s.book.store left) :
    Follows identity {s with book := s.book.reads left} :=
  ⟨follows.kept.fades fades,follows.rooted,follows.writes,follows.cache,fun turn asked =>
    have prepared := follows.asked turn asked
    ⟨prepared.known,prepared.input,prepared.stored⟩⟩

-- What the store knows of a response that a turn names.
theorem Follows.resolved (follows : Follows identity s) {ttl : Option Int} {now : Int} {previous : String}
    {left : Store} {found : Option History} (read : resolvePrevious ttl identity now s.book.store previous = (left,found)) :
    Fades s.book.store left ∧ ∀ history, found = some history → Known s.exchanges previous ∧
      s.book.placed previous = some history.position ∧ Minted (conversation s.exchanges previous) history.items := by
  obtain ⟨fades,recorded⟩ := readRecord_fades s.book.store identity previous now
  unfold resolvePrevious at read
  rw [readAsync_bare] at read
  split at read
  · cases read
    exact ⟨Fades.refl _,nofun⟩
  · split at read
    · rename_i middle response position taken
      rw [taken] at fades recorded
      have record := recorded _ rfl
      split at read
      · cases read
        exact ⟨fades,nofun⟩
      · have further := (fades_leaves ttl identity now).history middle response position
        rw [read] at further
        refine ⟨fades.trans further,?_⟩
        rintro history rfl
        obtain ⟨at_,lineage,line,items⟩ := follows.kept.history fades record read
        obtain ⟨known,minted⟩ := follows.line line
        rw [at_,items]
        exact ⟨known,(follows.kept.stands record).1,minted⟩
    · rename_i taken
      rw [taken] at fades
      cases read
      exact ⟨fades,nofun⟩

theorem Follows.ask (follows : Follows identity s) {ttl : Option Int} {previous : Option String} {frame : Input}
    {store : Bool} {now : Int} {left : Store} {asked : Option Asked}
    (found : resolve ttl identity s previous frame store now = (left,asked)) :
    Follows identity {s with book := s.book.reads left,asked} := by
  have prepared : Fades s.book.store left ∧ ∀ turn, asked = some turn → Prepared s turn := by
    unfold resolve at found
    split at found
    · cases found
      refine ⟨Fades.refl _,?_⟩
      rintro turn ⟨⟩
      exact ⟨nofun,Minted.refl _,.inl ⟨rfl,rfl⟩⟩
    · rename_i id
      split at found
      · rename_i cached memory
        cases found
        refine ⟨Fades.refl _,?_⟩
        rintro turn ⟨⟩
        obtain ⟨known,minted⟩ := follows.cache id cached memory
        refine ⟨?_,minted.append (Minted.refl _),.inl ⟨rfl,rfl⟩⟩
        rintro _ ⟨⟩
        exact known
      · split at found
        · rename_i middle history read
          cases found
          obtain ⟨fades,told⟩ := follows.resolved read
          refine ⟨fades,?_⟩
          rintro turn ⟨⟩
          obtain ⟨known,placed,minted⟩ := told history rfl
          refine ⟨?_,minted.append (Minted.refl _),.inr ⟨id,history.position,rfl,rfl,placed,rfl⟩⟩
          rintro _ ⟨⟩
          exact known
        · rename_i middle read
          cases found
          exact ⟨(follows.resolved read).1,nofun⟩
  have read := follows.reads prepared.1
  refine ⟨read.kept,read.rooted,read.writes,read.cache,?_⟩
  intro turn same
  have before := prepared.2 turn same
  exact ⟨before.known,before.input,before.stored⟩

-- A turn told to its client becomes the newest exchange.
theorem Follows.tell (follows : Follows identity s) {turn : Exchange} (fresh : ¬Known s.exchanges turn.id)
    (known : ∀ previous, turn.previous = some previous → Known s.exchanges previous) :
    Follows identity {s with exchanges := turn :: s.exchanges} := by
  have rooted : Rooted (turn :: s.exchanges) := ⟨fresh,known,follows.rooted⟩
  have older : ∀ {id}, Known s.exchanges id → Known (turn :: s.exchanges) id :=
    fun there => List.mem_cons_of_mem _ there
  refine ⟨follows.kept,rooted,?_,?_,?_⟩
  · intro written present
    obtain ⟨exchange,there,same,output,carries⟩ := follows.writes written present
    refine ⟨exchange,List.mem_cons_of_mem _ there,same,output,?_⟩
    have links := (conversation_member follows.rooted there).2
    cases link : written.previous with
    | none =>
        rw [link] at carries
        simp only
        rw [conversationTo_older rooted links]
        exact carries
    | some previous =>
        rw [link] at carries
        exact carries
  · intro id cached found
    obtain ⟨there,minted⟩ := follows.cache id cached found
    refine ⟨older there,?_⟩
    rw [conversation_older rooted there]
    exact minted
  · intro asked same
    have prepared := follows.asked asked same
    refine ⟨fun previous link => older (prepared.known previous link),?_,prepared.stored⟩
    rw [conversationTo_older rooted prepared.known]
    exact prepared.input

-- A write begins for a turn that was told.
theorem Follows.begin (follows : Follows identity s) {written : Written}
    (fresh : ∀ other ∈ s.book.turns, other.id ≠ written.id) (plain : written.turn.ifExists = false)
    (parent : written.turn.parent = none ∧ written.previous = none ∨
      ∃ previous position, written.turn.parent = some position ∧ written.previous = some previous ∧
        s.book.placed previous = some position)
    {turn : Exchange} (there : turn ∈ s.exchanges) (carries : Carries s.exchanges written turn) :
    Follows identity {s with book := s.book.begin written} := by
  refine ⟨follows.kept.begin fresh plain parent,follows.rooted,?_,follows.cache,?_⟩
  · intro other present
    rcases List.mem_append.mp present with before | new
    · exact follows.writes other before
    · rw [List.mem_singleton.mp new]
      exact ⟨turn,there,carries⟩
  · intro asked same
    have prepared := follows.asked asked same
    exact ⟨prepared.known,prepared.input,prepared.stored⟩

theorem trim_get {cache : Dict String Cached} {id : String} {cached : Cached}
    (found : (trim cache).get? id = some cached) : cache.get? id = some cached := by
  have there := Dict.get_some_mem found
  exact Dict.mem_get_some (List.mem_of_mem_drop there)

theorem Follows.quiet (follows : Follows identity s) {cache : Dict String Cached}
    (less : ∀ id cached, cache.get? id = some cached → s.cache.get? id = some cached) (storing : Option String) :
    Follows identity {s with asked := none,cache,storing} := by
  refine ⟨follows.kept,follows.rooted,follows.writes,?_,nofun⟩
  intro id cached found
  exact follows.cache id cached (less id cached found)

theorem forget_get {cache : Dict String Cached} {previous : Option String} {id : String} {cached : Cached}
    (found : (forget cache previous).get? id = some cached) : cache.get? id = some cached := by
  cases previous with
  | none => exact found
  | some previous =>
      simp only [forget,Dict.get_erase] at found
      split at found
      · cases found
      · exact found

theorem Follows.ended (follows : Follows identity s) (turn : Asked) (failed : Bool) :
    Follows identity (ended turn failed s) := by
  refine follows.quiet ?_ s.storing
  intro id cached found
  split at found
  · exact forget_get found
  · exact found

-- What the write of a prepared turn carries, once its client was told.
theorem Prepared.carries {turn : Asked} (prepared : Prepared s turn) {id : String} {response : Json}
    (rooted : Rooted (told turn id response :: s.exchanges)) (uuids : Nat → String) :
    Carries (told turn id response :: s.exchanges) (written turn id response uuids) (told turn id response) ∧
      ((written turn id response uuids).turn.parent = none ∧ (written turn id response uuids).previous = none ∨
        ∃ previous position, (written turn id response uuids).turn.parent = some position ∧
          (written turn id response uuids).previous = some previous ∧ s.book.placed previous = some position) := by
  have older := conversationTo_older rooted prepared.known
  rcases prepared.stored with ⟨parent,items⟩ | ⟨previous,position,link,parent,placed,items⟩
  · have first : (written turn id response uuids).previous = none := by simp [written,parent]
    refine ⟨⟨rfl,rfl,?_⟩,.inl ⟨parent,first⟩⟩
    rw [first]
    show Minted (conversationTo (told turn id response :: s.exchanges) turn.previous ++ asInputItems turn.frame)
      (withIds uuids turn.inputItems)
    rw [older,items]
    exact prepared.input.trans (withIds_minted uuids _)
  · have next : (written turn id response uuids).previous = some previous := by simp [written,parent,link]
    refine ⟨⟨rfl,rfl,?_⟩,.inr ⟨previous,position,parent,next,placed⟩⟩
    rw [next]
    simp only [told,written,writeAsync,items]
    exact ⟨link,withIds_minted uuids _⟩

theorem Follows.answered (follows : Follows identity s) {turn : Asked} (asked : s.asked = some turn) {id : String}
    {response : Json} (failed : Bool) (uuids : Nat → String) (fresh : ¬Known s.exchanges id) :
    Follows identity (answered turn id response failed uuids s) := by
  have prepared := follows.asked turn asked
  have said : Follows identity {s with exchanges := told turn id response :: s.exchanges} :=
    follows.tell fresh prepared.known
  unfold Socket.answered
  split
  · obtain ⟨carries,parent⟩ := prepared.carries said.rooted uuids
    have unused : ∀ other ∈ s.book.turns, other.id ≠ (written turn id response uuids).id := follows.unwritten fresh
    have begun := said.begin unused rfl parent List.mem_cons_self carries
    refine begun.quiet ?_ (some id)
    intro other cached found
    split at found
    · exact forget_get found
    · exact found
  · split
    · exact said.ended turn true
    · have minted : Minted (conversation (told turn id response :: s.exchanges) id) (remembered turn response).items := by
        have whole := (conversation_member said.rooted (List.mem_cons_self (a := told turn id response))).1
        have older := conversationTo_older said.rooted prepared.known
        refine Eq.mpr (congrArg (Minted · _) whole) ?_
        rw [show conversationTo (told turn id response :: s.exchanges) (told turn id response).previous = _ from older]
        exact prepared.input.append (Minted.refl _)
      refine ⟨said.kept,said.rooted,said.writes,?_,?_⟩
      · intro other cached found
        have held := trim_get found
        rw [Dict.get_set] at held
        split at held
        · rename_i same
          subst other
          cases held
          exact ⟨List.mem_cons_self,minted⟩
        · exact said.cache other cached held
      · intro next awaited
        cases awaited

theorem advance_keeps (kept : Kept identity s.book) {ttl : Option Int} {responseId : String} {now : Int} {book : Book}
    (stepped : s.book.advance ttl identity responseId now = some book) :
    book.turns = s.book.turns ∧ ∀ id position, s.book.placed id = some position → book.placed id = some position := by
  obtain ⟨written,_,_,unfinished,store,point,_,rfl⟩ := Book.advance_moves stepped
  refine ⟨rfl,?_⟩
  intro id position placed
  have apart : id ≠ written.id := by
    rintro rfl
    rw [kept.unplaced unfinished] at placed
    cases placed
  exact (Function.update_of_ne apart _ _).trans placed

theorem Follows.next (follows : Follows identity s) {ttl : Option Int} {action : Action} {t : Connection}
    (stepped : next ttl identity s action = some t) : Follows identity t := by
  cases next_goes stepped with
  | asks previous frame store now free => exact follows.ask rfl
  | nameless response failed uuids turn asked unnamed => exact follows.ended turn failed
  | answers response failed uuids turn id asked named fresh => exact follows.answered asked failed uuids fresh
  | abandons failed turn asked => exact follows.ended turn failed
  | elsewhere responseId response previous items uuids parent fresh link =>
      have said : Follows identity {s with exchanges := ⟨responseId,previous,items,response.items "output",true⟩ :: s.exchanges} := by
        refine follows.tell fresh ?_
        rcases link with ⟨_,rfl⟩ | ⟨before,position,_,rfl,placed⟩
        · nofun
        · rintro _ ⟨⟩
          exact follows.placed_known placed
      refine said.begin (follows.unwritten fresh) rfl link List.mem_cons_self ⟨rfl,rfl,?_⟩
      rcases link with ⟨rfl,rfl⟩ | ⟨before,position,rfl,rfl,placed⟩
      · exact withIds_minted uuids items
      · exact ⟨rfl,withIds_minted uuids items⟩
  | advances responseId now book moved =>
      obtain ⟨turns,placed⟩ := advance_keeps follows.kept moved
      refine ⟨follows.kept.advance moved,follows.rooted,?_,follows.cache,?_⟩
      · intro written present
        rw [turns] at present
        exact follows.writes written present
      · intro turn asked
        have prepared := follows.asked turn asked
        refine ⟨prepared.known,prepared.input,?_⟩
        rcases prepared.stored with first | ⟨previous,position,link,parent,found,items⟩
        · exact .inl first
        · exact .inr ⟨previous,position,link,parent,placed _ _ found,items⟩

end

theorem start_follows (identity : String) (clock sweepInterval : Int) : Follows identity (start clock sweepInterval) := by
  refine ⟨start_kept identity clock sweepInterval,trivial,?_,?_,nofun⟩
  · intro written present
    cases present
  · intro id cached found
    cases found

theorem runs_follow {ttl : Option Int} {identity : String} {clock sweepInterval : Int} {actions : List Action}
    {s : Connection} (ran : execute (next ttl identity) (start clock sweepInterval) actions = some s) :
    Follows identity s :=
  execute_invariant (fun _ _ _ follows stepped => follows.next stepped) (start_follows identity clock sweepInterval) ran

end Modelship.Socket

import Modelship.OpenAI.FadingLog

namespace Modelship.ConversationLog
open Foundation State ResponsesState
open MemoryStoreActor (taken Ordered inRange Fades)

theorem ordered_bound (low high : Nat) {content : List (Nat × Value)} (ordered : Ordered content)
    (above : ∀ entry ∈ content, low ≤ entry.1) (below : ∀ entry ∈ content, entry.1 ≤ high) :
    content.length + low ≤ high + 1 ∨ content = [] := by
  induction content generalizing low with
  | nil => exact .inr rfl
  | cons head rest ih =>
      left
      obtain ⟨first,others⟩ := List.pairwise_cons.mp ordered
      have start := above head List.mem_cons_self
      have stop := below head List.mem_cons_self
      have later : ∀ entry ∈ rest, low + 1 ≤ entry.1 := by
        intro entry there
        exact Nat.lt_of_le_of_lt start (first entry there)
      rcases ih (low + 1) others later (fun entry there => below entry (List.mem_cons_of_mem _ there)) with bound | rfl
      · simp only [List.length_cons]
        omega
      · simp only [List.length_cons,List.length_nil]
        omega

-- What is left of a log that lost its beginning is too short to be read.
theorem Beheaded.unread {content : List (Nat × Value)} (headless : Beheaded content) {depth : Nat} {first : Entry}
    {rest : List Entry} (read : (upTo content depth).mapM asEntry = some (first :: rest)) :
    first.base = none ∧ (first :: rest).length ≠ depth := by
  obtain ⟨ordered,position,entry,others,rfl,late,bare⟩ := headless
  have above : ∀ other ∈ (position,Value.entry entry) :: others, position ≤ other.1 := by
    intro other there
    rcases List.mem_cons.mp there with rfl | later
    · exact Nat.le_refl _
    · exact Nat.le_of_lt ((List.pairwise_cons.mp ordered).1 other later)
  have length : (upTo ((position,.entry entry) :: others) depth).length = (first :: rest).length :=
    (mapM_paired read).length_eq
  by_cases within : position ≤ depth
  · have kept : inRange 1 (some depth) position = true := by
      simp only [inRange,Option.all_some,Bool.and_eq_true,decide_eq_true_eq]
      omega
    constructor
    · have pairs := mapM_paired read
      simp only [upTo,List.filter_cons,kept,if_true,List.map_cons] at pairs
      obtain ⟨same,_⟩ := List.forall₂_cons.mp pairs
      cases same
      exact bare
    · have below : ∀ other ∈ ((position,Value.entry entry) :: others).filter
          (fun other => inRange 1 (some depth) other.1), other.1 ≤ depth := by
        intro other there
        have bound := (List.mem_filter.mp there).2
        simp only [inRange,Option.all_some,Bool.and_eq_true,decide_eq_true_eq] at bound
        exact Int.ofNat_le.mp bound.2
      have short := ordered_bound position depth (List.Pairwise.filter _ ordered)
        (fun other there => above other (List.mem_filter.mp there).1) below
      rw [← length]
      simp only [upTo,List.length_map]
      rcases short with bound | nothing
      · omega
      · rw [nothing,List.length_nil]
        omega
  · have nothing : upTo ((position,.entry entry) :: others) depth = [] := by
      simp only [upTo,List.map_eq_nil_iff,List.filter_eq_nil_iff]
      intro other there
      have start := above other there
      simp only [inRange,Option.all_some,Bool.and_eq_true,decide_eq_true_eq]
      omega
    rw [nothing] at length
    cases length

-- What a reader of a whole log finds up to a depth.
theorem Grown.read {turns : List Written} {log : String} {content : List (Nat × Value)} {base : Option Position}
    {first : Written} {rest : List Written} (grown : Grown turns log content base first rest) {depth : Nat}
    {entry : Entry} {entries : List Entry} (read : (upTo content depth).mapM asEntry = some (entry :: entries)) :
    entry = {first.turn.entry with base} ∧
      entries = (rest.take (depth - (depthOf base + 1))).map fun written => written.turn.entry := by
  have content := grown.content
  subst content
  by_cases within : depthOf base + 1 ≤ depth
  · have kept : inRange 1 (some depth) (depthOf base + 1) = true := by
      simp only [inRange,Option.all_some,Bool.and_eq_true,decide_eq_true_eq]
      omega
    have whole : upTo ((depthOf base + 1,.entry {first.turn.entry with base}) :: laid (depthOf base + 1) rest) depth =
        .entry {first.turn.entry with base} :: upTo (laid (depthOf base + 1) rest) depth := by
      simp [upTo,kept]
    rw [whole,List.mapM_cons,laid_upTo,laid_entries] at read
    cases read
    exact ⟨rfl,rfl⟩
  · have nothing : upTo ((depthOf base + 1,.entry {first.turn.entry with base}) :: laid (depthOf base + 1) rest) depth =
        [] := by
      simp only [upTo,List.map_eq_nil_iff,List.filter_eq_nil_iff]
      rintro ⟨position,value⟩ there
      simp only [inRange,Option.all_some,Bool.and_eq_true,decide_eq_true_eq]
      rcases List.mem_cons.mp there with head | later
      · cases head
        omega
      · obtain ⟨number,_,_,rfl,_⟩ := mem_laid.mp later
        omega
    rw [nothing] at read
    cases read

-- Turns that follow each other continue the line of the first.
theorem Lineage.follow {turns : List Written} {first : Written} {rest earlier : List Written}
    (members : ∀ written ∈ rest, written ∈ turns) (linked : (first :: rest).IsChain Linked)
    (begins : Lineage turns first.id (earlier ++ [first])) :
    ∃ last, (first :: rest)[rest.length]? = some last ∧ Lineage turns last.id (earlier ++ first :: rest) := by
  induction rest generalizing first earlier with
  | nil => exact ⟨first,rfl,begins⟩
  | cons second rest ih =>
      obtain ⟨link,others⟩ := List.isChain_cons_cons.mp linked
      have continued : Lineage turns second.id ((earlier ++ [first]) ++ [second]) :=
        .continued (members second List.mem_cons_self) link begins
      obtain ⟨last,found,line⟩ := ih (fun written there => members written (List.mem_cons_of_mem _ there)) others continued
      refine ⟨last,found,?_⟩
      rw [List.append_assoc] at line
      exact line

-- A segment of the right length, read as the end of the line that its first turn continues.
theorem Grown.tells {turns : List Written} {log : String} {content : List (Nat × Value)} {base : Option Position}
    {first : Written} {rest earlier : List Written} (grown : Grown turns log content base first rest) {depth : Nat}
    {entry : Entry} {entries : List Entry} (read : (upTo content depth).mapM asEntry = some (entry :: entries))
    (whole : (entry :: entries).length + depthOf base = depth)
    (begins : Lineage turns first.id (earlier ++ [first])) :
    ∃ (last : Written) (segment : List Written), Lineage turns last.id (earlier ++ segment) ∧
      (entry :: entries).map (fun entry => {entry with base := none}) = segment.map (fun written => written.turn.entry) ∧
      Holds content depth last.id := by
  obtain ⟨rfl,rfl⟩ := grown.read read
  obtain ⟨last,found,line⟩ := begins.follow
    (fun written there => grown.members written (List.mem_cons_of_mem _ (List.mem_of_mem_take there)))
    (List.IsChain.take grown.linked (depth - (depthOf base + 1) + 1))
  refine ⟨last,_,line,?_,?_⟩
  · rw [List.map_cons,List.map_cons,List.map_map]
    rfl
  · simp only [List.length_cons,List.length_map] at whole
    refine grown.writer.mpr ⟨(rest.take (depth - (depthOf base + 1))).length,last,?_,by omega,rfl⟩
    rw [← List.take_succ_cons] at found
    rw [List.getElem?_take] at found
    split at found
    · exact found
    · cases found

theorem readRecord_fades (s : Store) (identity responseId : String) (now : Int) :
    Fades s (readRecord s identity responseId now).1 ∧ ∀ record, (readRecord s identity responseId now).2 = some record →
      recordAt identity s responseId = some record := by
  obtain ⟨fades,same⟩ := s.get_fades (key identity responseId) now
  unfold readRecord
  split
  · rename_i t record found
    rw [found] at fades same
    refine ⟨fades,?_⟩
    rintro _ ⟨⟩
    exact recordAt_cells.mpr (same _ rfl)
  · rename_i found
    rw [found] at fades
    exact ⟨fades,nofun⟩

theorem refresh_fades (ttl : Option Int) (identity log : String) (now : Int) (s : Store) :
    Fades s (refresh ttl identity log now s) := by
  cases ttl with
  | none => exact Fades.refl s
  | some ttl => exact s.expire_fades (logKey identity log) ttl now

theorem fades_leaves (ttl : Option Int) (identity : String) (now : Int) : Leaves ttl identity now Fades where
  refl := Fades.refl
  trans := Fades.trans
  ranged s log depth := (s.readRange_fades (logKey identity log) 1 (some depth) now).1
  refreshed s log := refresh_fades ttl identity log now s
  looked s responseId := (readRecord_fades s identity responseId now).1

theorem readAsync_bare (s : Store) (identity responseId : String) (now : Int) :
    readAsync s identity responseId false now = readRecord s identity responseId now := by
  unfold readAsync
  split
  · rename_i found
    rw [found]
    rfl
  · rfl

section
variable {identity : String} {s : Book}

-- A reading of the log that succeeds is one of the lines of the conversation, to
-- the response whose entry stands there.
def Told (identity : String) (s : Book) (log : String) (depth : Nat) (path : List Entry) : Prop :=
  ¬Beheaded (logsOf identity s.store log) ∧ Ordered (logsOf identity s.store log) ∧
    ∃ lineage responseId, Lineage s.turns responseId lineage ∧
      path.map (fun entry => {entry with base := none}) = lineage.map (fun written => written.turn.entry) ∧
      Holds (logsOf identity s.store log) depth responseId

-- The entry read at a place a record named is that response's.
theorem Told.names {log : String} {depth : Nat} {path : List Entry} (told : Told identity s log depth path)
    {responseId : String} (stands : Stands identity s responseId ⟨log,depth⟩) :
    ∃ lineage, Lineage s.turns responseId lineage ∧
      path.map (fun entry => {entry with base := none}) = lineage.map (fun written => written.turn.entry) := by
  obtain ⟨whole,ordered,lineage,other,line,same,entry,there,rfl⟩ := told
  rcases stands.held with gone | headless | ⟨found,here,rfl⟩
  · rw [gone] at there
    cases there
  · exact absurd headless whole
  · have equal := MemoryStoreActor.ordered_unique ordered there here
    injection equal with equal
    subst found
    exact ⟨lineage,line,same⟩

theorem Kept.reads (kept : Kept identity s) (ttl : Option Int) (now : Int) {depth : Nat} {log : String}
    {store after : Store} {path : List Entry} (fades : Fades s.store store)
    (read : entries ttl identity now store log depth = (after,some path)) :
    Told identity s log depth path := by
  induction depth using Nat.strong_induction_on generalizing log store after path with
  | h depth ih =>
      unfold entries at read
      have ⟨ranged,values⟩ := store.readRange_fades (logKey identity log) 1 (some depth) now
      generalize store.readRange (logKey identity log) 1 (some depth) now = result at read ranged values
      obtain ⟨middle,found⟩ := result
      -- what is read is the log as the invariant knows it: a log that is gone reads as nothing
      have known : found = [] ∨ found = upTo (logsOf identity s.store log) depth := by
        rcases values with nothing | all
        · exact .inl nothing
        · rcases fades.logAt (logKey identity log) with gone | same
          · rw [gone] at all
            exact .inl all
          · rw [same] at all
            exact .inr all
      simp only at read
      split at read
      · cases read
      · cases read
      · rename_i first rest segment
        have is_ : found = upTo (logsOf identity s.store log) depth := by
          rcases known with nothing | all
          · rw [nothing] at segment
            cases segment
          · exact all
        rw [is_] at segment
        have log_ := kept.logs log
        rcases log_ with gone | ⟨_,headless | ⟨base,founder,others,grown⟩⟩
        · rw [gone] at segment
          cases segment
        · obtain ⟨bare,short⟩ := headless.unread segment
          simp only [bare,short,if_false] at read
          cases read
        · obtain ⟨rfl,_⟩ := grown.read segment
          have present := grown.members founder List.mem_cons_self
          cases base with
          | none =>
              simp only at read
              split at read
              · rename_i whole
                cases read
                have root : founder.previous = none := by
                  rcases kept.parents founder present with ⟨_,root⟩ | ⟨_,_,parent,_⟩
                  · exact root
                  · rw [grown.parent] at parent
                    cases parent
                have begins : Lineage s.turns founder.id ([] ++ [founder]) := .root present root
                obtain ⟨last,line,lineage,same,held⟩ := grown.tells segment (by simpa [depthOf] using whole) begins
                exact ⟨grown.whole,grown.ordered,_,_,lineage,same,held⟩
              · cases read
          | some origin =>
              simp only at read
              split at read
              · rename_i whole
                split at read
                · cases read
                · rename_i earlier path' reading
                  cases read
                  have less : origin.depth < depth := by
                    rw [List.length_cons] at whole
                    omega
                  have refreshed := refresh_fades ttl identity origin.log now middle
                  have told := ih origin.depth less ((fades.trans ranged).trans refreshed) reading
                  rcases kept.parents founder present with ⟨root,_⟩ | ⟨previous,position,parent,link,placed⟩
                  · rw [grown.parent] at root
                    cases root
                  · cases grown.parent.symm.trans parent
                    obtain ⟨before,begun,sameBefore⟩ := told.names (kept.placed previous origin placed)
                    obtain ⟨last,line,lineage,same,held⟩ :=
                      grown.tells segment (by simpa [depthOf] using whole) (.continued present link begun)
                    refine ⟨grown.whole,grown.ordered,_,_,lineage,?_,held⟩
                    rw [List.map_append,List.map_append,sameBefore,same]
              · cases read

end

section
variable {identity : String} {s : Book} {ttl : Option Int} {now : Int} {store after : Store} {responseId : String}
  {response : Json} {position : Position}

theorem Kept.stands (kept : Kept identity s)
    (found : recordAt identity s.store responseId = some (.stored response position)) :
    s.placed responseId = some position ∧ Stands identity s responseId position := by
  obtain ⟨written,_,place,_,told,placed⟩ := kept.records responseId _ found
  cases (Record.stored.inj told).2
  exact ⟨placed,kept.placed responseId position placed⟩

-- What a continuation is given of the response it names.
theorem Kept.history (kept : Kept identity s) (fades : Fades s.store store)
    (found : recordAt identity s.store responseId = some (.stored response position)) {history : History}
    (read : historyAsync ttl identity now store response position = (after,some history)) :
    history.position = position ∧
      ∃ lineage, Lineage s.turns responseId lineage ∧ history.items = lineage.flatMap Written.items := by
  have refreshed := refresh_fades ttl identity position.log now store
  unfold historyAsync at read
  split at read
  · cases read
  · rename_i middle path reading
    have told := kept.reads ttl now (fades.trans refreshed) reading
    obtain ⟨lineage,line,same⟩ := told.names (kept.stands found).2
    cases read
    exact ⟨rfl,lineage,line,items_path same⟩

theorem Kept.inputs (kept : Kept identity s) (fades : Fades s.store store)
    (found : recordAt identity s.store responseId = some (.stored response position)) {items : List Json}
    (read : inputItemsAsync ttl identity now store (.stored response position) = (after,some items)) :
    ∃ earlier written, written.id = responseId ∧ Lineage s.turns responseId (earlier ++ [written]) ∧
      items = earlier.flatMap Written.items ++ written.turn.input := by
  simp only [inputItemsAsync,Prod.mk.injEq,Option.map_eq_some_iff] at read
  obtain ⟨_,path,reading,rfl⟩ := read
  have told := kept.reads ttl now fades (Prod.ext rfl reading)
  obtain ⟨lineage,line,same⟩ := told.names (kept.stands found).2
  obtain ⟨written,earlier,_,named,rfl,_⟩ := line.parts
  refine ⟨earlier,written,named,line,?_⟩
  rw [List.map_append] at same
  obtain ⟨front,rest,rfl,frontSame,two⟩ := List.map_eq_append_iff.mp same
  obtain ⟨last,others,rfl,lastSame,nothing⟩ := List.map_eq_cons_iff.mp two
  rw [List.map_nil,List.map_eq_nil_iff] at nothing
  subst nothing
  have input : last.input = written.turn.input := by simpa [Turn.entry] using congrArg Entry.input lastSame
  simp [items_path frontSame,input]

end

end Modelship.ConversationLog

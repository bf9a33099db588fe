import Modelship.Foundation.Dumps
import Modelship.OpenAI.SocketRuns

namespace Modelship.Affinity
open Foundation State ResponsesState Socket

-- What a key is made from of a request.
structure ChatCompletionRequest where
  messages : List Json
  promptCacheKey : Option String

structure ResponsesRequest where
  input : Input
  instructions : Option String
  promptCacheKey : Option String

def optional : Option String → Json
  | none => .null
  | some text => .str text

mutual
def cut : Json → Json
  | .null => .null
  | .bool value => .bool value
  | .num value => .num value
  | .str value => .str (String.ofList (value.toList.take 4096))
  | .arr values => .arr (cutValues values)
  | .obj fields => .obj (cutFields fields)
def cutValues : List Json → List Json
  | [] => []
  | value :: rest => cut value :: cutValues rest
def cutFields : List (String × Json) → List (String × Json)
  | [] => []
  | field :: rest => (field.1,cut field.2) :: cutFields rest
end

def bare (item : Json) : Json := .obj (item.fields.filter (·.1 ≠ "id"))

-- An item without its id, its fields in order: all of it that a key tells.
def plain (item : Json) : Json := canonical (bare item)

def isUser (item : Json) : Bool := item.get "role" = .str "user"

-- A conversation's start: its items up to the first of the user's, without their ids.
def opening : List Json → List Json
  | [] => []
  | item :: rest => if isUser item then [bare item] else bare item :: opening rest

def preimage (identity : String) (promptCacheKey : Option String) (head items : List Json) : List Char :=
  dumps (.arr [.str identity,optional promptCacheKey,cut (.arr (head ++ opening items))])

-- The texts of the two keys.
def chatPreimage (request : ChatCompletionRequest) (identity : String) : List Char :=
  preimage identity request.promptCacheKey [] request.messages

def responsesPreimage (request : ResponsesRequest) (identity : String) : List Char :=
  preimage identity request.promptCacheKey [optional request.instructions] (asInputItems request.input)

section
-- The hexadecimal digest of a text.
variable (digest : List Char → String)

def key (identity : String) (promptCacheKey : Option String) (head items : List Json) : String :=
  digest (preimage identity promptCacheKey head items)

def chatKey (request : ChatCompletionRequest) (identity : String) : String :=
  key digest identity request.promptCacheKey [] request.messages

def responsesKey (request : ResponsesRequest) (identity : String) : String :=
  key digest identity request.promptCacheKey [optional request.instructions] (asInputItems request.input)

end

-- The identity is the first value of the text, and a text ends where its quotation mark does.
theorem preimage_identity {one two : String} {oneKey twoKey : Option String} {oneHead twoHead oneItems twoItems : List Json}
    (same : preimage one oneKey oneHead oneItems = preimage two twoKey twoHead twoItems) : one = two := by
  have begins : ∀ identity promptCacheKey head items, preimage identity promptCacheKey head items =
      '[' :: (dumpsText identity.toList ++ (", ".toList ++ (dumps (optional promptCacheKey) ++
        (", ".toList ++ (dumps (cut (.arr (head ++ opening items))) ++ [']']))))) := by
    intro identity promptCacheKey head items
    simp [preimage,dumps,dumpsValues,List.intercalate]
  rw [begins,begins] at same
  exact String.toList_injective (dumpsText_inj (List.cons.inj same).2).1

theorem setField_others (new : Json) (fields : List (String × Json)) :
    (Json.setField "id" new fields).filter (·.1 ≠ "id") = fields.filter (·.1 ≠ "id") := by
  induction fields with
  | nil => rfl
  | cons field rest ih =>
      obtain ⟨name,old⟩ := field
      unfold Json.setField
      by_cases here : name = "id"
      · subst here
        simp
      · rw [if_neg (by simpa using here),List.filter_cons,List.filter_cons,ih]

theorem bare_withId (item : Json) (uuid : String) : bare (withId item uuid) = bare item := by
  unfold withId
  split
  · split
    · rfl
    · exact congrArg Json.obj (setField_others _ item.fields)
  · rfl

theorem minted_plain {items given : List Json} (minted : Minted items given) : items.map plain = given.map plain := by
  induction minted with
  | nil => rfl
  | cons same _ ih =>
      rw [List.map_cons,List.map_cons,ih]
      rcases same with rfl | ⟨uuid,rfl⟩
      · rfl
      · unfold plain
        rw [bare_withId]

theorem find_canonicalFields (fields : List (String × Json)) (name : String) :
    ((canonicalFields fields).find? (·.1 == name)).map (·.2) = ((fields.find? (·.1 == name)).map (·.2)).map canonical := by
  induction fields with
  | nil => rfl
  | cons field rest ih =>
      unfold canonicalFields
      by_cases here : field.1 = name
      · simp [here]
      · rw [List.find?_cons_of_neg (by simpa using here),List.find?_cons_of_neg (by simpa using here),ih]

theorem canonical_user (value : Json) : canonical value = .str "user" ↔ value = .str "user" := by
  cases value <;> simp [canonical]

theorem isUser_plain (item : Json) : isUser (plain item) = isUser item := by
  have role : (plain item).find? "role" = (item.find? "role").map canonical := by
    unfold Json.find? plain bare
    simp only [canonical,Json.fields]
    rw [sortKeys_find,find_canonicalFields,List.find?_filter]
    congr 4
    funext field
    by_cases here : field.1 = "role"
    · simp [here]
    · simp [here]
  unfold isUser Json.get
  rw [role]
  cases item.find? "role" with
  | none => rfl
  | some value => simp [canonical_user]

-- What starts with the items that a conversation started with has its opening.
theorem opening_same {first items : List Json} (starts : first.map plain <+: items.map plain)
    (asks : ∃ item ∈ first, isUser item = true) : (opening items).map canonical = (opening first).map canonical := by
  induction first generalizing items with
  | nil =>
      obtain ⟨item,member,_⟩ := asks
      cases member
  | cons item rest ih =>
      cases items with
      | nil => exact absurd (List.prefix_nil.mp starts) (by simp)
      | cons other more =>
          rw [List.map_cons,List.map_cons,List.cons_prefix_cons] at starts
          obtain ⟨same,later⟩ := starts
          have role : isUser other = isUser item := by
            rw [← isUser_plain other,← isUser_plain item,same]
          have head : canonical (bare other) = canonical (bare item) := same.symm
          unfold opening
          rw [role]
          split
          · simp only [List.map_cons,List.map_nil,head]
          · rename_i another
            have asked : ∃ item ∈ rest, isUser item = true := by
              obtain ⟨user,member,is_⟩ := asks
              rcases List.mem_cons.mp member with rfl | there
              · exact absurd is_ another
              · exact ⟨user,there,is_⟩
            rw [List.map_cons,List.map_cons,head,ih later asked]

theorem cutFields_map (fields : List (String × Json)) : cutFields fields = fields.map fun field => (field.1,cut field.2) := by
  induction fields with
  | nil => rfl
  | cons field rest ih => rw [cutFields,ih,List.map_cons]

mutual
theorem cut_canonical : (value : Json) → cut (canonical value) = canonical (cut value)
  | .null => rfl
  | .bool _ => rfl
  | .num _ => rfl
  | .str _ => rfl
  | .arr values => by rw [canonical,cut,cut,canonical,cutValues_canonical values]
  | .obj fields => by
      rw [canonical,cut,cut,canonical,cutFields_map,sortKeys_map (fun field => (field.1,cut field.2)) (fun _ => rfl),
        ← cutFields_map,cutFields_canonical fields]
theorem cutValues_canonical : (values : List Json) → cutValues (canonicalValues values) = canonicalValues (cutValues values)
  | [] => rfl
  | value :: rest => by
      rw [canonicalValues,cutValues,cutValues,canonicalValues,cut_canonical value,cutValues_canonical rest]
theorem cutFields_canonical : (fields : List (String × Json)) →
    cutFields (canonicalFields fields) = canonicalFields (cutFields fields)
  | [] => rfl
  | field :: rest => by
      rw [canonicalFields,cutFields,cutFields,canonicalFields,cut_canonical field.2,cutFields_canonical rest]
end

theorem canonicalValues_map (values : List Json) : canonicalValues values = values.map canonical := by
  induction values with
  | nil => rfl
  | cons value rest ih => rw [canonicalValues,ih,List.map_cons]

-- Values that are the same but for the order of fields are cut and written alike.
theorem dumps_cut {one two : List Json} (same : one.map canonical = two.map canonical) :
    dumps (cut (.arr one)) = dumps (cut (.arr two)) := by
  have sorted : ∀ values : List Json, dumps (cut (.arr values)) = dumps (cut (.arr (values.map canonical))) := by
    intro values
    rw [← canonicalValues_map,← dumps_canonical (cut (.arr values)),← cut_canonical]
    rfl
  rw [sorted one,sorted two,same]

-- The items of the turn that a chain of previous responses starts with.
def firstItems : List Exchange → String → List Json
  | [],_ => []
  | turn :: older,id =>
    if turn.id = id then
      match turn.previous with
      | none => turn.items
      | some previous => firstItems older previous
    else firstItems older id

theorem firstItems_begin (exchanges : List Exchange) (id : String) : firstItems exchanges id <+: conversation exchanges id := by
  induction exchanges generalizing id with
  | nil => exact List.prefix_refl _
  | cons turn older ih =>
      unfold firstItems conversation
      split
      · cases turn.previous with
        | none => exact ⟨turn.output,by simp⟩
        | some previous =>
            refine (ih previous).trans ?_
            rw [List.append_assoc]
            exact List.prefix_append _ _
      · exact ih id

-- The items of a turn of a conversation that began with `first`: resent by the client, but
-- for their ids and the order of their fields; taken in by a round of a response, after what it has put out; continued from
-- the socket's memory or the store, in any run over any ttl; or rebuilt from a log, however
-- its turns came into the store, whose oldest entry is that of such a turn.
inductive Later (identity : String) (first : List Json) : List Json → Prop where
  | first : Later identity first first
  | resent {earlier again : List Json} (more : List Json) (turn : Later identity first earlier)
      (same : again.map plain = earlier.map plain) : Later identity first (again ++ more)
  | round {earlier : List Json} (accumulated : List Json) (turn : Later identity first earlier) :
      Later identity first (earlier ++ accumulated)
  | continued {ttl : Option Int} {clock sweepInterval : Int} {actions : List Action} {s : Connection} {turn : Asked}
      {previous : String} (ran : execute (next ttl identity) (start clock sweepInterval) actions = some s)
      (asked : s.asked = some turn) (continues : turn.previous = some previous)
      (begun : Later identity first (firstItems s.exchanges previous)) : Later identity first (asInputItems turn.input)
  | resolved {ttl : Option Int} {clock sweepInterval now : Int} {actions : List Action} {s : Connection}
      {previous : String} {left : Store} {history : History}
      (ran : execute (next ttl identity) (start clock sweepInterval) actions = some s)
      (read : resolvePrevious ttl identity now s.book.store previous = (left,some history)) (items : List Json)
      (begun : Later identity first (firstItems s.exchanges previous)) : Later identity first (history.items ++ items)
  | rebuilt {ttl : Option Int} {now : Int} {s t : Store} {response : Json} {position : Position} {history : History}
      {root : Entry} {rest : List Entry} {uuids : Nat → String} {earlier : List Json}
      (read : historyAsync ttl identity now s response position = (t,some history))
      (path : (entries ttl identity now (refresh ttl identity position.log now s) position.log position.depth).2 =
        some (root :: rest)) (stored : root.input = withIds uuids earlier) (items : List Json)
      (begun : Later identity first earlier) : Later identity first (history.items ++ items)

theorem minted_starts {first items given : List Json} (begins : first <+: items) (minted : Minted items given)
    (more : List Json) :    first.map plain <+: (given ++ more).map plain := by
  rw [List.map_append,← minted_plain minted]
  exact (begins.map plain).trans (List.prefix_append _ _)

theorem later_starts {identity : String} {first items : List Json} (later : Later identity first items) :
    first.map plain <+: items.map plain := by
  induction later with
  | first => exact List.prefix_refl _
  | resent more _ same ih =>
      rw [List.map_append,same]
      exact ih.trans (List.prefix_append _ _)
  | round accumulated _ ih =>
      rw [List.map_append]
      exact ih.trans (List.prefix_append _ _)
  | @continued _ _ _ _ s turn previous ran asked continues _ ih =>
      have minted := ((runs_follow ran).asked turn asked).input
      rw [continues] at minted
      refine ih.trans ?_
      have begins := (firstItems_begin s.exchanges previous).trans (List.prefix_append _ (asInputItems turn.frame))
      have starts := minted_starts begins minted []
      rw [List.append_nil] at starts
      exact starts
  | @resolved _ _ _ _ _ s previous _ history ran read items _ ih =>
      obtain ⟨_,told⟩ := (runs_follow ran).resolved read
      obtain ⟨_,_,minted⟩ := told history rfl
      exact ih.trans (minted_starts (firstItems_begin s.exchanges previous) minted items)
  | @rebuilt _ _ _ _ _ _ history root rest uuids earlier read path stored items _ ih =>
      have items : history.items = root.input ++ (root.output ++ ResponsesState.items rest) := by
        unfold historyAsync at read
        split at read
        · cases read
        · rename_i found
          rw [found] at path
          cases path
          cases read
          simp [ResponsesState.items]
      have minted := withIds_minted uuids earlier
      rw [← stored] at minted
      rw [items,List.append_assoc]
      exact ih.trans (minted_starts (List.prefix_refl _) minted _)

section
variable (digest : List Char → String)

theorem key_same {first items : List Json} (starts : first.map plain <+: items.map plain)
    (asks : ∃ item ∈ first, isUser item = true) (identity : String) (promptCacheKey : Option String) (head : List Json) :
    key digest identity promptCacheKey head items = key digest identity promptCacheKey head first := by
  have same : dumps (cut (.arr (head ++ opening items))) = dumps (cut (.arr (head ++ opening first))) := by
    apply dumps_cut
    rw [List.map_append,List.map_append,opening_same starts asks]
  unfold key preimage
  simp only [dumps,dumpsValues,same]

-- A chat resends its messages.
theorem chat_keeps_key (request : ChatCompletionRequest) (more : List Json)
    (asks : ∃ message ∈ request.messages, isUser message = true) (identity : String) :
    chatKey digest {request with messages := request.messages ++ more} identity = chatKey digest request identity := by
  apply key_same digest ?_ asks
  rw [List.map_append]
  exact List.prefix_append _ _

-- Both keys are digests, of texts that tell the identities apart.
theorem keys_tell_identities :
    (∀ request identity, responsesKey digest request identity = digest (responsesPreimage request identity)) ∧
    (∀ request identity, chatKey digest request identity = digest (chatPreimage request identity)) ∧
    ∀ one two, one ≠ two →
      (∀ request other, responsesPreimage request one ≠ responsesPreimage other two) ∧
      (∀ request other, chatPreimage request one ≠ chatPreimage other two) ∧
      ∀ request other, chatPreimage request one ≠ responsesPreimage other two := by
  refine ⟨fun _ _ => rfl,fun _ _ => rfl,?_⟩
  intro one two apart
  refine ⟨?_,?_,?_⟩
  · exact fun request other same => apart (preimage_identity same)
  · exact fun request other same => apart (preimage_identity same)
  · exact fun request other same => apart (preimage_identity same)

-- The key of a conversation's first turn stays that of every later one; and every key, of a
-- response or a chat, is the digest of a text that no request of another identity has.
theorem conversation_keeps_key :
    (∀ identity (first later : ResponsesRequest), later.promptCacheKey = first.promptCacheKey →
      later.instructions = first.instructions → (∃ item ∈ asInputItems first.input, isUser item = true) →
      Later identity (asInputItems first.input) (asInputItems later.input) →
        responsesKey digest later identity = responsesKey digest first identity) ∧
    (∀ request identity, responsesKey digest request identity = digest (responsesPreimage request identity)) ∧
    (∀ request identity, chatKey digest request identity = digest (chatPreimage request identity)) ∧
    ∀ one two, one ≠ two →
      (∀ request other, responsesPreimage request one ≠ responsesPreimage other two) ∧
      (∀ request other, chatPreimage request one ≠ chatPreimage other two) ∧
      ∀ request other, chatPreimage request one ≠ responsesPreimage other two := by
  refine ⟨?_,keys_tell_identities digest⟩
  intro identity first later sameKey sameInstructions asks turn
  unfold responsesKey
  rw [sameKey,sameInstructions]
  exact key_same digest (later_starts turn) asks identity _ _

end

theorem conversation_keeps_key_mixed : ∃ s turn,
    execute (next (some 100) "u") (start 0 1) mixed = some s ∧ s.asked = some turn ∧
      responsesKey String.ofList ⟨turn.input,some "Be brief.",none⟩ "u" =
        responsesKey String.ofList ⟨.text "q",some "Be brief.",none⟩ "u" ∧
      responsesPreimage ⟨turn.input,some "Be brief.",none⟩ "u" ≠ responsesPreimage ⟨.text "q",some "Be brief.",none⟩ "v" := by
  have run : ((execute (next (some 100) "u") (start 0 1) mixed).any fun s => s.asked.any fun turn =>
      decide (turn.previous = some "b" ∧ firstItems s.exchanges "b" = asInputItems (.text "q"))) = true := by decide +kernel
  obtain ⟨s,ran,there⟩ := (Option.any_eq_true _ _).mp run
  obtain ⟨turn,asked,same⟩ := (Option.any_eq_true _ _).mp there
  obtain ⟨continues,begun⟩ := of_decide_eq_true same
  have later : Later "u" (asInputItems (.text "q")) (firstItems s.exchanges "b") := by
    rw [begun]
    exact .first
  obtain ⟨stable,_,_,apart⟩ := conversation_keeps_key String.ofList
  exact ⟨s,turn,ran,asked,stable "u" ⟨.text "q",some "Be brief.",none⟩ ⟨turn.input,some "Be brief.",none⟩ rfl rfl
    ⟨_,List.mem_cons_self,by decide⟩ (.continued ran asked continues later),(apart "u" "v" (by decide)).1 _ _⟩

end Modelship.Affinity

import Modelship.OpenAI.FadingHistory

namespace Modelship.Socket
open Foundation State ResponsesState ConversationLog

-- `request.input` is a text or a list of items.
inductive Input where
  | text (text : String)
  | items (items : List Json)
  deriving DecidableEq

def asInputItems : Input → List Json
  | .text text => [.obj [("type",.str "message"),("role",.str "user"),("content",.str text)]]
  | .items items => items

-- `RESPONSE_ID_RE`; its `$` lets one newline stand at the end.
def idCharacter (c : Char) : Bool := c.isAlphanum || c = '_' || c = '-'

def isResponseId (text : String) : Bool :=
  let body := if text.toList.getLast? = some '\n' then text.toList.dropLast else text.toList
  1 ≤ body.length && body.length ≤ 128 && body.all idCharacter

def unfinished (response : Json) : Bool :=
  response.get "status" = .str "queued" || response.get "status" = .str "in_progress"

def resolvePrevious (ttl : Option Int) (identity : String) (now : Int) (s : Store) (previous : String) :
    Store × Option History :=
  if !isResponseId previous then (s,none) else
  match readAsync s identity previous false now with
  | (s,some (.stored response position)) =>
    if unfinished response then (s,none) else historyAsync ttl identity now s response position
  | (s,_) => (s,none)

-- What the socket keeps of a turn it ran with `store: false`.
structure Cached where
  items : List Json
  listings : List (Json × Listing)

def connCacheMax : Nat := 16

-- While the cache is over its bound its oldest entry goes.
def trim (cache : Dict String Cached) : Dict String Cached :=
  ⟨cache.entries.drop (cache.entries.length - connCacheMax),
    ((List.drop_sublist _ _).map Prod.fst).nodup cache.distinct⟩

-- The listings of a turn, over those it began with; a label whose listing failed is dropped.
def heldListings (before : List (Json × Listing)) (response : Json) : List (Json × Listing) :=
  let earlier : Dict Json (Option Listing) := before.foldl (fun found entry => found.set entry.1 (some entry.2)) .empty
  let merged := (mcpListingsIn (response.items "tools") (response.items "output")).entries.foldl
    (fun found entry => found.set entry.1 entry.2) earlier
  merged.entries.filterMap fun entry => entry.2.map (entry.1,·)

-- A turn between its frame and its terminal event: what the client sent, and
-- what the loader and the store are given.
structure Asked where
  previous : Option String
  store : Bool
  frame : Input
  input : Input
  inputItems : List Json
  parent : Option Position
  listings : List (Json × Listing)

-- An answered turn as the client knows it: its own items and the output.
structure Exchange where
  id : String
  previous : Option String
  items : List Json
  output : List Json
  store : Bool
  deriving DecidableEq

-- The items along the chain of previous responses, each turn's own items before
-- its output. The newest turn comes first in the list.
def conversation : List Exchange → String → List Json
  | [],_ => []
  | turn :: older,id =>
    if turn.id = id then
      (match turn.previous with
        | none => []
        | some previous => conversation older previous) ++ turn.items ++ turn.output
    else conversation older id

def conversationTo (exchanges : List Exchange) (previous : Option String) : List Json :=
  match previous with
  | none => []
  | some previous => conversation exchanges previous

-- One socket over the conversations of its caller, which others write to as well.
structure Connection where
  book : Book
  cache : Dict String Cached
  asked : Option Asked
  storing : Option String
  exchanges : List Exchange

-- `answer` is the terminal event of the socket's turn, `abandon` an end without
-- one; either may have gone wrong. `elsewhere` begins a `write_async` of another
-- client, and `advance` makes the next store call of a write.
inductive Action where
  | ask (previous : Option String) (frame : Input) (store : Bool) (now : Int)
  | answer (response : Json) (failed : Bool) (uuids : Nat → String)
  | abandon (failed : Bool)
  | elsewhere (responseId : String) (response : Json) (previous : Option String) (items : List Json)
      (uuids : Nat → String)
  | advance (responseId : String) (now : Int)

section
variable (ttl : Option Int) (identity : String)

-- Where a turn's history comes from: the socket's own memory first, then the store.
def resolve (s : Connection) (previous : Option String) (frame : Input) (store : Bool) (now : Int) :
    Store × Option Asked :=
  match previous with
  | none => (s.book.store,some ⟨none,store,frame,frame,asInputItems frame,none,[]⟩)
  | some id =>
    match s.cache.get? id with
    | some cached =>
      let items := cached.items ++ asInputItems frame
      (s.book.store,some ⟨previous,store,frame,.items items,items,none,cached.listings⟩)
    | none =>
      match resolvePrevious ttl identity now s.book.store id with
      | (left,some history) =>
        (left,some ⟨previous,store,frame,.items (history.items ++ asInputItems frame),asInputItems frame,
          some history.position,history.listings⟩)
      | (left,none) => (left,none)

-- A turn that fails takes what it continued out of the socket's memory.
def forget (cache : Dict String Cached) (previous : Option String) : Dict String Cached :=
  match previous with
  | none => cache
  | some previous => cache.erase previous

def ended (turn : Asked) (failed : Bool) (s : Connection) : Connection :=
  {s with asked := none,cache := if failed then forget s.cache turn.previous else s.cache}

def usableId (response : Json) : Option String :=
  match response.get "id" with
  | .str "" => none
  | .str id => some id
  | _ => none

def told (turn : Asked) (id : String) (response : Json) : Exchange :=
  ⟨id,turn.previous,asInputItems turn.frame,response.items "output",turn.store⟩

def written (turn : Asked) (id : String) (response : Json) (uuids : Nat → String) : Written :=
  ⟨writeAsync uuids id response turn.parent turn.inputItems,turn.parent.bind fun _ => turn.previous⟩

def remembered (turn : Asked) (response : Json) : Cached :=
  ⟨asInputItems turn.input ++ response.items "output",heldListings turn.listings response⟩

def answered (turn : Asked) (id : String) (response : Json) (failed : Bool) (uuids : Nat → String) (s : Connection) :
    Connection :=
  let s := {s with exchanges := told turn id response :: s.exchanges}
  if turn.store then
    ended turn failed {s with book := s.book.begin (written turn id response uuids),storing := some id}
  else if failed then ended turn true s
  else {s with asked := none,cache := trim (s.cache.set id (remembered turn response))}

def next (s : Connection) : Action → Option Connection
  | .ask previous frame store now =>
    if s.asked.isSome || s.storing.any (fun id => s.book.points id ≠ .finished) then none else
    let (left,asked) := resolve ttl identity s previous frame store now
    some {s with book := s.book.reads left,asked}
  | .answer response failed uuids =>
    match s.asked with
    | none => none
    | some turn =>
      match usableId response with
      | none => some (ended turn failed s)
      | some id =>
        if s.exchanges.any (fun turn => turn.id == id) then none
        else some (answered turn id response failed uuids s)
  | .abandon failed =>
    match s.asked with
    | none => none
    | some turn => some (ended turn failed s)
  | .elsewhere responseId response previous items uuids =>
    if s.exchanges.any (fun turn => turn.id == responseId) then none else
    let parent := match previous with
      | none => some none
      | some previous => (s.book.placed previous).map some
    parent.map fun parent => {s with
      book := s.book.begin ⟨writeAsync uuids responseId response parent items,previous⟩
      exchanges := ⟨responseId,previous,items,response.items "output",true⟩ :: s.exchanges}
  | .advance responseId now =>
    (s.book.advance ttl identity responseId now).map fun book => {s with book}

def start (now sweepInterval : Int) : Connection := ⟨Book.start now sweepInterval,.empty,none,none,[]⟩

end

end Modelship.Socket

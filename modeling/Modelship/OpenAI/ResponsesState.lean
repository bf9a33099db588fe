import Modelship.Foundation.Json
import Modelship.Foundation.Text
import Modelship.State.Memory

namespace Modelship.ResponsesState
open Foundation State

-- Where a turn's items are: the entry at `depth` of the log `log`.
structure Position where
  log : String
  depth : Nat
  deriving DecidableEq, Repr

structure Entry where
  responseId : String
  input : List Json
  output : List Json
  base : Option Position
  deriving DecidableEq, Repr

-- A finished turn's record names its position; a background run's placeholder
-- still carries the turn's parent and input.
inductive Record where
  | stored (response : Json) (position : Position)
  | background (response : Json) (parent : Option Position) (input : List Json)
  deriving DecidableEq, Repr

def Record.response : Record → Json
  | .stored response _ => response
  | .background response _ _ => response

inductive Value where
  | record (record : Record)
  | entry (entry : Entry)
  | event (event : Json)
  deriving DecidableEq, Repr

abbrev Store := MemoryStoreActor Value

-- Every key of this layer is scoped by the caller's identity.
def key (identity responseId : String) : String := "responses/" ++ identity ++ "/" ++ responseId
def logKey (identity log : String) : String := "responses-log/" ++ identity ++ "/" ++ log
def streamKey (identity responseId : String) : String := "responses-stream/" ++ identity ++ "/" ++ responseId

@[simp] theorem key_inj (identity a b : String) : key identity a = key identity b ↔ a = b :=
  String.append_right_inj _
@[simp] theorem logKey_inj (identity a b : String) : logKey identity a = logKey identity b ↔ a = b :=
  String.append_right_inj _

-- The three namespaces never share a key.
@[simp] theorem key_ne_logKey (one two a b : String) : key one a ≠ logKey two b := by
  unfold key logKey
  rw [String.append_assoc,String.append_assoc,String.append_assoc,String.append_assoc]
  exact append_apart (by decide) (by decide)
@[simp] theorem key_ne_streamKey (one two a b : String) : key one a ≠ streamKey two b := by
  unfold key streamKey
  rw [String.append_assoc,String.append_assoc,String.append_assoc,String.append_assoc]
  exact append_apart (by decide) (by decide)
@[simp] theorem logKey_ne_streamKey (one two a b : String) : logKey one a ≠ streamKey two b := by
  unfold logKey streamKey
  rw [String.append_assoc,String.append_assoc,String.append_assoc,String.append_assoc]
  exact append_apart (by decide) (by decide)
@[simp] theorem logKey_ne_key (one two a b : String) : logKey one a ≠ key two b :=
  fun equal => key_ne_logKey two one b a equal.symm
@[simp] theorem streamKey_ne_key (one two a b : String) : streamKey one a ≠ key two b :=
  fun equal => key_ne_streamKey two one b a equal.symm
@[simp] theorem streamKey_ne_logKey (one two a b : String) : streamKey one a ≠ logKey two b :=
  fun equal => logKey_ne_streamKey two one b a equal.symm

def terminalStatuses : List String := ["completed","incomplete","failed","cancelled"]

def isTerminal (response : Json) : Bool :=
  match response.get "status" with
  | .str status => terminalStatuses.contains status
  | _ => false

-- A value of another shape at the key reads as missing.
def readRecord (s : Store) (identity responseId : String) (now : Int) : Store × Option Record :=
  match s.get (key identity responseId) now with
  | (s,some (.value (.record record))) => (s,some record)
  | (s,_) => (s,none)

def asEntry : Value → Option Entry
  | .entry entry => some entry
  | _ => none

def readAsync (s : Store) (identity responseId : String) (withOutput : Bool) (now : Int) :
    Store × Option Record :=
  match readRecord s identity responseId now with
  | (s,some (.stored response position)) =>
    if withOutput then
      let (s,entries) := s.readRange (logKey identity position.log) position.depth (some position.depth) now
      match entries.head?.bind asEntry with
      | none => (s,none)
      | some entry => (s,some (.stored (response.set "output" (.arr entry.output)) position))
    else (s,some (.stored response position))
  | other => other

-- A read keeps what it reads alive; nothing to do where nothing expires.
def refresh (ttl : Option Int) (identity log : String) (now : Int) (s : Store) : Store :=
  match ttl with
  | none => s
  | some ttl => s.expire (logKey identity log) ttl now

-- The entries from the conversation's root to `depth` of `log`. Each log but the
-- first starts with an entry that names the position it continues.
def entries (ttl : Option Int) (identity : String) (now : Int) (s : Store) (log : String) (depth : Nat) :
    Store × Option (List Entry) :=
  let (s,values) := s.readRange (logKey identity log) 1 (some depth) now
  match values.mapM asEntry with
  | none | some [] => (s,none)
  | some (first :: rest) =>
    match first.base with
    | none => if (first :: rest).length = depth then (s,some (first :: rest)) else (s,none)
    | some base =>
      if fits : (first :: rest).length + base.depth = depth then
        have shorter : base.depth < depth := by rw [List.length_cons] at fits; omega
        match entries ttl identity now (refresh ttl identity base.log now s) base.log base.depth with
        | (s,none) => (s,none)
        | (s,some earlier) => (s,some (earlier ++ first :: rest))
      else (s,none)
termination_by depth

def items (entries : List Entry) : List Json := entries.flatMap (fun entry => entry.input ++ entry.output)

structure Listing where
  serverUrl : Json
  allowedTools : Json
  tools : List Json
  deriving DecidableEq, Repr

def isListTools (item : Json) : Bool := item.get "type" == .str "mcp_list_tools"

def mcpTools (tools : List Json) : Dict Json Json :=
  (tools.filter (fun tool => tool.get "type" == .str "mcp")).foldl
    (fun found tool => found.set (tool.get "server_label") tool) .empty

-- Per server label the last listing of an output; `none` where it failed or the
-- response echoes no such tool.
def mcpListingsIn (tools output : List Json) : Dict Json (Option Listing) :=
  (output.filter isListTools).foldl (fun listings item =>
    let label := item.get "server_label"
    listings.set label (match (mcpTools tools).get? label with
      | some tool =>
        if (item.get "error").truthy then none else
        some ⟨tool.get "server_url",tool.get "allowed_tools",item.items "tools"⟩
      | none => none)) .empty

def setDefaults (found new : Dict Json (Option Listing)) : Dict Json (Option Listing) :=
  new.entries.foldl (fun found entry =>
    if (found.get? entry.1).isSome then found else found.set entry.1 entry.2) found

-- The response whose output `entry` holds: the record being read, or one that may be gone.
def listingOrigin (identity : String) (now : Int) (recordResponse : Json) (s : Store) (entry : Entry) :
    Store × Option Json :=
  if .str entry.responseId = recordResponse.get "id" then (s,some recordResponse) else
  if entry.responseId = "" then (s,none) else
  let (s,record) := readRecord s identity entry.responseId now
  (s,record.map Record.response)

-- Newest turn first. A turn all of whose labels are already found is not looked up.
def mcpListingsLoop (identity : String) (now : Int) (recordResponse : Json) :
    Store → Dict Json (Option Listing) → List Entry → Store × Dict Json (Option Listing)
  | s,found,[] => (s,found)
  | s,found,entry :: earlier =>
    if ((entry.output.filter isListTools).map (·.get "server_label")).all (fun label => (found.get? label).isSome)
    then mcpListingsLoop identity now recordResponse s found earlier else
    let (s,origin) := listingOrigin identity now recordResponse s entry
    let tools := (origin.map (·.items "tools")).getD []
    mcpListingsLoop identity now recordResponse s (setDefaults found (mcpListingsIn tools entry.output)) earlier

def mcpListings (identity : String) (now : Int) (recordResponse : Json) (s : Store) (entries : List Entry) :
    Store × List (Json × Listing) :=
  let (s,found) := mcpListingsLoop identity now recordResponse s .empty entries.reverse
  (s,found.entries.filterMap (fun entry => entry.2.map (entry.1,·)))

structure History where
  items : List Json
  position : Position
  listings : List (Json × Listing)

-- For a stored record; a placeholder has no position yet.
def historyAsync (ttl : Option Int) (identity : String) (now : Int) (s : Store) (response : Json)
    (position : Position) : Store × Option History :=
  match entries ttl identity now (refresh ttl identity position.log now s) position.log position.depth with
  | (s,none) => (s,none)
  | (s,some path) =>
    let (s,listings) := mcpListings identity now response s path
    (s,some ⟨items path,position,listings⟩)

def inputItemsAsync (ttl : Option Int) (identity : String) (now : Int) (s : Store) :
    Record → Store × Option (List Json)
  | .stored _ position =>
    let (s,path) := entries ttl identity now s position.log position.depth
    (s,path.map (fun path => items path.dropLast ++ (path.getLast?.map Entry.input).getD []))
  | .background _ none input => (s,some input)
  | .background _ (some parent) input =>
    let (s,path) := entries ttl identity now s parent.log parent.depth
    (s,path.map (fun path => items path ++ input))

-- The id a minted item gets starts with its type's tag; other types get none.
def idTag (item : Json) : Option String :=
  match (item.find? "type").getD (.str "message") with
  | .str "message" => some "msg"
  | .str "function_call" => some "fc"
  | .str "function_call_output" => some "fco"
  | .str "reasoning" => some "rs"
  | .str "mcp_call" => some "mcp"
  | .str "mcp_list_tools" => some "mcpl"
  | .str "mcp_approval_request" => some "mcpr"
  | .str "mcp_approval_response" => some "mcpr"
  | .str "compaction" => some "cmp"
  | _ => none

def withId (item : Json) (uuid : String) : Json :=
  match idTag item with
  | some tag => if (item.get "id").truthy then item else item.set "id" (.str (tag ++ "_" ++ uuid))
  | none => item

-- `uuids` are the random ids this call draws, one for each item in turn.
def withIds (uuids : Nat → String) (items : List Json) : List Json :=
  items.mapIdx (fun i item => withId item (uuids i))

-- One call of `_store_turn`.
structure Turn where
  responseId : String
  response : Json
  parent : Option Position
  input : List Json
  ifExists : Bool

def Turn.entry (turn : Turn) : Entry := ⟨turn.responseId,turn.input,turn.response.items "output",none⟩
def Turn.record (turn : Turn) (position : Position) : Record :=
  .stored (turn.response.set "output" (.arr [])) position

-- The store call a `_store_turn` makes next.
inductive StorePoint where
  | append
  | readTaken
  | fork
  | finished
  deriving DecidableEq, Repr

def Turn.write (turn : Turn) (ttl : Option Int) (identity : String) (now : Int) (s : Store)
    (position : Position) (entry : Entry) : Store × Bool :=
  s.appendAndSet (logKey identity position.log) position.depth (.entry entry)
    (key identity turn.responseId) (.record (turn.record position)) ttl turn.ifExists now

def storeTurn (ttl : Option Int) (identity : String) (now : Int) (turn : Turn) (s : Store) :
    StorePoint → Store × StorePoint
  | .append =>
    match turn.parent with
    | none => ((turn.write ttl identity now s ⟨turn.responseId,1⟩ turn.entry).1,.finished)
    | some parent =>
      match turn.write ttl identity now s ⟨parent.log,parent.depth + 1⟩ turn.entry with
      | (s,true) => (s,.finished)
      | (s,false) => (s,.readTaken)
  | .readTaken =>
    match turn.parent with
    | none => (s,.finished)
    | some parent =>
      let (s,taken) := s.readRange (logKey identity parent.log) (parent.depth + 1) (some (parent.depth + 1)) now
      if (taken.head?.bind asEntry).any (fun entry => entry.responseId == turn.responseId) then (s,.finished)
      else (s,.fork)
  | .fork =>
    match turn.parent with
    | none => (s,.finished)
    | some parent =>
      ((turn.write ttl identity now s ⟨turn.responseId,parent.depth + 1⟩
        {turn.entry with base := some parent}).1,.finished)
  | .finished => (s,.finished)

def writeAsync (uuids : Nat → String) (responseId : String) (response : Json) (parent : Option Position)
    (input : List Json) : Turn := ⟨responseId,response,parent,withIds uuids input,false⟩

def deleteAsync (identity responseId : String) (s : Store) : Store := s.delete (key identity responseId)

def writeBackground (ttl : Option Int) (identity : String) (now : Int) (uuids : Nat → String)
    (responseId : String) (response : Json) (parent : Option Position) (input : List Json) (s : Store) : Store :=
  s.set (key identity responseId) (.record (.background response parent (withIds uuids input))) ttl now

-- The store call a `write_terminal_if_not_terminal` makes next: its read of the
-- record, then those of a conditional `_store_turn`.
inductive TerminalPoint where
  | read
  | storing (turn : Turn) (point : StorePoint)
  | finished

def writeTerminalIfNotTerminal (ttl : Option Int) (identity : String) (now : Int) (responseId : String)
    (response : Json) (s : Store) : TerminalPoint → Store × TerminalPoint
  | .read =>
    match readRecord s identity responseId now with
    | (s,some (.background current parent input)) =>
      if isTerminal current then (s,.finished) else
      (s,.storing ⟨responseId,response,parent,input,true⟩ .append)
    | (s,_) => (s,.finished)
  | .storing turn point =>
    match storeTurn ttl identity now turn s point with
    | (s,.finished) => (s,.finished)
    | (s,point) => (s,.storing turn point)
  | .finished => (s,.finished)

-- The logs of one identity, by log name.
def logsOf (identity : String) (s : Store) (log : String) : List (Nat × Value) := s.logAt (logKey identity log)

theorem logsOf_congr {identity log : String} {s t : Store}
    (same : t.cells (logKey identity log) = s.cells (logKey identity log)) :
    logsOf identity t log = logsOf identity s log := by
  simp only [logsOf,MemoryStoreActor.logAt,same]

-- The effect of an accepted write of a turn: its entry and its record, nothing else.
structure Wrote (identity : String) (turn : Turn) (position : Position) (entry : Entry) (s t : Store) : Prop where
  timeless : t.Timeless
  free : MemoryStoreActor.taken (logsOf identity s position.log) position.depth = false
  logs : ∀ log, logsOf identity t log =
    if position.log = log then logsOf identity s log ++ [(position.depth,.entry entry)] else logsOf identity s log
  record : ∀ responseId, t.cells (key identity responseId) =
    if turn.responseId = responseId then some (.value (.record (turn.record position)))
    else s.cells (key identity responseId)
  stream : ∀ responseId, t.cells (streamKey identity responseId) = s.cells (streamKey identity responseId)

theorem write_cases {s : Store} (timeless : s.Timeless) (identity : String) (now : Int) (turn : Turn)
    (position : Position) (entry : Entry) :
    (turn.write none identity now s position entry = (s,false) ∧
      ((turn.ifExists = true ∧ s.cells (key identity turn.responseId) = none) ∨
        MemoryStoreActor.taken (logsOf identity s position.log) position.depth = true)) ∨
    ((turn.ifExists = true → s.cells (key identity turn.responseId) ≠ none) ∧
      ∃ t, turn.write none identity now s position entry = (t,true) ∧ Wrote identity turn position entry s t) := by
  rcases MemoryStoreActor.appendAndSet_cases timeless (logKey identity position.log) position.depth
    (.entry entry) (key identity turn.responseId) (.record (turn.record position)) turn.ifExists now with
    ⟨refused,why⟩ | ⟨present,free,t,accepted,kept,cells⟩
  · exact .inl ⟨refused,why⟩
  · refine .inr ⟨present,t,accepted,kept,free,?_,?_,?_⟩
    · intro log
      by_cases same : position.log = log
      · subst log
        simp [logsOf,MemoryStoreActor.logAt,cells]
      · rw [if_neg same]
        exact logsOf_congr (by simp [cells,same])
    · intro responseId
      simp [cells]
    · intro responseId
      simp [cells]

-- A step of a turn's storing writes its record with one entry, at its parent's next
-- position or in the turn's own log, or it writes nothing.
theorem storeTurn_effect {s : Store} (timeless : s.Timeless) (identity : String) (now : Int) (turn : Turn)
    (point : StorePoint) :
    (storeTurn none identity now turn s point).1 = s ∨
    ∃ position entry, Wrote identity turn position entry s (storeTurn none identity now turn s point).1 ∧
      entry.responseId = turn.responseId ∧
      (position.log = turn.responseId ∨ ∃ parent, turn.parent = some parent ∧ position.log = parent.log) := by
  have effect : ∀ position entry, (turn.write none identity now s position entry).1 = s ∨
      Wrote identity turn position entry s (turn.write none identity now s position entry).1 := by
    intro position entry
    rcases write_cases timeless identity now turn position entry with ⟨refused,_⟩ | ⟨_,t,accepted,wrote⟩
    · rw [refused]; exact .inl rfl
    · rw [accepted]; exact .inr wrote
  cases point with
  | finished => exact .inl rfl
  | append =>
      cases parent : turn.parent with
      | none =>
          simp only [storeTurn,parent]
          exact (effect ⟨turn.responseId,1⟩ turn.entry).imp id (fun wrote => ⟨_,_,wrote,rfl,.inl rfl⟩)
      | some origin =>
          have found := effect ⟨origin.log,origin.depth + 1⟩ turn.entry
          simp only [storeTurn,parent]
          have store : ∀ after, (turn.write none identity now s ⟨origin.log,origin.depth + 1⟩ turn.entry).1 = after →
              after = s ∨ ∃ position entry, Wrote identity turn position entry s after ∧
                entry.responseId = turn.responseId ∧
                (position.log = turn.responseId ∨ ∃ parent, some origin = some parent ∧ position.log = parent.log) := by
            rintro after rfl
            exact found.imp id (fun wrote => ⟨⟨origin.log,origin.depth + 1⟩,_,wrote,rfl,.inr ⟨origin,rfl,rfl⟩⟩)
          split <;> rename_i result <;> exact store _ (by rw [result])
  | readTaken =>
      refine .inl ?_
      cases parent : turn.parent with
      | none => simp only [storeTurn,parent]
      | some origin =>
          simp only [storeTurn,parent,MemoryStoreActor.readRange_timeless timeless]
          split <;> rfl
  | fork =>
      cases parent : turn.parent with
      | none => exact .inl (by simp only [storeTurn,parent])
      | some origin =>
          simp only [storeTurn,parent]
          exact (effect ⟨turn.responseId,origin.depth + 1⟩ {turn.entry with base := some origin}).imp id
            (fun wrote => ⟨_,_,wrote,rfl,.inl rfl⟩)

theorem readRecord_timeless {s : Store} (timeless : s.Timeless) (identity responseId : String) (now : Int) :
    readRecord s identity responseId now =
      (s,match s.cells (key identity responseId) with
        | some (.value (.record record)) => some record
        | _ => none) := by
  unfold readRecord
  rw [MemoryStoreActor.get_timeless timeless]
  cases found : s.cells (key identity responseId) with
  | none => rfl
  | some cell =>
      cases cell with
      | log entries => rfl
      | value value => cases value <;> rfl

-- What the reads of a history leave of the store, one after the other.
structure Leaves (ttl : Option Int) (identity : String) (now : Int) (Left : Store → Store → Prop) : Prop where
  refl : ∀ s, Left s s
  trans : ∀ {s t u}, Left s t → Left t u → Left s u
  ranged : ∀ (s : Store) log depth, Left s (s.readRange (logKey identity log) 1 (some depth) now).1
  refreshed : ∀ s log, Left s (refresh ttl identity log now s)
  looked : ∀ s responseId, Left s (readRecord s identity responseId now).1

section
variable {ttl : Option Int} {identity : String} {now : Int} {Left : Store → Store → Prop}

-- The log that a first entry names is read after the one it starts.
theorem Leaves.entries (leaves : Leaves ttl identity now Left) (s : Store) (log : String) (depth : Nat) :
    Left s (entries ttl identity now s log depth).1 := by
  induction depth using Nat.strong_induction_on generalizing s log with
  | h depth ih =>
      unfold ResponsesState.entries
      have ranged := leaves.ranged s log depth
      split
      · exact ranged
      · exact ranged
      · rename_i first rest _
        split
        · split <;> exact ranged
        · rename_i base _
          split
          · rename_i whole
            have less : base.depth < depth := by
              rw [List.length_cons] at whole
              omega
            have earlier := leaves.trans (leaves.trans ranged (leaves.refreshed _ base.log)) (ih base.depth less _ base.log)
            split
            · rename_i found
              rw [found] at earlier
              exact earlier
            · rename_i found
              rw [found] at earlier
              exact earlier
          · exact ranged

theorem Leaves.listings (leaves : Leaves ttl identity now Left) (response : Json) (s : Store)
    (found : Dict Json (Option Listing)) (path : List Entry) :
    Left s (mcpListingsLoop identity now response s found path).1 := by
  induction path generalizing s found with
  | nil => exact leaves.refl s
  | cons entry rest ih =>
      have origin : Left s (listingOrigin identity now response s entry).1 := by
        unfold listingOrigin
        split
        · exact leaves.refl s
        · split
          · exact leaves.refl s
          · exact leaves.looked s entry.responseId
      simp only [mcpListingsLoop]
      split
      · exact ih s found
      · exact leaves.trans origin (ih _ _)

theorem Leaves.history (leaves : Leaves ttl identity now Left) (s : Store) (response : Json) (position : Position) :
    Left s (historyAsync ttl identity now s response position).1 := by
  have read := leaves.trans (leaves.refreshed s position.log) (leaves.entries _ position.log position.depth)
  unfold historyAsync
  split
  · rename_i found
    rw [found] at read
    exact read
  · rename_i middle path found
    rw [found] at read
    exact leaves.trans read (leaves.listings response middle .empty path.reverse)

end

-- Where nothing expires, reading changes nothing.
theorem timeless_leaves (identity : String) (now : Int) : Leaves none identity now fun s t => s.Timeless → t = s := by
  constructor
  · exact fun _ _ => rfl
  · intro s t u first second timeless
    have same := first timeless
    rw [← same] at timeless ⊢
    exact second timeless
  · intro s log depth timeless
    rw [MemoryStoreActor.readRange_timeless timeless]
  · exact fun _ _ _ => rfl
  · intro s responseId timeless
    rw [readRecord_timeless timeless]

end Modelship.ResponsesState

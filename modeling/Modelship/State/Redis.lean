import Mathlib.Algebra.Group.Nat.Defs
import Modelship.Foundation.Glob
import Modelship.Foundation.Rounding
import Modelship.Foundation.Runs
import Modelship.State.Shelf

namespace Modelship.State
open Foundation Function

-- `json.dumps` and `json.loads`.
structure Codec (Value : Type) where
  dumps : Value → String
  loads : String → Option Value
  round : ∀ value, loads (dumps value) = some value

inductive Content where
  | string (text : String)
  | stream (entries : List (Nat × String))
  deriving DecidableEq

structure Item where
  content : Content
  expireAt : Option Int
  deriving DecidableEq

def Item.expired (item : Item) (now : Int) : Bool :=
  match item.expireAt with
  | none => false
  | some deadline => deadline ≤ now

-- A Redis database, with the commands the store sends it. Of a stream's ids only the
-- first half is kept: the second is always 0.
structure Redis where
  db : Dict String Item

namespace Redis

def find (r : Redis) (now : Int) (key : String) : Option Item := (r.db.get? key).filter (fun item => !item.expired now)

def write (r : Redis) (key : String) (item : Item) : Redis := {r with db := r.db.set key item}

-- An expiry is a signed 64-bit number of milliseconds: a command that gives a later one fails.
def timely (now : Int) (px : Option Int) : Bool := px.all (now + · < 2^63)

-- `SET`, which drops the key's expiry where it is given none.
def set (r : Redis) (now : Int) (key text : String) (px : Option Int) : Option Redis :=
  if timely now px then some (r.write key ⟨.string text,px.map (now + ·)⟩) else none

def delete (r : Redis) (key : String) : Redis := {r with db := r.db.erase key}

def pexpire (r : Redis) (now : Int) (key : String) (px : Int) : Option Redis :=
  if timely now (some px) then
    match r.find now key with
    | none => some r
    | some item => some (r.write key {item with expireAt := some (now + px)})
  else none

def touch (r : Redis) (now : Int) (key : String) (px : Option Int) : Option Redis :=
  match px with
  | some px => r.pexpire now key px
  | none => some r

-- An id of a stream is a 64-bit number, and 0-0 is none.
def streamId (id : Nat) : Bool := 1 ≤ id && id < 2^64

-- A bound of a range may be 0-0 too.
def rangeId (id : Int) : Bool := 0 ≤ id && id < 2^64

inductive Added where
  | added (r : Redis)
  | smaller
  | error

-- `XADD` leaves the key's expiry as it is.
def xadd (r : Redis) (now : Int) (key : String) (id : Nat) (text : String) : Added :=
  if !streamId id then .error else
  match r.find now key with
  | none => .added (r.write key ⟨.stream [(id,text)],none⟩)
  | some ⟨.string _,_⟩ => .error
  | some ⟨.stream entries,expireAt⟩ =>
    if MemoryStoreActor.taken entries id then .smaller else
    .added (r.write key ⟨.stream (entries ++ [(id,text)]),expireAt⟩)

def scan (r : Redis) (now : Int) (pattern : String) : List String :=
  (r.db.entries.filter (fun entry => Glob.glob pattern.toList entry.1.toList && !entry.2.expired now)).map Prod.fst

end Redis

-- The names a namespace may have: `_NAMESPACE.fullmatch`.
def namespaceChar (c : Char) : Bool :=
  'A' ≤ c && c ≤ 'Z' || 'a' ≤ c && c ≤ 'z' || '0' ≤ c && c ≤ '9' || c = '.' || c = '_' || c = '-'

structure RedisStateStore (Value : Type) where
  name : Option String
  valid : ∀ part, name = some part → part ≠ "" ∧ ∀ c ∈ part.toList, namespaceChar c = true
  codec : Codec Value

namespace RedisStateStore

def root (store : RedisStateStore Value) : String :=
  match store.name with
  | none => "modelship/state/"
  | some part => "modelship/state/" ++ part ++ "/"

def slug (store : RedisStateStore Value) (key : String) : String := store.root ++ normal key

def unslug (store : RedisStateStore Value) (keys : List String) (under : String) : List String :=
  (keys.map (fun key => String.ofList (key.toList.drop store.root.toList.length))).filter (fun key => inNamespace key under)

-- The caller gives the ttl in seconds, as a double: the one nearest to so many milliseconds.
def milliseconds (ttl : Int) : Int := max 1 (truncate (roundDouble (1000 * roundDouble (ttl / 1000))))

def px (ttl : Option Int) : Option Int := ttl.map milliseconds

-- Whole seconds are kept as they are.
theorem milliseconds_seconds {seconds : Nat} (some_ : 0 < seconds) (small : 1000 * seconds < 2 ^ 53) :
    milliseconds (1000 * seconds) = 1000 * seconds := by
  unfold milliseconds
  have read : (((1000 * seconds : Int) : Rat) / 1000) = (seconds : Nat) := by
    push_cast
    rw [mul_div_cancel_left₀ _ (by norm_num)]
  have product : (1000 * (seconds : Rat)) = ((1000 * seconds : Nat) : Rat) := by
    push_cast
    rfl
  rw [read,roundDouble_whole (by omega),product,roundDouble_whole small]
  have whole := truncate_whole ((1000 * seconds : Nat) : Int)
  rw [Int.cast_natCast] at whole
  rw [whole]
  push_cast
  omega

-- 1.001 s is no double, and 1000 times the nearest one is less than 1001.
example : milliseconds 1001 = 1000 := by decide +kernel

def get (store : RedisStateStore Value) (r : Redis) (now : Int) (key : String) : Result Value :=
  match r.find now (store.slug key) with
  | none => .cell none
  | some ⟨.string text,_⟩ => .cell ((store.codec.loads text).map .value)
  | some ⟨.stream _,_⟩ => .raised

def list (store : RedisStateStore Value) (r : Redis) (now : Int) (under : String) : List String :=
  let under := normalizePrefix under
  store.unslug (r.scan now (store.slug under ++ "*")) under

def append (store : RedisStateStore Value) (r : Redis) (now : Int) (key : String) (position : Nat) (value : Value)
    (ttl : Option Int) : Redis × Result Value :=
  match r.xadd now (store.slug key) position (store.codec.dumps value) with
  | .smaller => (r,.accepted false)
  | .error => (r,.raised)
  | .added r =>
    match r.touch now (store.slug key) (px ttl) with
    | some r => (r,.accepted true)
    | none => (r,.raised)

-- The three commands of one `EXEC`, all of which run even where one fails.
def exec (store : RedisStateStore Value) (r : Redis) (now : Int) (log : String) (position : Nat) (entry : Value)
    (record : String) (value : Value) (ttl : Option Int) : Redis × Result Value :=
  let (r,added) := match r.xadd now log position (store.codec.dumps entry) with
    | .added r => (r,true)
    | _ => (r,false)
  let touched := r.touch now log (px ttl)
  let r := touched.getD r
  let written := r.set now record (store.codec.dumps value) (px ttl)
  (written.getD r,if added && touched.isSome && written.isSome then .accepted true else .raised)

-- No other client writes between the `WATCH` and the `EXEC`: an operation is one step.
def appendAndSet (store : RedisStateStore Value) (r : Redis) (now : Int) (logKey : String) (position : Nat) (entry : Value)
    (key : String) (value : Value) (ttl : Option Int) (ifExists : Bool) : Redis × Result Value :=
  if ifExists && (r.find now (store.slug key)).isNone then (r,.accepted false) else
  match r.find now (store.slug logKey) with
  | some ⟨.string _,_⟩ => (r,.raised)
  | some ⟨.stream entries,_⟩ =>
    if MemoryStoreActor.taken entries position then (r,.accepted false)
    else store.exec r now (store.slug logKey) position entry (store.slug key) value ttl
  | none => store.exec r now (store.slug logKey) position entry (store.slug key) value ttl

def readRange (store : RedisStateStore Value) (r : Redis) (now : Int) (key : String) (start : Int) (stop : Option Int) :
    Result Value :=
  if !(Redis.rangeId start && stop.all Redis.rangeId) then .raised else
  match r.find now (store.slug key) with
  | none => .values []
  | some ⟨.string _,_⟩ => .raised
  | some ⟨.stream entries,_⟩ =>
    .values ((entries.filter (fun entry => MemoryStoreActor.inRange start stop entry.1)).filterMap
      (fun entry => store.codec.loads entry.2))

def perform (store : RedisStateStore Value) (r : Redis) (now : Int) : Op Value → Redis × Result Value
  | .get key => (r,store.get r now key)
  | .set key value ttl =>
    match r.set now (store.slug key) (store.codec.dumps value) (px ttl) with
    | some r => (r,.done)
    | none => (r,.raised)
  | .delete key => (r.delete (store.slug key),.done)
  | .list under => (r,.keys (store.list r now under))
  | .append key position value ttl => store.append r now key position value ttl
  | .appendAndSet logKey position entry key value ttl ifExists =>
    store.appendAndSet r now logKey position entry key value ttl ifExists
  | .readRange key start stop => (r,store.readRange r now key start stop)
  | .expire key ttl =>
    match r.pexpire now (store.slug key) (milliseconds ttl) with
    | some r => (r,.done)
    | none => (r,.raised)

-- How the database keeps what a shelf holds.
def cell (store : RedisStateStore Value) : Cell Value → Content
  | .value value => .string (store.codec.dumps value)
  | .log entries => .stream (entries.map (fun entry => (entry.1,store.codec.dumps entry.2)))

def item (store : RedisStateStore Value) (held : Held Value) : Item := ⟨store.cell held.cell,held.expiresAt⟩

theorem item_filter (store : RedisStateStore Value) (held : Option (Held Value)) (now : Int) :
    (held.map store.item).filter (fun item => !item.expired now) =
      (held.filter (fun held => !held.expired now)).map store.item := by
  cases held with
  | none => rfl
  | some held =>
      have same : (store.item held).expired now = held.expired now := rfl
      cases gone : held.expired now <;> simp [Option.filter,same,gone]

theorem find_write (r : Redis) (now : Int) (key other : String) (item : Item) :
    (r.write key item).find now other =
      if other = key then (some item).filter (fun item => !item.expired now) else r.find now other := by
  unfold Redis.find Redis.write
  rw [Dict.get_set]
  by_cases same : key = other
  · rw [if_pos same,if_pos same.symm]
  · rw [if_neg same,if_neg (Ne.symm same)]

theorem find_delete (r : Redis) (now : Int) (key other : String) :
    (r.delete key).find now other = if other = key then none else r.find now other := by
  unfold Redis.find Redis.delete
  rw [Dict.get_erase]
  by_cases same : key = other
  · rw [if_pos same,if_pos same.symm]; rfl
  · rw [if_neg same,if_neg (Ne.symm same)]

theorem find_later (r : Redis) {now later : Int} (passed : now ≤ later) (key : String) :
    r.find later key = (r.find now key).filter (fun item => !item.expired later) := by
  unfold Redis.find
  cases r.db.get? key with
  | none => rfl
  | some item =>
      have gone : item.expired now = true → item.expired later = true :=
        Shelf.expired_later ⟨.value (),item.expireAt⟩ passed
      cases now_ : item.expired now with
      | true => simp [Option.filter,now_,gone now_]
      | false => simp [Option.filter,now_]

theorem slug_inj {store : RedisStateStore Value} {key other : String} (one : normal key = key) (two : normal other = other) :
    store.slug key = store.slug other ↔ key = other := by
  unfold slug
  rw [one,two]
  exact String.append_right_inj _

-- The database holds what the shelf holds, each key under its slug, and nothing else; and of
-- a key that is used as a log the shelf holds a log, of any other a value.
structure Mirrors (store : RedisStateStore Value) (logs : String → Bool) (now : Int) (shelf : Shelf Value) (r : Redis) :
    Prop where
  found : ∀ key, normal key = key → r.find now (store.slug key) = (shelf.look now key).map store.item
  known : ∀ path, r.find now path ≠ none → ∃ key, normal key = key ∧ path = store.slug key
  tidy : ∀ key, shelf.look now key ≠ none → normal key = key
  kinds : ∀ key held, shelf.look now key = some held → (logs key = true ↔ ∃ entries, held.cell = .log entries)

section
variable {store : RedisStateStore Value} {logs : String → Bool} {now : Int} {shelf other : Shelf Value} {r : Redis}

theorem Mirrors.alike (mirrors : Mirrors store logs now shelf r) (alike : Shelf.Alike now shelf other) :
    Mirrors store logs now other r := by
  obtain ⟨found,known,tidy,kinds⟩ := mirrors
  refine ⟨?_,known,?_,?_⟩
  · intro key tidily
    rw [← alike key]
    exact found key tidily
  · intro key there
    rw [← alike key] at there
    exact tidy key there
  · intro key held there
    rw [← alike key] at there
    exact kinds key held there

theorem Mirrors.later (mirrors : Mirrors store logs now shelf r) (later : Int) (passed : now ≤ later) :
    Mirrors store logs later shelf r := by
  obtain ⟨found,known,tidy,kinds⟩ := mirrors
  have still : ∀ key held, shelf.look later key = some held → shelf.look now key = some held := by
    intro key held there
    rw [Shelf.look_later shelf passed] at there
    exact (Option.filter_eq_some_iff.mp there).1
  refine ⟨?_,?_,?_,?_⟩
  · intro key tidily
    rw [find_later r passed,found key tidily,Shelf.look_later shelf passed,item_filter]
  · intro path there
    apply known path
    intro gone
    rw [find_later r passed,gone] at there
    exact there rfl
  · intro key there
    obtain ⟨held,there⟩ := Option.ne_none_iff_exists'.mp there
    apply tidy key
    rw [still key held there]
    simp
  · intro key held there
    exact kinds key held (still key held there)

-- A key is written on both sides.
theorem Mirrors.puts (mirrors : Mirrors store logs now shelf r) {key : String} (tidily : normal key = key) (cell : Cell Value)
    (kind : logs key = true ↔ ∃ entries, cell = .log entries) (expiresAt : Option Int) :
    Mirrors store logs now (shelf.put key cell expiresAt)
      (r.write (store.slug key) ⟨store.cell cell,expiresAt⟩) := by
  obtain ⟨found,known,tidy,kinds⟩ := mirrors
  refine ⟨?_,?_,?_,?_⟩
  · intro other neat
    rw [find_write,Shelf.look_put]
    by_cases same : other = key
    · rw [if_pos (congrArg store.slug same),if_pos same,← item_filter]
      rfl
    · rw [if_neg (fun equal => same ((slug_inj neat tidily).mp equal)),if_neg same]
      exact found other neat
  · intro path there
    rw [find_write] at there
    split at there
    case isTrue same => exact ⟨key,tidily,same⟩
    case isFalse => exact known path there
  · intro other there
    rw [Shelf.look_put] at there
    split at there
    case isTrue same =>
      rw [same]
      exact tidily
    case isFalse => exact tidy other there
  · intro other held there
    rw [Shelf.look_put] at there
    split at there
    case isTrue same =>
      subst same
      cases (Option.filter_eq_some_iff.mp there).1
      exact kind
    case isFalse => exact kinds other held there

theorem Mirrors.removes (mirrors : Mirrors store logs now shelf r) {key : String} (tidily : normal key = key) :
    Mirrors store logs now (update shelf key none) (r.delete (store.slug key)) := by
  obtain ⟨found,known,tidy,kinds⟩ := mirrors
  refine ⟨?_,?_,?_,?_⟩
  · intro other neat
    rw [find_delete,Shelf.look_remove]
    by_cases same : other = key
    · rw [if_pos (congrArg store.slug same),if_pos same]
      rfl
    · rw [if_neg (fun equal => same ((slug_inj neat tidily).mp equal)),if_neg same]
      exact found other neat
  · intro path there
    rw [find_delete] at there
    split at there
    · exact absurd rfl there
    · exact known path there
  · intro other there
    rw [Shelf.look_remove] at there
    split at there
    · exact absurd rfl there
    · exact tidy other there
  · intro other held there
    rw [Shelf.look_remove] at there
    split at there
    · cases there
    · exact kinds other held there

theorem Mirrors.congr (mirrors : Mirrors store logs now shelf r) {t : Redis} (same : ∀ path, t.find now path = r.find now path) :
    Mirrors store logs now shelf t := by
  obtain ⟨found,known,tidy,kinds⟩ := mirrors
  refine ⟨?_,?_,tidy,kinds⟩
  · intro key tidily
    rw [same]
    exact found key tidily
  · intro path there
    rw [same] at there
    exact known path there

-- A ttl that the two stores read alike, and that ends in time.
def kept (now : Int) (ttl : Option Int) : Bool := px ttl = ttl && Redis.timely now ttl

theorem kept_px {now : Int} {ttl : Option Int} (alike : kept now ttl = true) :
    px ttl = ttl ∧ Redis.timely now ttl = true := by
  simpa [kept] using alike

-- An item that is written and then given the ttl of its write.
theorem touch_kept (r : Redis) {now : Int} {content : Content} {expireAt ttl : Option Int} (alike : kept now ttl = true)
    (live : Item.expired ⟨content,expireAt⟩ now = false) (key : String) :
    ∃ t, (r.write key ⟨content,expireAt⟩).touch now key (px ttl) = some t ∧ ∀ path, t.find now path =
      (r.write key ⟨content,if ttl = none then expireAt else MemoryStoreActor.deadline now ttl⟩).find now path := by
  obtain ⟨same,timely⟩ := kept_px alike
  rw [same]
  cases ttl with
  | none => exact ⟨_,rfl,fun _ => rfl⟩
  | some time =>
      have here : (r.write key ⟨content,expireAt⟩).find now key = some ⟨content,expireAt⟩ := by
        rw [find_write,if_pos rfl]
        simp [Option.filter,live]
      refine ⟨_,by simp only [Redis.touch,Redis.pexpire,timely,here,if_true]; rfl,?_⟩
      intro path
      rw [find_write,find_write,find_write]
      split <;> rfl

-- A key that is used as a log.
theorem Mirrors.stream (mirrors : Mirrors store logs now shelf r) {key : String} (tidily : normal key = key)
    (log : logs key = true) :
    (shelf.look now key = none ∧ r.find now (store.slug key) = none) ∨
    ∃ entries expiresAt, shelf.look now key = some ⟨.log entries,expiresAt⟩ ∧
      r.find now (store.slug key) = some ⟨store.cell (.log entries),expiresAt⟩ := by
  have found := mirrors.found key tidily
  cases look : shelf.look now key with
  | none =>
      rw [look] at found
      exact .inl ⟨rfl,found⟩
  | some held =>
      obtain ⟨entries,same⟩ := (mirrors.kinds key held look).mp log
      obtain ⟨cell,expiresAt⟩ := held
      dsimp only at same
      subst same
      rw [look] at found
      exact .inr ⟨entries,expiresAt,rfl,found⟩

-- What has an expiry is not outlived by an append that gives none.
def outlives (shelf : Shelf Value) (now : Int) (key : String) (ttl : Option Int) : Prop :=
  ttl = none → (shelf.look now key).bind Held.expiresAt = none

theorem look_live {held : Held Value} {key : String} (there : shelf.look now key = some held) : held.expired now = false := by
  have := (Option.filter_eq_some_iff.mp there).2
  simpa using this

theorem Mirrors.grows (mirrors : Mirrors store logs now shelf r) {key : String} (tidily : normal key = key)
    (log : logs key = true) (position : Nat) (value : Value) {ttl : Option Int} (alike : kept now ttl = true)
    (lasting : outlives shelf now key ttl) :
    ∃ t, (r.write (store.slug key) ⟨store.cell (.log (shelf.logAt now key ++ [(position,value)])),
        (shelf.look now key).bind Held.expiresAt⟩).touch now (store.slug key) (px ttl) = some t ∧
      Mirrors store logs now (shelf.grown now key position value ttl) t := by
  have live : Item.expired ⟨store.cell (.log (shelf.logAt now key ++ [(position,value)])),
      (shelf.look now key).bind Held.expiresAt⟩ now = false := by
    cases look : shelf.look now key with
    | none => rfl
    | some held => exact look_live look
  have written := mirrors.puts tidily (.log (shelf.logAt now key ++ [(position,value)])) (by simp [log])
    (MemoryStoreActor.deadline now ttl)
  obtain ⟨t,touched,seen⟩ := touch_kept r alike live (store.slug key)
  refine ⟨t,touched,written.congr ?_⟩
  intro path
  rw [seen]
  have same : (if ttl = none then (shelf.look now key).bind Held.expiresAt else MemoryStoreActor.deadline now ttl) =
      MemoryStoreActor.deadline now ttl := by
    split
    case isTrue none_ =>
      rw [lasting none_,none_]
      rfl
    case isFalse => rfl
  rw [same]

end

def positive (ttl : Option Int) : Prop := ∀ time ∈ ttl, 0 < time

-- The operations a caller makes: paths without empty segments, each used as a value only or
-- as a log only, and a ttl of none or some milliseconds.
def Fits (logs : String → Bool) : Op Value → Prop
  | .get key => normal key = key ∧ logs key = false
  | .set key _ ttl => normal key = key ∧ logs key = false ∧ positive ttl
  | .delete key => normal key = key
  | .list _ => True
  | .append key _ _ ttl => normal key = key ∧ logs key = true ∧ positive ttl
  | .appendAndSet logKey _ _ key _ ttl _ =>
    normal logKey = logKey ∧ logs logKey = true ∧ normal key = key ∧ logs key = false ∧ positive ttl
  | .readRange key _ _ => normal key = key ∧ logs key = true
  | .expire key ttl => normal key = key ∧ 0 < ttl

end RedisStateStore

-- The two stores side by side under one clock, with the answers they have given.
structure Stores (Value : Type) where
  now : Int
  memory : MemoryStoreActor Value
  redis : Redis
  answers : List (Result Value × Result Value)

-- An operation, so many milliseconds after the last one.
structure Asked (Value : Type) where
  elapsed : Nat
  op : Op Value

def Stores.next (store : RedisStateStore Value) (s : Stores Value) (asked : Asked Value) : Option (Stores Value) :=
  let now := s.now + asked.elapsed
  let (memory,one) := s.memory.perform now asked.op
  let (redis,two) := store.perform s.redis now asked.op
  some ⟨now,memory,redis,s.answers ++ [(one,two)]⟩

def Stores.start (now sweepInterval : Int) : Stores Value := ⟨now,.start now sweepInterval,⟨.empty⟩,[]⟩

end Modelship.State

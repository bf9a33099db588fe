import Mathlib.Logic.Function.Basic
import Modelship.State.Memory

namespace Modelship.State
open Foundation Function

-- The operations of a `StateStore`. A ttl is in milliseconds.
inductive Op (Value : Type) where
  | get (key : String)
  | set (key : String) (value : Value) (ttl : Option Int)
  | delete (key : String)
  | list (under : String)
  | append (key : String) (position : Nat) (value : Value) (ttl : Option Int)
  | appendAndSet (logKey : String) (position : Nat) (entry : Value) (key : String) (value : Value) (ttl : Option Int)
      (ifExists : Bool)
  | readRange (key : String) (start : Int) (stop : Option Int)
  | expire (key : String) (ttl : Int)

inductive Result (Value : Type) where
  | done
  | cell (cell : Option (Cell Value))
  | keys (keys : List String)
  | accepted (accepted : Bool)
  | values (values : List Value)
  | raised
  deriving DecidableEq

def MemoryStoreActor.perform (s : MemoryStoreActor Value) (now : Int) : Op Value → MemoryStoreActor Value × Result Value
  | .get key => ((s.get key now).1,.cell (s.get key now).2)
  | .set key value ttl => (s.set key value ttl now,.done)
  | .delete key => (s.delete key,.done)
  | .list under => (s,.keys (s.list under now))
  | .append key position value ttl =>
    ((s.append key position value ttl now).1,.accepted (s.append key position value ttl now).2)
  | .appendAndSet logKey position entry key value ttl ifExists =>
    ((s.appendAndSet logKey position entry key value ttl ifExists now).1,
      .accepted (s.appendAndSet logKey position entry key value ttl ifExists now).2)
  | .readRange key start stop => ((s.readRange key start stop now).1,.values (s.readRange key start stop now).2)
  | .expire key ttl => (s.expire key ttl now,.done)

-- What a state store is: at each key what it holds and until when. A key that has expired
-- holds nothing, whether or not its entry is still there.
abbrev Shelf (Value : Type) := String → Option (Held Value)

namespace Shelf

def look (shelf : Shelf Value) (now : Int) (key : String) : Option (Held Value) :=
  (shelf key).filter (fun held => !held.expired now)

def logAt (shelf : Shelf Value) (now : Int) (key : String) : List (Nat × Value) :=
  match shelf.look now key with
  | some ⟨.log entries,_⟩ => entries
  | _ => []

def put (shelf : Shelf Value) (key : String) (cell : Cell Value) (expiresAt : Option Int) : Shelf Value :=
  update shelf key (some ⟨cell,expiresAt⟩)

-- Whether an append at `position` is refused.
def refuses (shelf : Shelf Value) (now : Int) (key : String) (position : Nat) : Bool :=
  MemoryStoreActor.taken (shelf.logAt now key) position

def grown (shelf : Shelf Value) (now : Int) (key : String) (position : Nat) (value : Value) (ttl : Option Int) :
    Shelf Value :=
  shelf.put key (.log (shelf.logAt now key ++ [(position,value)])) (MemoryStoreActor.deadline now ttl)

def declines (shelf : Shelf Value) (now : Int) (logKey : String) (position : Nat) (key : String) (ifExists : Bool) : Bool :=
  ifExists && (shelf.look now key).isNone || shelf.refuses now logKey position

def after (shelf : Shelf Value) (now : Int) : Op Value → Shelf Value
  | .get _ | .list _ | .readRange _ _ _ => shelf
  | .set key value ttl => shelf.put key (.value value) (MemoryStoreActor.deadline now ttl)
  | .delete key => update shelf key none
  | .append key position value ttl =>
    if shelf.refuses now key position then shelf else shelf.grown now key position value ttl
  | .appendAndSet logKey position entry key value ttl ifExists =>
    if shelf.declines now logKey position key ifExists then shelf else
    (shelf.grown now logKey position entry ttl).put key (.value value) (MemoryStoreActor.deadline now ttl)
  | .expire key ttl =>
    match shelf.look now key with
    | some held => shelf.put key held.cell (some (now + ttl))
    | none => shelf

-- The answer an operation gets; a listing in any order.
def answers (shelf : Shelf Value) (now : Int) : Op Value → Result Value → Prop
  | .get key,result => result = .cell ((shelf.look now key).map Held.cell)
  | .set _ _ _,result | .delete _,result | .expire _ _,result => result = .done
  | .list under,result => ∃ keys, result = .keys keys ∧
      ∀ key, key ∈ keys ↔ inNamespace key (normalizePrefix under) = true ∧ shelf.look now key ≠ none
  | .append key position _ _,result => result = .accepted (!shelf.refuses now key position)
  | .appendAndSet logKey position _ key _ _ ifExists,result =>
      result = .accepted (!shelf.declines now logKey position key ifExists)
  | .readRange key start stop,result => result = .values
      (((shelf.logAt now key).filter (fun entry => MemoryStoreActor.inRange start stop entry.1)).map Prod.snd)

-- Two shelves that no reader can tell apart from now on.
def Alike (now : Int) (one two : Shelf Value) : Prop := ∀ key, one.look now key = two.look now key

theorem Alike.refl (now : Int) (shelf : Shelf Value) : Alike now shelf shelf := fun _ => rfl

theorem Alike.symm {now : Int} {one two : Shelf Value} (alike : Alike now one two) : Alike now two one :=
  fun key => (alike key).symm

theorem Alike.trans {now : Int} {one two three : Shelf Value} (first : Alike now one two) (second : Alike now two three) :
    Alike now one three := fun key => (first key).trans (second key)

theorem expired_later (held : Held Value) {now later : Int} (passed : now ≤ later) (expired : held.expired now = true) :
    held.expired later = true := by
  unfold Held.expired at *
  split at expired
  · cases expired
  · simp only [decide_eq_true_eq] at expired ⊢
    omega

-- What is left later is left of what is there now.
theorem look_later (shelf : Shelf Value) {now later : Int} (passed : now ≤ later) (key : String) :
    shelf.look later key = (shelf.look now key).filter (fun held => !held.expired later) := by
  unfold look
  cases shelf key with
  | none => rfl
  | some held =>
      cases gone : held.expired now with
      | true => simp [Option.filter,gone,expired_later held passed gone]
      | false => simp [Option.filter,gone]

theorem Alike.later {now later : Int} {one two : Shelf Value} (alike : Alike now one two) (passed : now ≤ later) :
    Alike later one two := by
  intro key
  rw [look_later one passed,look_later two passed,alike key]

theorem look_put (shelf : Shelf Value) (now : Int) (key other : String) (cell : Cell Value) (expiresAt : Option Int) :
    (shelf.put key cell expiresAt).look now other =
      if other = key then (some (Held.mk cell expiresAt)).filter (fun held => !held.expired now) else shelf.look now other := by
  unfold look put
  rw [update_apply]
  split <;> rfl

theorem look_remove (shelf : Shelf Value) (now : Int) (key other : String) :
    look (update shelf key none) now other = if other = key then none else shelf.look now other := by
  unfold look
  rw [update_apply]
  split <;> rfl

theorem Alike.put {now : Int} {one two : Shelf Value} (alike : Alike now one two) (key : String) (cell : Cell Value)
    (expiresAt : Option Int) : Alike now (one.put key cell expiresAt) (two.put key cell expiresAt) := by
  intro other
  rw [look_put,look_put,alike other]

theorem Alike.log {now : Int} {one two : Shelf Value} (alike : Alike now one two) (key : String) :
    one.logAt now key = two.logAt now key := by
  unfold logAt
  rw [alike key]

theorem Alike.refuses {now : Int} {one two : Shelf Value} (alike : Alike now one two) (key : String) (position : Nat) :
    one.refuses now key position = two.refuses now key position := by
  unfold Shelf.refuses
  rw [alike.log key]

theorem Alike.declines {now : Int} {one two : Shelf Value} (alike : Alike now one two) (logKey : String) (position : Nat)
    (key : String) (ifExists : Bool) :
    one.declines now logKey position key ifExists = two.declines now logKey position key ifExists := by
  unfold Shelf.declines
  rw [alike.refuses,alike key]

theorem Alike.grown {now : Int} {one two : Shelf Value} (alike : Alike now one two) (key : String) (position : Nat)
    (value : Value) (ttl : Option Int) : Alike now (one.grown now key position value ttl) (two.grown now key position value ttl) := by
  unfold Shelf.grown
  rw [alike.log key]
  exact alike.put key _ _

-- An operation keeps two shelves alike and gets the same answer from both.
theorem Alike.after {now : Int} {one two : Shelf Value} (alike : Alike now one two) (op : Op Value) :
    Alike now (one.after now op) (two.after now op) := by
  cases op with
  | get key => exact alike
  | list under => exact alike
  | readRange key start stop => exact alike
  | set key value ttl => exact alike.put key _ _
  | delete key =>
      intro other
      unfold Shelf.after
      dsimp only
      rw [look_remove,look_remove,alike other]
  | append key position value ttl =>
      unfold Shelf.after
      dsimp only
      rw [alike.refuses]
      split
      · exact alike
      · exact alike.grown key position value ttl
  | appendAndSet logKey position entry key value ttl ifExists =>
      unfold Shelf.after
      dsimp only
      rw [alike.declines]
      split
      · exact alike
      · exact (alike.grown logKey position entry ttl).put key _ _
  | expire key ttl =>
      unfold Shelf.after
      dsimp only
      rw [alike key]
      cases two.look now key with
      | none => exact alike
      | some held => exact alike.put key _ _

theorem Alike.answers {now : Int} {one two : Shelf Value} (alike : Alike now one two) {op : Op Value} {result : Result Value}
    (answered : one.answers now op result) : two.answers now op result := by
  cases op with
  | get key => exact answered.trans (by rw [alike key])
  | set key value ttl => exact answered
  | delete key => exact answered
  | expire key ttl => exact answered
  | list under =>
      obtain ⟨keys,same,all⟩ := answered
      refine ⟨keys,same,?_⟩
      intro key
      rw [all,alike key]
  | append key position value ttl => exact answered.trans (by rw [alike.refuses])
  | appendAndSet logKey position entry key value ttl ifExists => exact answered.trans (by rw [alike.declines])
  | readRange key start stop => exact answered.trans (by rw [alike.log])

end Shelf

namespace MemoryStoreActor

def shelf (s : MemoryStoreActor Value) : Shelf Value := s.data.get?

-- Where the record is asked for first, the read drops it if it has expired.
def looked (s : MemoryStoreActor Value) (key : String) (ifExists : Bool) (now : Int) : MemoryStoreActor Value :=
  if ifExists then (s.live key now).1 else s

end MemoryStoreActor
end Modelship.State

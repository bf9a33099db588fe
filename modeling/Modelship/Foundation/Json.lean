import Mathlib.Data.List.Basic

namespace Foundation

-- A decoded JSON value. An object keeps its fields in insertion order; a field
-- that is absent and one that holds `null` differ only in `find?`.
inductive Json where
  | null
  | bool (value : Bool)
  | num (value : Int)
  | str (value : String)
  | arr (values : List Json)
  | obj (fields : List (String × Json))
  deriving Repr

namespace Json

mutual
def decEq : (a b : Json) → Decidable (a = b)
  | .null,.null => isTrue rfl
  | .bool x,.bool y => decidable_of_iff (x = y) (by simp)
  | .num x,.num y => decidable_of_iff (x = y) (by simp)
  | .str x,.str y => decidable_of_iff (x = y) (by simp)
  | .arr xs,.arr ys => match decEqValues xs ys with
    | isTrue equal => isTrue (by rw [equal])
    | isFalse different => isFalse (by intro equal; cases equal; exact different rfl)
  | .obj xs,.obj ys => match decEqFields xs ys with
    | isTrue equal => isTrue (by rw [equal])
    | isFalse different => isFalse (by intro equal; cases equal; exact different rfl)
  | .null,.bool _ | .null,.num _ | .null,.str _ | .null,.arr _ | .null,.obj _
  | .bool _,.null | .bool _,.num _ | .bool _,.str _ | .bool _,.arr _ | .bool _,.obj _
  | .num _,.null | .num _,.bool _ | .num _,.str _ | .num _,.arr _ | .num _,.obj _
  | .str _,.null | .str _,.bool _ | .str _,.num _ | .str _,.arr _ | .str _,.obj _
  | .arr _,.null | .arr _,.bool _ | .arr _,.num _ | .arr _,.str _ | .arr _,.obj _
  | .obj _,.null | .obj _,.bool _ | .obj _,.num _ | .obj _,.str _ | .obj _,.arr _ =>
    isFalse (by intro equal; cases equal)
def decEqValues : (xs ys : List Json) → Decidable (xs = ys)
  | [],[] => isTrue rfl
  | [],_ :: _ | _ :: _,[] => isFalse (by intro equal; cases equal)
  | x :: xs,y :: ys => match decEq x y,decEqValues xs ys with
    | isTrue head,isTrue tail => isTrue (by rw [head,tail])
    | isFalse different,_ => isFalse (by intro equal; cases equal; exact different rfl)
    | _,isFalse different => isFalse (by intro equal; cases equal; exact different rfl)
def decEqFields : (xs ys : List (String × Json)) → Decidable (xs = ys)
  | [],[] => isTrue rfl
  | [],_ :: _ | _ :: _,[] => isFalse (by intro equal; cases equal)
  | (k,x) :: xs,(l,y) :: ys => match (inferInstance : Decidable (k = l)),decEq x y,decEqFields xs ys with
    | isTrue key,isTrue head,isTrue tail => isTrue (by rw [key,head,tail])
    | isFalse different,_,_ => isFalse (by intro equal; cases equal; exact different rfl)
    | _,isFalse different,_ => isFalse (by intro equal; cases equal; exact different rfl)
    | _,_,isFalse different => isFalse (by intro equal; cases equal; exact different rfl)
end

instance : DecidableEq Json := decEq

def fields : Json → List (String × Json)
  | .obj fields => fields
  | _ => []

-- The field `name` where the value is an object that has it.
def find? (value : Json) (name : String) : Option Json :=
  (value.fields.find? (·.1 == name)).map (·.2)

-- `value.get(name)`: an absent field reads as null.
def get (value : Json) (name : String) : Json := (value.find? name).getD .null

-- The object with `name` set: in place where it has the field, last where not.
def setField (name : String) (new : Json) : List (String × Json) → List (String × Json)
  | [] => [(name,new)]
  | (key,old) :: rest => if key == name then (key,new) :: rest else (key,old) :: setField name new rest

def set (value : Json) (name : String) (new : Json) : Json := .obj (setField name new value.fields)

def truthy : Json → Bool
  | .null => false
  | .bool value => value
  | .num value => value != 0
  | .str value => value != ""
  | .arr values => !values.isEmpty
  | .obj fields => !fields.isEmpty

def str? : Json → Option String
  | .str value => some value
  | _ => none

-- `value.get(name) or []` read as a list of values.
def items (value : Json) (name : String) : List Json :=
  match value.get name with
  | .arr values => values
  | _ => []

theorem find_setField (name other : String) (new : Json) (fields : List (String × Json)) :
    ((setField name new fields).find? (·.1 == other)).map (·.2) =
      if name = other then some new else (fields.find? (·.1 == other)).map (·.2) := by
  induction fields with
  | nil => by_cases same : name = other <;> simp [setField,same]
  | cons head rest ih =>
      obtain ⟨key,old⟩ := head
      by_cases here : key = name
      · subst key
        by_cases same : name = other <;> simp [setField,same]
      · by_cases there : key = other
        · have apart : name ≠ other := fun equal => here (there.trans equal.symm)
          simp [setField,there,apart]
          simp [← there,here]
        · simp [setField,here,there,ih]

@[simp] theorem find_set (value : Json) (name other : String) (new : Json) :
    (value.set name new).find? other = if name = other then some new else value.find? other :=
  find_setField name other new value.fields

@[simp] theorem get_set (value : Json) (name other : String) (new : Json) :
    (value.set name new).get other = if name = other then new else value.get other := by
  unfold get
  rw [find_set]
  split <;> rfl

end Json
end Foundation

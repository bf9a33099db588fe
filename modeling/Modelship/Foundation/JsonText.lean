import Mathlib.Data.List.TakeWhile
import Modelship.Foundation.Dumps
import Modelship.Foundation.Lines

namespace Foundation.JsonText

-- `json.dumps` as it is, with the fields in their order.
mutual
def written : Json → List Char
  | .null => "null".toList
  | .bool true => "true".toList
  | .bool false => "false".toList
  | .num value => if value < 0 then '-' :: padded 0 value.natAbs else padded 0 value.natAbs
  | .str value => dumpsText value.toList
  | .arr values => '[' :: writtenValues values ++ [']']
  | .obj fields => '{' :: writtenFields fields ++ ['}']
def writtenValues : List Json → List Char
  | [] => []
  | [value] => written value
  | value :: rest => written value ++ ',' :: ' ' :: writtenValues rest
def writtenFields : List (String × Json) → List Char
  | [] => []
  | [field] => dumpsText field.1.toList ++ ':' :: ' ' :: written field.2
  | field :: rest => dumpsText field.1.toList ++ ':' :: ' ' :: written field.2 ++ ',' :: ' ' :: writtenFields rest
end

def blank (c : Char) : Bool := c = ' ' || c = '\t' || c = '\n' || c = '\r'

def skip (text : List Char) : List Char := text.dropWhile blank

def readEscape (letter : Char) : Option Char := if letter = '/' then some '/' else readShort letter

-- One character of a string, escaped or not. A lone surrogate is no character.
def readOne : List Char → Option (Char × List Char)
  | '\\' :: letter :: rest =>
    if letter = 'u' then (readUnit ('\\' :: letter :: rest)).bind fun first =>
      if 0xd800 ≤ first.1 ∧ first.1 < 0xdc00 then (readUnit first.2).bind fun second =>
        if 0xdc00 ≤ second.1 ∧ second.1 < 0xe000 then
          some (Char.ofNat (0x10000 + (first.1 - 0xd800) * 0x400 + (second.1 - 0xdc00)),second.2)
        else none
      else if 0xdc00 ≤ first.1 ∧ first.1 < 0xe000 then none else some (Char.ofNat first.1,first.2)
    else (readEscape letter).map (·,rest)
  | c :: rest => if c.toNat < 32 ∨ c = '\\' ∨ c = '"' then none else some (c,rest)
  | [] => none

-- A string from after its first quotation mark to after its last.
def scanText : Nat → List Char → Option (List Char × List Char)
  | 0,_ => none
  | _ + 1,'"' :: rest => some ([],rest)
  | fuel + 1,text => do
    let (c,rest) ← readOne text
    let (cs,rest) ← scanText fuel rest
    return (c :: cs,rest)

def readNatural : List Char → Option (Nat × List Char)
  | '0' :: rest => some (0,rest)
  | text => (numeral 10 (text.takeWhile Char.isDigit)).map (·,text.dropWhile Char.isDigit)

-- `dict` of the pairs: a key again takes the place of the one before.
def collected (fields : List (String × Json)) : List (String × Json) :=
  fields.foldl (fun made field => Json.setField field.1 field.2 made) []

mutual
def readValue : Nat → List Char → Option (Json × List Char)
  | 0,_ => none
  | fuel + 1,text => match text with
    | '"' :: rest => (scanText (rest.length + 1) rest).map fun read => (.str (String.ofList read.1),read.2)
    | '[' :: rest => match skip rest with
      | ']' :: rest => some (.arr [],rest)
      | rest => (readValues fuel rest).map fun read => (.arr read.1,read.2)
    | '{' :: rest => match skip rest with
      | '}' :: rest => some (.obj [],rest)
      | rest => (readFields fuel rest).map fun read => (.obj (collected read.1),read.2)
    | 'n' :: 'u' :: 'l' :: 'l' :: rest => some (.null,rest)
    | 't' :: 'r' :: 'u' :: 'e' :: rest => some (.bool true,rest)
    | 'f' :: 'a' :: 'l' :: 's' :: 'e' :: rest => some (.bool false,rest)
    | '-' :: rest => (readNatural rest).map fun read => (.num (-(read.1 : Int)),read.2)
    | text => (readNatural text).map fun read => (.num read.1,read.2)
def readValues : Nat → List Char → Option (List Json × List Char)
  | 0,_ => none
  | fuel + 1,text => do
    let (value,rest) ← readValue fuel text
    match skip rest with
    | ']' :: rest => return ([value],rest)
    | ',' :: rest => do
      let (values,rest) ← readValues fuel (skip rest)
      return (value :: values,rest)
    | _ => none
def readFields : Nat → List Char → Option (List (String × Json) × List Char)
  | 0,_ => none
  | fuel + 1,text => match text with
    | '"' :: rest => do
      let (key,rest) ← scanText (rest.length + 1) rest
      match skip rest with
      | ':' :: rest => do
        let (value,rest) ← readValue fuel (skip rest)
        match skip rest with
        | '}' :: rest => return ([(String.ofList key,value)],rest)
        | ',' :: rest => do
          let (fields,rest) ← readFields fuel (skip rest)
          return ((String.ofList key,value) :: fields,rest)
        | _ => none
      | _ => none
    | _ => none
end

-- `json.loads`.
def loads (text : List Char) : Option Json := (readValue (text.length + 1) (skip text)).bind fun read =>
  if skip read.2 = [] then some read.1 else none

-- A value as Python holds it: no object has a key twice.
mutual
def Proper : Json → Prop
  | .arr values => ProperValues values
  | .obj fields => (fields.map Prod.fst).Nodup ∧ ProperFields fields
  | _ => True
def ProperValues : List Json → Prop
  | [] => True
  | value :: rest => Proper value ∧ ProperValues rest
def ProperFields : List (String × Json) → Prop
  | [] => True
  | field :: rest => Proper field.2 ∧ ProperFields rest
end

-- What may follow a number.
def Stops (text : List Char) : Prop := ∀ c rest, text = c :: rest → c.isDigit = false

theorem stops_cons {c : Char} {rest : List Char} (stop : c.isDigit = false) : Stops (c :: rest) := by
  intro first others same
  cases same
  exact stop

theorem readEscape_shortEscape {c letter : Char} (escaped : shortEscape c = some letter) :
    readEscape letter = some c ∧ letter ≠ 'u' := by
  unfold shortEscape at escaped
  repeat' split at escaped
  all_goals first | cases escaped; subst c; decide | cases escaped

theorem readOne_unit {unit : Nat} (small : unit < 0x10000) (rest : List Char) :
    readOne (escapeUnit unit ++ rest) =
      if 0xd800 ≤ unit ∧ unit < 0xdc00 then (readUnit rest).bind fun second =>
        if 0xdc00 ≤ second.1 ∧ second.1 < 0xe000 then
          some (Char.ofNat (0x10000 + (unit - 0xd800) * 0x400 + (second.1 - 0xdc00)),second.2)
        else none
      else if 0xdc00 ≤ unit ∧ unit < 0xe000 then none else some (Char.ofNat unit,rest) := by
  have read := readUnit_escapeUnit small rest
  simp only [escapeUnit,List.cons_append,List.nil_append] at read ⊢
  simp only [readOne,if_true,read,Option.bind_some]

theorem readOne_escapeChar (c : Char) (rest : List Char) : readOne (escapeChar c ++ rest) = some (c,rest) := by
  have valid : c.toNat < 0xd800 ∨ 0xdfff < c.toNat ∧ c.toNat < 0x110000 := c.valid
  unfold escapeChar
  split
  · rename_i letter escaped
    obtain ⟨read,apart⟩ := readEscape_shortEscape escaped
    simp only [List.cons_append,List.nil_append,readOne,if_neg apart,read,Option.map_some]
  · rename_i unescaped
    obtain ⟨quote,slash⟩ := shortEscape_none unescaped
    split
    · rename_i printed
      have large : ¬c.toNat < 32 := Nat.not_lt.mpr printed.1
      rw [List.cons_append,List.nil_append]
      unfold readOne
      split
      · rename_i same
        cases same
        exact absurd rfl slash
      · rename_i same
        cases same
        rw [if_neg (by simp [large,slash,quote])]
      · rename_i same
        cases same
    · split
      · rename_i small
        rw [readOne_unit small,if_neg (by omega),if_neg (by omega),Char.ofNat_toNat]
      · dsimp only
        have whole : 0x10000 + (0xd800 + (c.toNat - 0x10000) / 0x400 - 0xd800) * 0x400 +
            (0xdc00 + (c.toNat - 0x10000) % 0x400 - 0xdc00) = c.toNat := by omega
        rw [List.append_assoc,readOne_unit (by omega),if_pos (by omega),readUnit_escapeUnit (by omega),Option.bind_some,
          if_pos (by omega),whole,Char.ofNat_toNat]

theorem scanText_escaped {cs : List Char} {fuel : Nat} (enough : cs.length < fuel) (rest : List Char) :
    scanText fuel (cs.flatMap escapeChar ++ '"' :: rest) = some (cs,rest) := by
  induction cs generalizing fuel with
  | nil =>
      obtain ⟨fuel,rfl⟩ := Nat.exists_eq_succ_of_ne_zero (Nat.pos_iff_ne_zero.mp enough)
      rfl
  | cons c cs ih =>
      obtain ⟨fuel,rfl⟩ := Nat.exists_eq_succ_of_ne_zero (Nat.pos_iff_ne_zero.mp (Nat.zero_lt_of_lt enough))
      have tail := ih (Nat.lt_of_succ_lt_succ enough)
      rw [List.flatMap_cons,List.append_assoc]
      unfold scanText
      split
      · rename_i zero
        cases zero
      · rename_i same
        exact absurd same (escapeChar_quote c _ _)
      · rename_i same _
        cases same
        rw [readOne_escapeChar]
        simp only [Option.bind_eq_bind,Option.bind_some,tail]
        rfl

theorem escapeChar_ne_nil (c : Char) : escapeChar c ≠ [] := by
  intro empty
  have read := readOne_escapeChar c []
  rw [empty] at read
  cases read

theorem escaped_length (cs : List Char) : cs.length ≤ (cs.flatMap escapeChar).length := by
  induction cs with
  | nil => exact Nat.le_refl _
  | cons c cs ih =>
      have some_ := List.length_pos_of_ne_nil (escapeChar_ne_nil c)
      rw [List.flatMap_cons,List.length_append,List.length_cons]
      omega

-- A string as it is written, after its first quotation mark.
theorem scanText_dumps (cs rest : List Char) :
    scanText ((cs.flatMap escapeChar ++ '"' :: rest).length + 1) (cs.flatMap escapeChar ++ '"' :: rest) = some (cs,rest) := by
  have fits := escaped_length cs
  exact scanText_escaped (by rw [List.length_append]; omega) rest

theorem toDigits_lead {n : Nat} (positive : 0 < n) (rest : List Char) : Nat.toDigits 10 n ≠ '0' :: rest := by
  induction n using Nat.strongRecOn generalizing rest with
  | ind n ih =>
    by_cases small : n < 10
    · rw [Nat.toDigits_of_lt_base small]
      intro same
      have zero := Nat.digitChar_eq_zero.mp (List.cons.inj same).1
      omega
    · rw [Nat.toDigits_of_base_le (by decide) (Nat.not_lt.mp small)]
      intro same
      cases digits : Nat.toDigits 10 (n / 10) with
      | nil => exact Nat.toDigits_ne_nil digits
      | cons c cs =>
          rw [digits,List.cons_append] at same
          cases (List.cons.inj same).1
          exact ih (n / 10) (by omega) (by omega) cs digits

theorem readNatural_padded (n : Nat) {rest : List Char} (stops : Stops rest) :
    readNatural (padded 0 n ++ rest) = some (n,rest) := by
  by_cases zero : n = 0
  · subst zero
    rfl
  · have shape : padded 0 n = Nat.toDigits 10 n := by simp [padded]
    have digits : ∀ c ∈ padded 0 n, c.isDigit = true := fun c member => padded_digits member
    have done : rest.takeWhile Char.isDigit = [] ∧ rest.dropWhile Char.isDigit = rest := by
      cases rest with
      | nil => exact ⟨rfl,rfl⟩
      | cons c cs => simp [stops c cs rfl]
    unfold readNatural
    split
    · rename_i same
      cases text : padded 0 n with
      | nil => exact absurd text (padded_ne_nil 0 n)
      | cons c cs =>
          rw [text,List.cons_append] at same
          cases (List.cons.inj same).1
          exact absurd (shape ▸ text) (toDigits_lead (Nat.pos_of_ne_zero zero) cs)
    · rw [List.takeWhile_append_of_pos digits,List.dropWhile_append_of_pos digits,done.1,done.2,List.append_nil,numeral_padded]
      rfl

theorem skip_solid {c : Char} (solid : blank c = false) (rest : List Char) : skip (c :: rest) = c :: rest := by
  simp [skip,solid]

theorem skip_space {c : Char} (solid : blank c = false) (rest : List Char) : skip (' ' :: c :: rest) = c :: rest := by
  have space : blank ' ' = true := rfl
  simp [skip,solid,space]

theorem padded_first (n : Nat) : ∃ c rest, padded 0 n = c :: rest ∧ c.isDigit = true := by
  cases text : padded 0 n with
  | nil => exact absurd text (padded_ne_nil 0 n)
  | cons c rest => exact ⟨c,rest,rfl,padded_digits (text ▸ List.mem_cons_self)⟩

theorem digit_solid {c : Char} (digit : c.isDigit = true) : blank c = false ∧ c ≠ ']' := by
  constructor
  · cases solid : blank c with
    | false => rfl
    | true =>
        simp only [blank,Bool.or_eq_true,decide_eq_true_eq] at solid
        rcases solid with ((rfl | rfl) | rfl) | rfl <;> cases digit
  · rintro rfl
    cases digit

-- Where a value begins, nothing is skipped and no list ends.
theorem written_first (value : Json) : ∃ c rest, written value = c :: rest ∧ blank c = false ∧ c ≠ ']' := by
  cases value with
  | null => exact ⟨'n',_,rfl,rfl,by decide⟩
  | bool value =>
      cases value with
      | true => exact ⟨'t',_,rfl,rfl,by decide⟩
      | false => exact ⟨'f',_,rfl,rfl,by decide⟩
  | num value =>
      obtain ⟨c,rest,text,digit⟩ := padded_first value.natAbs
      by_cases negative : value < 0
      · exact ⟨'-',_,by rw [written,if_pos negative],rfl,by decide⟩
      · exact ⟨c,rest,by rw [written,if_neg negative,text],digit_solid digit⟩
  | str text => exact ⟨'"',_,rfl,rfl,by decide⟩
  | arr values => exact ⟨'[',_,rfl,rfl,by decide⟩
  | obj fields => exact ⟨'{',_,rfl,rfl,by decide⟩

theorem skip_written (value : Json) (rest : List Char) : skip (written value ++ rest) = written value ++ rest := by
  obtain ⟨c,others,text,solid,_⟩ := written_first value
  rw [text]
  exact skip_solid solid _

theorem skip_after (value : Json) (rest : List Char) : skip (' ' :: (written value ++ rest)) = written value ++ rest := by
  obtain ⟨c,others,text,solid,_⟩ := written_first value
  rw [text]
  exact skip_space solid _

theorem setField_new {name : String} {fields : List (String × Json)} (new : name ∉ fields.map Prod.fst) (value : Json) :
    Json.setField name value fields = fields ++ [(name,value)] := by
  induction fields with
  | nil => rfl
  | cons field rest ih =>
      rw [List.map_cons,List.mem_cons,not_or] at new
      rw [Json.setField,if_neg (by simpa using Ne.symm new.1),ih new.2]
      rfl

theorem collected_distinct {fields : List (String × Json)} (distinct : (fields.map Prod.fst).Nodup) :
    collected fields = fields := by
  have all : ∀ (rest made : List (String × Json)), ((made ++ rest).map Prod.fst).Nodup →
      rest.foldl (fun made field => Json.setField field.1 field.2 made) made = made ++ rest := by
    intro rest
    induction rest with
    | nil => simp
    | cons field rest ih =>
        intro made apart
        have new : field.1 ∉ made.map Prod.fst := by
          rw [List.map_append,List.map_cons] at apart
          intro there
          exact (List.nodup_append.mp apart).2.2 field.1 there field.1 List.mem_cons_self rfl
        have shape : made ++ [(field.1,field.2)] ++ rest = made ++ field :: rest := by simp
        rw [List.foldl_cons,setField_new new,ih _ (shape ▸ apart),shape]
  exact all fields [] distinct

mutual
def weight : Json → Nat
  | .arr values => 1 + weightValues values
  | .obj fields => 1 + weightFields fields
  | _ => 1
def weightValues : List Json → Nat
  | [] => 0
  | value :: rest => 1 + weight value + weightValues rest
def weightFields : List (String × Json) → Nat
  | [] => 0
  | field :: rest => 1 + weight field.2 + weightFields rest
end

mutual
theorem weight_length : (value : Json) → weight value ≤ (written value).length
  | .null => by decide
  | .bool true => by decide
  | .bool false => by decide
  | .num value => by
      obtain ⟨c,rest,text,_⟩ := written_first (.num value)
      simp [weight,text]
  | .str text => by simp [weight,written,dumpsText]
  | .arr values => by
      have inner := weightValues_length values
      simp only [weight,written,List.length_cons,List.length_append,List.length_nil]
      omega
  | .obj fields => by
      have inner := weightFields_length fields
      simp only [weight,written,List.length_cons,List.length_append,List.length_nil]
      omega
theorem weightValues_length : (values : List Json) → weightValues values ≤ (writtenValues values).length + 1
  | [] => by decide
  | [value] => by
      have head := weight_length value
      simp only [weightValues,writtenValues]
      omega
  | value :: second :: rest => by
      have head := weight_length value
      have tail := weightValues_length (second :: rest)
      rw [weightValues,writtenValues,List.length_append,List.length_cons,List.length_cons]
      · omega
      · simp
theorem weightFields_length : (fields : List (String × Json)) → weightFields fields ≤ (writtenFields fields).length + 1
  | [] => by decide
  | [field] => by
      have head := weight_length field.2
      simp only [weightFields,writtenFields,List.length_append,List.length_cons]
      omega
  | field :: second :: rest => by
      have head := weight_length field.2
      have tail := weightFields_length (second :: rest)
      rw [weightFields,writtenFields]
      · simp only [List.length_append,List.length_cons]
        omega
      · simp
end

theorem readValue_digit {c : Char} (digit : c.isDigit = true) (fuel : Nat) (rest : List Char) :
    readValue (fuel + 1) (c :: rest) = (readNatural (c :: rest)).map fun read => (.num read.1,read.2) := by
  unfold readValue
  split
  all_goals first
    | (rename_i same; cases same; cases digit)
    | rfl

theorem readValue_num (value : Int) (fuel : Nat) {rest : List Char} (stops : Stops rest) :
    readValue (fuel + 1) (written (.num value) ++ rest) = some (.num value,rest) := by
  by_cases negative : value < 0
  · have whole : -((value.natAbs : Nat) : Int) = value := by omega
    rw [written,if_pos negative,List.cons_append,readValue,readNatural_padded value.natAbs stops,Option.map_some,whole]
  · have whole : ((value.natAbs : Nat) : Int) = value := by omega
    obtain ⟨c,others,text,digit⟩ := padded_first value.natAbs
    have read := readNatural_padded value.natAbs stops
    rw [text,List.cons_append] at read
    rw [written,if_neg negative,text,List.cons_append,readValue_digit digit,read,Option.map_some,whole]

theorem readValue_str (text : String) (fuel : Nat) (rest : List Char) :
    readValue (fuel + 1) (written (.str text) ++ rest) = some (.str text,rest) := by
  have read := scanText_dumps text.toList rest
  have shape : written (.str text) ++ rest = '"' :: (text.toList.flatMap escapeChar ++ '"' :: rest) := by
    simp [written,dumpsText]
  rw [shape,readValue,read,Option.map_some,String.ofList_toList]

theorem readValue_list {c : Char} (solid : blank c = false) (going : c ≠ ']') (fuel : Nat) (rest : List Char) :
    readValue (fuel + 1) ('[' :: c :: rest) = (readValues fuel (c :: rest)).map fun read => (.arr read.1,read.2) := by
  rw [readValue,skip_solid solid]
  split
  · rename_i same
    exact absurd (List.cons.inj same).1 going
  · rfl

theorem readValue_object (fuel : Nat) (rest : List Char) :
    readValue (fuel + 1) ('{' :: '"' :: rest) = (readFields fuel ('"' :: rest)).map fun read =>
      (.obj (collected read.1),read.2) := by
  rw [readValue,skip_solid (by decide)]
  rfl

theorem writtenValues_first (value : Json) (others : List Json) :
    ∃ c rest, writtenValues (value :: others) = c :: rest ∧ blank c = false ∧ c ≠ ']' := by
  obtain ⟨c,rest,text,solid,going⟩ := written_first value
  cases others with
  | nil => exact ⟨c,rest,by rw [writtenValues,text],solid,going⟩
  | cons second more =>
      refine ⟨c,rest ++ ',' :: ' ' :: writtenValues (second :: more),?_,solid,going⟩
      rw [writtenValues,text,List.cons_append]
      simp

theorem writtenFields_first (field : String × Json) (others : List (String × Json)) :
    ∃ rest, writtenFields (field :: others) = '"' :: rest := by
  cases others with
  | nil => exact ⟨_,rfl⟩
  | cons second more => exact ⟨_,rfl⟩

-- A key and its value, and what stands after them.
theorem readFields_field (field : String × Json) (fuel : Nat) {rest : List Char}
    (read : readValue fuel (written field.2 ++ rest) = some (field.2,rest)) :
    readFields (fuel + 1) (dumpsText field.1.toList ++ ':' :: ' ' :: (written field.2 ++ rest)) =
      match skip rest with
      | '}' :: rest => some ([field],rest)
      | ',' :: rest => do
        let (fields,rest) ← readFields fuel (skip rest)
        return (field :: fields,rest)
      | _ => none := by
  have key := scanText_dumps field.1.toList (':' :: ' ' :: (written field.2 ++ rest))
  have shape : dumpsText field.1.toList ++ ':' :: ' ' :: (written field.2 ++ rest) =
      '"' :: (field.1.toList.flatMap escapeChar ++ '"' :: ':' :: ' ' :: (written field.2 ++ rest)) := by
    simp [dumpsText]
  rw [shape,readFields,key]
  simp only [Option.bind_eq_bind,Option.bind_some,skip_solid (show blank ':' = false from rfl),skip_after,read,
    String.ofList_toList]
  rfl

mutual
theorem readValue_written : (value : Json) → Proper value → (fuel : Nat) → weight value ≤ fuel → (rest : List Char) →
    Stops rest → readValue fuel (written value ++ rest) = some (value,rest)
  | value,_,0,enough,_,_ => by
      cases value <;> simp [weight] at enough
  | .null,_,_ + 1,_,_,_ => rfl
  | .bool true,_,_ + 1,_,_,_ => rfl
  | .bool false,_,_ + 1,_,_,_ => rfl
  | .num value,_,fuel + 1,_,_,stops => readValue_num value fuel stops
  | .str text,_,fuel + 1,_,rest,_ => readValue_str text fuel rest
  | .arr [],_,_ + 1,_,_,_ => rfl
  | .arr (value :: others),proper,fuel + 1,enough,rest,_ => by
      have read := readValues_written value others proper fuel (by simp only [weight] at enough; omega) rest
      obtain ⟨c,more,text,solid,going⟩ := writtenValues_first value others
      rw [text,List.cons_append] at read
      have shape : written (.arr (value :: others)) ++ rest = '[' :: c :: (more ++ ']' :: rest) := by simp [written,text]
      rw [shape,readValue_list solid going,read,Option.map_some]
  | .obj [],_,_ + 1,_,_,_ => rfl
  | .obj (field :: others),proper,fuel + 1,enough,rest,_ => by
      have read := readFields_written field others proper.2 fuel (by simp only [weight] at enough; omega) rest
      obtain ⟨more,text⟩ := writtenFields_first field others
      rw [text,List.cons_append] at read
      have shape : written (.obj (field :: others)) ++ rest = '{' :: '"' :: (more ++ '}' :: rest) := by simp [written,text]
      rw [shape,readValue_object,read,Option.map_some,collected_distinct proper.1]
theorem readValues_written : (value : Json) → (others : List Json) → ProperValues (value :: others) → (fuel : Nat) →
    weightValues (value :: others) ≤ fuel → (rest : List Char) →
    readValues fuel (writtenValues (value :: others) ++ ']' :: rest) = some (value :: others,rest)
  | value,others,_,0,enough,_ => by
      simp [weightValues] at enough
  | value,[],proper,fuel + 1,enough,rest => by
      have read := readValue_written value proper.1 fuel (by simp only [weightValues] at enough; omega) (']' :: rest)
        (stops_cons rfl)
      rw [writtenValues,readValues,read]
      simp only [Option.bind_eq_bind,Option.bind_some,skip_solid (show blank ']' = false from rfl)]
      rfl
  | value,second :: others,proper,fuel + 1,enough,rest => by
      have read := readValue_written value proper.1 fuel (by simp only [weightValues] at enough; omega)
        (',' :: ' ' :: (writtenValues (second :: others) ++ ']' :: rest)) (stops_cons rfl)
      have tail := readValues_written second others proper.2 fuel (by simp only [weightValues] at enough ⊢; omega) rest
      obtain ⟨c,more,text,solid,_⟩ := writtenValues_first second others
      have shape : writtenValues (value :: second :: others) ++ ']' :: rest =
          written value ++ ',' :: ' ' :: (writtenValues (second :: others) ++ ']' :: rest) := by
        simp [writtenValues]
      rw [shape,readValues,read]
      rw [text,List.cons_append] at tail
      simp only [Option.bind_eq_bind,Option.bind_some,skip_solid (show blank ',' = false from rfl),text,List.cons_append,
        skip_space solid,tail]
      rfl
theorem readFields_written : (field : String × Json) → (others : List (String × Json)) → ProperFields (field :: others) →
    (fuel : Nat) → weightFields (field :: others) ≤ fuel → (rest : List Char) →
    readFields fuel (writtenFields (field :: others) ++ '}' :: rest) = some (field :: others,rest)
  | field,others,_,0,enough,_ => by
      simp [weightFields] at enough
  | field,[],proper,fuel + 1,enough,rest => by
      have read := readValue_written field.2 proper.1 fuel (by simp only [weightFields] at enough; omega) ('}' :: rest)
        (stops_cons rfl)
      have shape : writtenFields [field] ++ '}' :: rest =
          dumpsText field.1.toList ++ ':' :: ' ' :: (written field.2 ++ '}' :: rest) := by
        simp [writtenFields]
      rw [shape,readFields_field field fuel read,skip_solid (by decide)]
      rfl
  | field,second :: others,proper,fuel + 1,enough,rest => by
      have read := readValue_written field.2 proper.1 fuel (by simp only [weightFields] at enough; omega)
        (',' :: ' ' :: (writtenFields (second :: others) ++ '}' :: rest)) (stops_cons rfl)
      have tail := readFields_written second others proper.2 fuel (by simp only [weightFields] at enough ⊢; omega) rest
      obtain ⟨more,text⟩ := writtenFields_first second others
      have shape : writtenFields (field :: second :: others) ++ '}' :: rest = dumpsText field.1.toList ++
          ':' :: ' ' :: (written field.2 ++ ',' :: ' ' :: (writtenFields (second :: others) ++ '}' :: rest)) := by
        simp [writtenFields]
      rw [text,List.cons_append] at tail
      rw [shape,readFields_field field fuel read,skip_solid (by decide),text,List.cons_append]
      simp only [skip_space (show blank '"' = false from rfl),tail]
      rfl
end

-- What is written is read, with blank characters around it.
theorem loads_written {value : Json} (proper : Proper value) {after : List Char} (blanks : after.all blank = true) :
    loads (written value ++ after) = some value := by
  have none_ : skip after = [] := by
    rw [skip,List.dropWhile_eq_nil_iff]
    exact fun c member => List.all_eq_true.mp blanks c member
  have stops : Stops after := by
    intro c rest text
    have space := List.all_eq_true.mp blanks c (text ▸ List.mem_cons_self)
    cases digit : c.isDigit with
    | false => rfl
    | true =>
        rw [(digit_solid digit).1] at space
        cases space
  have size := weight_length value
  have read := readValue_written value proper ((written value ++ after).length + 1) (by rw [List.length_append]; omega) after stops
  rw [loads,skip_written,read]
  simp [none_]

theorem setField_keys (name : String) (value : Json) (fields : List (String × Json)) :
    (Json.setField name value fields).map Prod.fst =
      if name ∈ fields.map Prod.fst then fields.map Prod.fst else fields.map Prod.fst ++ [name] := by
  induction fields with
  | nil => rfl
  | cons field rest ih =>
      obtain ⟨key,old⟩ := field
      rw [Json.setField]
      by_cases same : key = name
      · subst same
        simp
      · have other : ¬name = key := fun equal => same equal.symm
        simp only [beq_iff_eq,same,if_false,List.map_cons,ih,List.mem_cons,other,false_or]
        split <;> simp

theorem setField_proper {fields : List (String × Json)} (proper : ProperFields fields) (name : String) {value : Json}
    (good : Proper value) : ProperFields (Json.setField name value fields) := by
  induction fields with
  | nil => exact ⟨good,trivial⟩
  | cons field rest ih =>
      rw [Json.setField]
      split
      · exact ⟨good,proper.2⟩
      · exact ⟨proper.1,ih proper.2⟩

theorem set_proper {value new : Json} (proper : Proper value) (name : String) (good : Proper new) : Proper (value.set name new) := by
  have fields : (value.fields.map Prod.fst).Nodup ∧ ProperFields value.fields := by
    cases value with
    | obj fields => exact proper
    | null | bool _ | num _ | str _ | arr _ => exact ⟨List.nodup_nil,trivial⟩
  refine ⟨?_,setField_proper fields.2 name good⟩
  rw [setField_keys]
  split
  · exact fields.1
  · rename_i new
    rw [List.nodup_append]
    refine ⟨fields.1,List.nodup_singleton _,?_⟩
    rintro one there two single rfl
    cases List.mem_singleton.mp single
    exact new there

theorem get_proper {value : Json} (proper : Proper value) (name : String) : Proper (value.get name) := by
  have inside : ∀ fields, ProperFields fields →
      Proper (((fields.find? (·.1 == name)).map (·.2) : Option Json).getD .null) := by
    intro fields
    induction fields with
    | nil => exact fun _ => trivial
    | cons field rest ih =>
        intro good
        rw [List.find?_cons]
        cases field.1 == name with
        | true => exact good.1
        | false => exact ih good.2
  cases value with
  | obj fields => exact inside fields proper.2
  | null | bool _ | num _ | str _ | arr _ => trivial

-- The text is one line of printed ASCII.
def Plain (c : Char) : Prop := 32 ≤ c.toNat ∧ c.toNat ≤ 126

theorem Plain.solid {c : Char} (plain : Plain c) : isBreak c = false := by
  obtain ⟨least,most⟩ := plain
  simp only [isBreak,Bool.or_eq_false_iff,Bool.and_eq_false_iff,decide_eq_false_iff_not]
  omega

theorem digitChar_plain : ∀ n < 16, Plain (Nat.digitChar n) := by
  unfold Plain
  decide

theorem isDigit_plain {c : Char} (digit : c.isDigit = true) : Plain c := by
  have bounds : '0' ≤ c ∧ c ≤ '9' := by simpa [Char.isDigit,Char.le_def] using digit
  have least : 48 ≤ c.toNat := bounds.1
  have most : c.toNat ≤ 57 := bounds.2
  exact ⟨by omega,by omega⟩

theorem escapeUnit_plain (unit : Nat) : ∀ c ∈ escapeUnit unit, Plain c := by
  have digits : ∀ n, Plain (Nat.digitChar (n % 16)) := fun n => digitChar_plain _ (Nat.mod_lt n (by decide))
  have letters : Plain '\\' ∧ Plain 'u' := by
    unfold Plain
    decide
  simp [escapeUnit,digits,letters]

theorem escapeChar_plain (c : Char) : ∀ written ∈ escapeChar c, Plain written := by
  unfold escapeChar
  split
  · rename_i letter escaped
    have letters : Plain '\\' ∧ Plain letter := by
      unfold shortEscape at escaped
      repeat' split at escaped
      all_goals first | cases escaped; unfold Plain; decide | cases escaped
    simp [letters]
  · split
    · rename_i printed
      intro other member
      cases List.mem_singleton.mp member
      exact printed
    · split
      · exact escapeUnit_plain _
      · intro other member
        rcases List.mem_append.mp member with high | low
        · exact escapeUnit_plain _ other high
        · exact escapeUnit_plain _ other low

theorem plain_marks : Plain '"' ∧ Plain '[' ∧ Plain ']' ∧ Plain '\x7b' ∧ Plain '\x7d' ∧ Plain ',' ∧ Plain ':' ∧ Plain ' ' ∧
    Plain '-' := by
  unfold Plain
  decide

theorem dumpsText_plain (text : List Char) : ∀ c ∈ dumpsText text, Plain c := by
  intro c member
  simp only [dumpsText,List.cons_append,List.mem_cons,List.mem_append,List.mem_flatMap,List.not_mem_nil,or_false] at member
  rcases member with rfl | ⟨other,_,inside⟩ | rfl
  · exact plain_marks.1
  · exact escapeChar_plain other c inside
  · exact plain_marks.1

mutual
theorem written_plain : (value : Json) → ∀ c ∈ written value, Plain c
  | .null | .bool true | .bool false => by
      simp [written,Plain]
  | .num value => by
      intro c member
      unfold written at member
      split at member
      · rcases List.mem_cons.mp member with rfl | digit
        · exact plain_marks.2.2.2.2.2.2.2.2
        · exact isDigit_plain (padded_digits digit)
      · exact isDigit_plain (padded_digits member)
  | .str text => dumpsText_plain text.toList
  | .arr values => by
      have inside := writtenValues_plain values
      have marks := plain_marks
      intro c member
      simp only [written,List.cons_append,List.mem_cons,List.mem_append,List.not_mem_nil,or_false] at member
      rcases member with rfl | there | rfl
      · exact marks.2.1
      · exact inside c there
      · exact marks.2.2.1
  | .obj fields => by
      have inside := writtenFields_plain fields
      have marks := plain_marks
      intro c member
      simp only [written,List.cons_append,List.mem_cons,List.mem_append,List.not_mem_nil,or_false] at member
      rcases member with rfl | there | rfl
      · exact marks.2.2.2.1
      · exact inside c there
      · exact marks.2.2.2.2.1
theorem writtenValues_plain : (values : List Json) → ∀ c ∈ writtenValues values, Plain c
  | [] => by simp [writtenValues]
  | [value] => written_plain value
  | value :: second :: rest => by
      have head := written_plain value
      have tail := writtenValues_plain (second :: rest)
      have marks := plain_marks
      have shape : writtenValues (value :: second :: rest) = written value ++ ',' :: ' ' :: writtenValues (second :: rest) := by
        simp [writtenValues]
      intro c member
      rw [shape] at member
      simp only [List.mem_append,List.mem_cons] at member
      rcases member with there | rfl | rfl | later
      · exact head c there
      · exact marks.2.2.2.2.2.1
      · exact marks.2.2.2.2.2.2.2.1
      · exact tail c later
theorem writtenFields_plain : (fields : List (String × Json)) → ∀ c ∈ writtenFields fields, Plain c
  | [] => by simp [writtenFields]
  | [field] => by
      have key := dumpsText_plain field.1.toList
      have head := written_plain field.2
      have marks := plain_marks
      intro c member
      simp only [writtenFields,List.mem_append,List.mem_cons] at member
      rcases member with there | rfl | rfl | later
      · exact key c there
      · exact marks.2.2.2.2.2.2.1
      · exact marks.2.2.2.2.2.2.2.1
      · exact head c later
  | field :: second :: rest => by
      have key := dumpsText_plain field.1.toList
      have head := written_plain field.2
      have tail := writtenFields_plain (second :: rest)
      have marks := plain_marks
      have shape : writtenFields (field :: second :: rest) = dumpsText field.1.toList ++
          ':' :: ' ' :: (written field.2 ++ ',' :: ' ' :: writtenFields (second :: rest)) := by
        simp [writtenFields]
      intro c member
      rw [shape] at member
      simp only [List.mem_append,List.mem_cons] at member
      rcases member with there | rfl | rfl | there | rfl | rfl | later
      · exact key c there
      · exact marks.2.2.2.2.2.2.1
      · exact marks.2.2.2.2.2.2.2.1
      · exact head c there
      · exact marks.2.2.2.2.2.1
      · exact marks.2.2.2.2.2.2.2.1
      · exact tail c later
end

end Foundation.JsonText

import Mathlib.Data.List.Sort
import Mathlib.Data.String.Basic
import Modelship.Foundation.Json
import Modelship.Foundation.Text

namespace Foundation

-- `json.dumps` with `sort_keys`, whose text is ASCII: a character is written as it is, or
-- escaped as one or two UTF-16 units.
def shortEscape (c : Char) : Option Char :=
  if c = '"' then some '"' else if c = '\\' then some '\\' else if c = '\n' then some 'n' else
  if c = '\r' then some 'r' else if c = '\t' then some 't' else if c = Char.ofNat 12 then some 'f' else
  if c = Char.ofNat 8 then some 'b' else none

def escapeUnit (unit : Nat) : List Char :=
  ['\\','u',Nat.digitChar (unit / 4096 % 16),Nat.digitChar (unit / 256 % 16),Nat.digitChar (unit / 16 % 16),
    Nat.digitChar (unit % 16)]

def escapeChar (c : Char) : List Char :=
  match shortEscape c with
  | some letter => ['\\',letter]
  | none =>
    if ' ' ≤ c ∧ c ≤ '~' then [c] else
    if c.toNat < 0x10000 then escapeUnit c.toNat else
    let rest := c.toNat - 0x10000
    escapeUnit (0xd800 + rest / 0x400) ++ escapeUnit (0xdc00 + rest % 0x400)

def dumpsText (text : List Char) : List Char := '"' :: text.flatMap escapeChar ++ ['"']

def sortKeys {Value : Type} (fields : List (String × Value)) : List (String × Value) :=
  fields.insertionSort fun one two => one.1 ≤ two.1

mutual
def dumps : Json → List Char
  | .null => "null".toList
  | .bool true => "true".toList
  | .bool false => "false".toList
  | .num value => (toString value).toList
  | .str value => dumpsText value.toList
  | .arr values => '[' :: List.intercalate ", ".toList (dumpsValues values) ++ [']']
  | .obj fields =>
    '{' :: List.intercalate ", ".toList ((sortKeys (dumpsFields fields)).map fun field =>
      dumpsText field.1.toList ++ ": ".toList ++ field.2) ++ ['}']
def dumpsValues : List Json → List (List Char)
  | [] => []
  | value :: rest => dumps value :: dumpsValues rest
def dumpsFields : List (String × Json) → List (String × List Char)
  | [] => []
  | field :: rest => (field.1,dumps field.2) :: dumpsFields rest
end

-- Escapes read back, each with what follows it.
def readShort (letter : Char) : Option Char :=
  if letter = '"' then some '"' else if letter = '\\' then some '\\' else if letter = 'n' then some '\n' else
  if letter = 'r' then some '\r' else if letter = 't' then some '\t' else if letter = 'f' then some (Char.ofNat 12) else
  if letter = 'b' then some (Char.ofNat 8) else none

def readUnit : List Char → Option (Nat × List Char)
  | '\\' :: 'u' :: a :: b :: c :: d :: rest => (numeral 16 [a,b,c,d]).map (·,rest)
  | _ => none

def readChar : List Char → Option (Char × List Char)
  | '\\' :: letter :: rest =>
    if letter = 'u' then
      (readUnit ('\\' :: letter :: rest)).bind fun first =>
        if 0xd800 ≤ first.1 ∧ first.1 < 0xdc00 then
          (readUnit first.2).map fun second =>
            (Char.ofNat (0x10000 + (first.1 - 0xd800) * 0x400 + (second.1 - 0xdc00)),second.2)
        else some (Char.ofNat first.1,first.2)
    else (readShort letter).map (·,rest)
  | c :: rest => some (c,rest)
  | [] => none

theorem digit_digitChar : ∀ n < 16, digit? 16 (Nat.digitChar n) = some n := by decide

theorem readUnit_escapeUnit {unit : Nat} (small : unit < 0x10000) (rest : List Char) :
    readUnit (escapeUnit unit ++ rest) = some (unit,rest) := by
  have digits : ∀ n, digit? 16 (Nat.digitChar (n % 16)) = some (n % 16) :=
    fun n => digit_digitChar _ (Nat.mod_lt n (by decide))
  simp only [escapeUnit,List.cons_append,List.nil_append,readUnit,numeral,reduceCtorEq,if_false,List.mapM_cons,List.mapM_nil,digits]
  simp
  omega

theorem readShort_shortEscape {c letter : Char} (escaped : shortEscape c = some letter) :
    readShort letter = some c ∧ letter ≠ 'u' := by
  unfold shortEscape at escaped
  repeat' split at escaped
  all_goals first | cases escaped; subst c; decide | cases escaped

theorem shortEscape_none {c : Char} (unescaped : shortEscape c = none) : c ≠ '"' ∧ c ≠ '\\' := by
  constructor
  · rintro rfl
    cases unescaped
  · rintro rfl
    cases unescaped

theorem readChar_unit {unit : Nat} (small : unit < 0x10000) (rest : List Char) :
    readChar (escapeUnit unit ++ rest) =
      if 0xd800 ≤ unit ∧ unit < 0xdc00 then
        (readUnit rest).map fun second => (Char.ofNat (0x10000 + (unit - 0xd800) * 0x400 + (second.1 - 0xdc00)),second.2)
      else some (Char.ofNat unit,rest) := by
  have read := readUnit_escapeUnit small rest
  simp only [escapeUnit,List.cons_append,List.nil_append] at read ⊢
  simp only [readChar,if_true,read,Option.bind_some]

theorem readChar_escapeChar (c : Char) (rest : List Char) : readChar (escapeChar c ++ rest) = some (c,rest) := by
  have valid : c.toNat < 0xd800 ∨ 0xdfff < c.toNat ∧ c.toNat < 0x110000 := c.valid
  unfold escapeChar
  split
  · rename_i letter escaped
    obtain ⟨read,apart⟩ := readShort_shortEscape escaped
    simp only [List.cons_append,List.nil_append,readChar,if_neg apart,read,Option.map_some]
  · rename_i unescaped
    obtain ⟨_,plain⟩ := shortEscape_none unescaped
    split
    · simp [readChar,plain]
    · split
      · rename_i small
        rw [readChar_unit small,if_neg (by omega),Char.ofNat_toNat]
      · dsimp only
        rw [List.append_assoc,readChar_unit (by omega),if_pos (by omega),readUnit_escapeUnit (by omega),Option.map_some]
        have whole : 0x10000 + (0xd800 + (c.toNat - 0x10000) / 0x400 - 0xd800) * 0x400 +
            (0xdc00 + (c.toNat - 0x10000) % 0x400 - 0xdc00) = c.toNat := by omega
        rw [whole,Char.ofNat_toNat]

-- A quotation mark inside a text is escaped.
theorem escapeChar_quote (c : Char) (rest more : List Char) : escapeChar c ++ rest ≠ '"' :: more := by
  unfold escapeChar
  split
  · simp
  · rename_i unescaped
    obtain ⟨plain,_⟩ := shortEscape_none unescaped
    split
    · simp [plain]
    · split <;> simp [escapeUnit]

-- A text ends where its quotation mark does, whatever follows.
theorem dumpsText_inj {one two rest more : List Char} (same : dumpsText one ++ rest = dumpsText two ++ more) :
    one = two ∧ rest = more := by
  have body : one.flatMap escapeChar ++ '"' :: rest = two.flatMap escapeChar ++ '"' :: more := by
    simpa [dumpsText] using same
  clear same
  induction one generalizing two with
  | nil =>
      cases two with
      | nil => simpa using body
      | cons d ds =>
          rw [List.flatMap_cons,List.append_assoc] at body
          exact absurd body.symm (escapeChar_quote d _ _)
  | cons c cs ih =>
      rw [List.flatMap_cons,List.append_assoc] at body
      cases two with
      | nil => exact absurd body (escapeChar_quote c _ _)
      | cons d ds =>
          rw [List.flatMap_cons,List.append_assoc] at body
          have read := congrArg readChar body
          rw [readChar_escapeChar,readChar_escapeChar,Option.some.injEq,Prod.mk.injEq] at read
          obtain ⟨rfl,later⟩ := ih read.2
          exact ⟨by rw [read.1],later⟩

section
variable {Value Other : Type}

theorem sortKeys_ordered (fields : List (String × Value)) : (sortKeys fields).Pairwise fun one two => one.1 ≤ two.1 := by
  have total : Std.Total fun one two : String × Value => one.1 ≤ two.1 := ⟨fun one two => le_total one.1 two.1⟩
  have transitive : IsTrans (String × Value) fun one two => one.1 ≤ two.1 := ⟨fun _ _ _ first second => le_trans first second⟩
  exact List.pairwise_insertionSort _ fields

theorem sortKeys_again (fields : List (String × Value)) : sortKeys (sortKeys fields) = sortKeys fields :=
  (sortKeys_ordered fields).insertionSort_eq

theorem sortKeys_map (change : String × Value → String × Other) (kept : ∀ field, (change field).1 = field.1)
    (fields : List (String × Value)) : (sortKeys fields).map change = sortKeys (fields.map change) := by
  apply List.map_insertionSort
  intro one _ two _
  rw [kept,kept]

-- The sort is stable: the first field of a name stays the first.
theorem sortKeys_find (fields : List (String × Value)) (name : String) :
    (sortKeys fields).find? (·.1 == name) = fields.find? (·.1 == name) := by
  have level : (fields.filter (·.1 == name)).Pairwise fun one two => one.1 ≤ two.1 := by
    apply List.pairwise_of_forall_mem_list
    intro one first two second
    have left : one.1 = name := by simpa using (List.mem_filter.mp first).2
    have right : two.1 = name := by simpa using (List.mem_filter.mp second).2
    rw [left,right]
  have still := (List.sublist_insertionSort level List.filter_sublist).filter (·.1 == name)
  rw [List.filter_filter] at still
  simp only [Bool.and_self] at still
  have same : fields.filter (·.1 == name) = (sortKeys fields).filter (·.1 == name) :=
    still.eq_of_length ((List.perm_insertionSort _ fields).filter _).length_eq.symm
  rw [← List.head?_filter,← List.head?_filter,same]

end

-- A value with the fields of every object in order.
mutual
def canonical : Json → Json
  | .null => .null
  | .bool value => .bool value
  | .num value => .num value
  | .str value => .str value
  | .arr values => .arr (canonicalValues values)
  | .obj fields => .obj (sortKeys (canonicalFields fields))
def canonicalValues : List Json → List Json
  | [] => []
  | value :: rest => canonical value :: canonicalValues rest
def canonicalFields : List (String × Json) → List (String × Json)
  | [] => []
  | field :: rest => (field.1,canonical field.2) :: canonicalFields rest
end

theorem dumpsFields_map (fields : List (String × Json)) : dumpsFields fields = fields.map fun field => (field.1,dumps field.2) := by
  induction fields with
  | nil => rfl
  | cons field rest ih => rw [dumpsFields,ih,List.map_cons]

-- The order of an object's fields does not show in its text.
mutual
theorem dumps_canonical : (value : Json) → dumps (canonical value) = dumps value
  | .null => rfl
  | .bool _ => rfl
  | .num _ => rfl
  | .str _ => rfl
  | .arr values => by rw [canonical,dumps,dumps,dumpsValues_canonical values]
  | .obj fields => by
      rw [canonical,dumps,dumps,dumpsFields_map,sortKeys_map (fun field => (field.1,dumps field.2)) (fun _ => rfl),
        ← dumpsFields_map,sortKeys_again,dumpsFields_canonical fields]
theorem dumpsValues_canonical : (values : List Json) → dumpsValues (canonicalValues values) = dumpsValues values
  | [] => rfl
  | value :: rest => by
      rw [canonicalValues,dumpsValues,dumpsValues,dumps_canonical value,dumpsValues_canonical rest]
theorem dumpsFields_canonical : (fields : List (String × Json)) → dumpsFields (canonicalFields fields) = dumpsFields fields
  | [] => rfl
  | field :: rest => by
      rw [canonicalFields,dumpsFields,dumpsFields,dumps_canonical field.2,dumpsFields_canonical rest]
end

end Foundation

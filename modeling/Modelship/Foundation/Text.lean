import Mathlib.Data.List.Infix

namespace Foundation

-- A Python string in `repr`, for the printable characters.
def quoted (text : String) : String :=
  let quote := if text.contains '\'' && !text.contains '"' then "\"" else "'"
  let escaped := text.toList.map fun c =>
    if c = '\\' then "\\\\" else if c = '\n' then "\\n" else if c = '\r' then "\\r" else if c = '\t' then "\\t"
    else if c = '\'' && quote = "'" then "\\'" else toString c
  quote ++ String.join escaped ++ quote

-- Two strings with different literal heads differ, whatever follows the heads.
theorem append_apart {head other one two : String} (short : head.toList.length ≤ other.toList.length)
    (different : ¬ head.toList <+: other.toList) : head ++ one ≠ other ++ two := by
  intro equal
  have chars := congrArg String.toList equal
  rw [String.toList_append,String.toList_append] at chars
  have leads : head.toList <+: other.toList ++ two.toList := ⟨one.toList,chars⟩
  exact different (List.prefix_of_prefix_length_le leads (List.prefix_append _ _) short)

-- What stands before the first separator is told by the whole.
theorem separated {separator : Char} {one two rest more : List Char} (first : separator ∉ one)
    (second : separator ∉ two) (same : one ++ separator :: rest = two ++ separator :: more) : one = two := by
  induction one generalizing two with
  | nil =>
      cases two with
      | nil => rfl
      | cons c cs =>
          simp only [List.nil_append,List.cons_append,List.cons.injEq] at same
          exact absurd (List.mem_cons.mpr (.inl same.1)) second
  | cons c cs ih =>
      cases two with
      | nil =>
          simp only [List.nil_append,List.cons_append,List.cons.injEq] at same
          exact absurd (List.mem_cons.mpr (.inl same.1.symm)) first
      | cons d ds =>
          simp only [List.cons_append,List.cons.injEq] at same
          rw [List.mem_cons,not_or] at first second
          rw [same.1,ih first.2 second.2 same.2]

theorem takeWhile_before {dot : Char} {before rest : List Char} (apart : dot ∉ before) :
    (before ++ dot :: rest).takeWhile (· ≠ dot) = before ∧ (before ++ dot :: rest).dropWhile (· ≠ dot) = dot :: rest := by
  induction before with
  | nil => simp
  | cons c cs ih =>
      rw [List.mem_cons,not_or] at apart
      have other : c ≠ dot := Ne.symm apart.1
      obtain ⟨taken,dropped⟩ := ih apart.2
      simp only [List.cons_append,ne_eq,other,not_false_eq_true,decide_true,List.takeWhile_cons,List.dropWhile_cons]
      exact ⟨by simpa using taken,by simpa using dropped⟩

-- `str.strip()`, with the characters Python counts as whitespace.
def isSpace (c : Char) : Bool :=
  let n := c.toNat
  9 ≤ n && n ≤ 13 || 28 ≤ n && n ≤ 32 || n = 0x85 || n = 0xa0 || n = 0x1680 || 0x2000 ≤ n && n ≤ 0x200a || n = 0x2028 ||
    n = 0x2029 || n = 0x202f || n = 0x205f || n = 0x3000

def stripChars (text : List Char) : List Char := ((text.dropWhile isSpace).reverse.dropWhile isSpace).reverse

def strip (text : String) : String := String.ofList (stripChars text.toList)

-- `text.split(separator)`, which keeps the empty parts.
def split (separator : Char) : List Char → List (List Char)
  | [] => [[]]
  | c :: rest =>
    if c = separator then [] :: split separator rest else
    match split separator rest with
    | [] => [[c]]
    | first :: others => (c :: first) :: others

def join (separator : Char) : List (List Char) → List Char
  | [] => []
  | [part] => part
  | part :: rest => part ++ separator :: join separator rest

-- A number in a base up to sixteen.
def digit? (base : Nat) (c : Char) : Option Nat :=
  let value :=
    if '0' ≤ c ∧ c ≤ '9' then some (c.toNat - '0'.toNat)
    else if 'a' ≤ c ∧ c ≤ 'f' then some (c.toNat - 'a'.toNat + 10)
    else if 'A' ≤ c ∧ c ≤ 'F' then some (c.toNat - 'A'.toNat + 10)
    else none
  value.filter (· < base)

def numeral (base : Nat) (text : List Char) : Option Nat :=
  if text = [] then none else
  (text.mapM (digit? base)).map fun digits => digits.foldl (fun total digit => total * base + digit) 0

-- A path without its empty segments.
def normal (path : String) : String := String.ofList (join '/' ((split '/' path.toList).filter (· ≠ [])))

theorem split_whole {separator : Char} {part : List Char} (apart : separator ∉ part) : split separator part = [part] := by
  induction part with
  | nil => rfl
  | cons c rest ih =>
      rw [List.mem_cons,not_or] at apart
      rw [split,if_neg (Ne.symm apart.1),ih apart.2]

theorem split_first {separator : Char} {part : List Char} (apart : separator ∉ part) (rest : List Char) :
    split separator (part ++ separator :: rest) = part :: split separator rest := by
  induction part with
  | nil => simp [split]
  | cons c cs ih =>
      rw [List.mem_cons,not_or] at apart
      rw [List.cons_append,split,if_neg (Ne.symm apart.1),ih apart.2]

theorem split_join {separator : Char} {parts : List (List Char)} (full : parts ≠ [])
    (apart : ∀ part ∈ parts, separator ∉ part) : split separator (join separator parts) = parts := by
  induction parts with
  | nil => exact absurd rfl full
  | cons part rest ih =>
      have head := apart part List.mem_cons_self
      cases rest with
      | nil => exact split_whole head
      | cons second others =>
          have tail := ih (by simp) (fun other member => apart other (List.mem_cons_of_mem _ member))
          rw [join,split_first head,tail]
          simp

end Foundation

import Mathlib.Data.List.Infix

namespace Foundation.Glob

-- Patterns with `*`, `?`, `[a-z]`, `[^a-z]` and `\\`, as tokens.
inductive Token where
  | any
  | one
  | char (c : Char)
  | class (negated : Bool) (ranges : List (Char × Char))
  deriving DecidableEq

-- The ranges up to the closing bracket, or to the end of a pattern that has none.
def readClass : Nat → List Char → List (Char × Char) × List Char
  | 0,rest => ([],rest)
  | _,[] => ([],[])
  | _,']' :: rest => ([],rest)
  | fuel + 1,'\\' :: c :: rest =>
    let (ranges,left) := readClass fuel rest
    ((c,c) :: ranges,left)
  | fuel + 1,low :: '-' :: high :: rest =>
    let (ranges,left) := readClass fuel rest
    ((if low ≤ high then (low,high) else (high,low)) :: ranges,left)
  | fuel + 1,c :: rest =>
    let (ranges,left) := readClass fuel rest
    ((c,c) :: ranges,left)

def read : Nat → List Char → List Token
  | 0,_ => []
  | _ + 1,[] => []
  | fuel + 1,c :: rest =>
    if c = '*' then .any :: read fuel rest
    else if c = '?' then .one :: read fuel rest
    else if c = '[' then
      let (negated,rest) := match rest with
        | '^' :: rest => (true,rest)
        | rest => (false,rest)
      let (ranges,left) := readClass rest.length rest
      .class negated ranges :: read fuel left
    else if c = '\\' then
      match rest with
      | d :: rest => .char d :: read fuel rest
      | [] => [.char c]
    else .char c :: read fuel rest

def accepts : List Token → List Char → Bool
  | [],text => text = []
  | .any :: rest,text => text.tails.any (accepts rest)
  | .one :: rest,_ :: text => accepts rest text
  | .char c :: rest,d :: text => c = d && accepts rest text
  | .class negated ranges :: rest,c :: text =>
    (ranges.any (fun range => range.1 ≤ c && c ≤ range.2) != negated) && accepts rest text
  | _ :: _,[] => false

-- One token at least is read of each character or more, so the pattern's length is fuel enough.
def glob (pattern text : List Char) : Bool := accepts (read pattern.length pattern) text

-- Neither of the two signs that do not stand for themselves as well.
def plain (c : Char) : Bool := c != '[' && c != '\\'

-- Letters that stand for themselves.
def literal (text : List Char) : List Token := text.map .char

theorem accepts_any (text : List Char) : accepts [.any] text = true := by
  unfold accepts
  rw [List.any_eq_true]
  exact ⟨[],(List.mem_tails _ _).mpr (List.nil_suffix),rfl⟩

theorem accepts_literal (start : List Char) (rest : List Token) {text : List Char}
    (matches_ : accepts (literal start ++ rest) text = true) : ∃ tail, text = start ++ tail := by
  induction start generalizing text with
  | nil => exact ⟨text,rfl⟩
  | cons c start ih =>
      cases text with
      | nil => simp [literal,accepts] at matches_
      | cons d text =>
          simp only [literal,List.map_cons,List.cons_append,accepts,Bool.and_eq_true,decide_eq_true_eq] at matches_
          obtain ⟨rfl,others⟩ := matches_
          obtain ⟨tail,rfl⟩ := ih others
          exact ⟨tail,rfl⟩

theorem accepts_append (start : List Char) (rest : List Token) (text : List Char) :
    accepts (literal start ++ rest) (start ++ text) = accepts rest text := by
  induction start with
  | nil => rfl
  | cons c start ih => simpa [literal,accepts] using ih

theorem accepts_star {rest : List Token} {text : List Char} (accepted : accepts rest text = true) (before : List Char) :
    accepts (.any :: rest) (before ++ text) = true := by
  rw [accepts,List.any_eq_true]
  exact ⟨text,(List.mem_tails _ _).mpr (List.suffix_append _ _),accepted⟩

end Foundation.Glob

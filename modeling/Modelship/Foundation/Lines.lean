import Modelship.Foundation.Text

namespace Foundation

-- A number in decimal digits, with zeros before it up to a width.
def padded (width n : Nat) : List Char := List.replicate (width - (Nat.toDigits 10 n).length) '0' ++ Nat.toDigits 10 n

theorem padded_digits {width n : Nat} {c : Char} (member : c ∈ padded width n) : c.isDigit = true := by
  rcases List.mem_append.mp member with zero | digit
  · rw [List.eq_of_mem_replicate zero]
    rfl
  · exact Nat.isDigit_of_mem_toDigits (by decide) (by decide) digit

theorem padded_apart {width n : Nat} {c : Char} (other : c.isDigit = false) : c ∉ padded width n := by
  intro member
  rw [padded_digits member] at other
  cases other

theorem padded_ne_nil (width n : Nat) : padded width n ≠ [] := by
  intro empty
  exact Nat.toDigits_ne_nil (List.append_eq_nil_iff.mp empty).2

theorem digit_read {c : Char} (digit : c.isDigit = true) : digit? 10 c = some (c.toNat - '0'.toNat) := by
  have bounds : '0' ≤ c ∧ c ≤ '9' := by
    simpa [Char.isDigit,Char.le_def] using digit
  have small : c.toNat ≤ 57 := bounds.2
  have least : 48 ≤ c.toNat := bounds.1
  have fits : c.toNat - 48 < 10 := by omega
  simp [digit?,bounds,Option.filter,fits]

theorem numeral_read {text : List Char} (full : text ≠ []) (digits : ∀ c ∈ text, c.isDigit = true) :
    numeral 10 text = some (Nat.ofDigitChars 10 text 0) := by
  have read : text.mapM (digit? 10) = some (text.map fun c => c.toNat - '0'.toNat) := by
    clear full
    induction text with
    | nil => rfl
    | cons c rest ih =>
        have tail := ih fun other member => digits other (List.mem_cons_of_mem _ member)
        rw [List.mapM_cons,digit_read (digits c List.mem_cons_self),tail]
        rfl
  rw [numeral,if_neg full,read,Option.map_some,List.foldl_map,Nat.ofDigitChars_eq_foldl]
  simp only [Nat.mul_comm]

-- What is printed as a number is read as that number.
theorem numeral_padded (width n : Nat) : numeral 10 (padded width n) = some n := by
  rw [numeral_read (padded_ne_nil width n) fun c member => padded_digits member,padded,Nat.ofDigitChars_append,
    Nat.ofDigitChars_replicate_zero,Nat.mul_zero,Nat.ofDigitChars_toDigits (by decide) (by decide)]

theorem split_ne_nil (separator : Char) (text : List Char) : split separator text ≠ [] := by
  cases text with
  | nil => simp [split]
  | cons c rest =>
      rw [split]
      split
      · simp
      · split
        · simp
        · simp

theorem split_append (separator : Char) (one two : List Char) :
    split separator (one ++ separator :: two) = split separator one ++ split separator two := by
  induction one with
  | nil => simp [split]
  | cons c rest ih =>
      rw [List.cons_append,split,split]
      split
      · rw [ih,List.cons_append]
      · rw [ih]
        cases parts : split separator rest with
        | nil => exact absurd parts (split_ne_nil separator rest)
        | cons first others => rfl

-- The marks `str.splitlines` ends a line at, besides `\r\n`, which is one mark.
def isBreak (c : Char) : Bool :=
  let n := c.toNat
  10 ≤ n && n ≤ 13 || 28 ≤ n && n ≤ 30 || n = 0x85 || n = 0x2028 || n = 0x2029

def splitlines (line : List Char) : List Char → List (List Char)
  | [] => if line = [] then [] else [line]
  | '\r' :: '\n' :: rest => line :: splitlines [] rest
  | c :: rest => if isBreak c then line :: splitlines [] rest else splitlines (line ++ [c]) rest

theorem splitlines_apart {line : List Char} (kept : '\n' ∉ line) (text : List Char) :
    ∀ part ∈ splitlines line text, '\n' ∉ part := by
  fun_induction splitlines line text with
  | case1 => simp
  | case2 line => simpa using kept
  | case3 line rest ih =>
      intro part member
      rcases List.mem_cons.mp member with rfl | later
      · exact kept
      · exact ih List.not_mem_nil part later
  | case4 line c rest _ _ ih =>
      intro part member
      rcases List.mem_cons.mp member with rfl | later
      · exact kept
      · exact ih List.not_mem_nil part later
  | case5 line c rest _ inside ih =>
      have other : '\n' ≠ c := by
        rintro rfl
        exact inside rfl
      exact ih (by simp [kept,other])

-- A line up to the newline after it.
theorem splitlines_line {line : List Char} (solid : ∀ c ∈ line, isBreak c = false) (kept rest : List Char) :
    splitlines kept (line ++ '\n' :: rest) = (kept ++ line) :: splitlines [] rest := by
  induction line generalizing kept with
  | nil =>
      rw [List.nil_append,List.append_nil,splitlines]
      · rfl
      · intro more same
        cases same
  | cons c cs ih =>
      have plain := solid c List.mem_cons_self
      have tail := ih (fun other member => solid other (List.mem_cons_of_mem _ member)) (kept ++ [c])
      rw [List.cons_append,splitlines,plain]
      · simpa using tail
      · rintro more rfl
        cases plain

def closed (run : List (List Char)) : List (List (List Char)) := if run = [] then [] else [run]

-- The runs of lines between empty lines, where `run` is the one that is open.
def paragraphsFrom (run : List (List Char)) : List (List Char) → List (List (List Char))
  | [] => closed run
  | line :: rest => if line = [] then closed run ++ paragraphsFrom [] rest else paragraphsFrom (run ++ [line]) rest

def paragraphs (text : List Char) : List (List (List Char)) := paragraphsFrom [] (split '\n' text)

theorem paragraphsFrom_block {block : List (List Char)} (full : ∀ line ∈ block, line ≠ []) (run rest : List (List Char)) :
    paragraphsFrom run (block ++ [] :: rest) = closed (run ++ block) ++ paragraphsFrom [] rest := by
  induction block generalizing run with
  | nil => simp [paragraphsFrom]
  | cons line lines ih =>
      have tail := ih (fun other member => full other (List.mem_cons_of_mem _ member)) (run ++ [line])
      rw [List.cons_append,paragraphsFrom,if_neg (full line List.mem_cons_self),tail,List.append_assoc,List.singleton_append]

theorem paragraphsFrom_blank (rest : List (List Char)) : paragraphsFrom [] ([] :: rest) = paragraphsFrom [] rest := by
  simp [paragraphsFrom,closed]

-- A heading and the lines under it, of which there may be none.
def block (lines : List (List Char) × List (List Char)) : List Char := join '\n' lines.1 ++ '\n' :: join '\n' lines.2

def Printable (lines : List (List Char)) : Prop := ∀ line ∈ lines, line ≠ [] ∧ '\n' ∉ line

theorem paragraphsFrom_written {head body : List (List Char)} (full : head ≠ []) (heading : Printable head)
    (printable : Printable body) (rest : List (List Char)) :
    paragraphsFrom [] (split '\n' (block (head,body)) ++ [] :: rest) = (head ++ body) :: paragraphsFrom [] rest := by
  have lines : split '\n' (join '\n' head) = head := split_join full fun line member => (heading line member).2
  have filled : head ++ body ≠ [] := by simp [full]
  rw [block,split_append,lines]
  by_cases empty : body = []
  · subst empty
    have blank : head ++ split '\n' (join '\n' []) ++ [] :: rest = head ++ [] :: [] :: rest := by simp [join,split]
    rw [blank,paragraphsFrom_block fun line member => (heading line member).1,paragraphsFrom_blank]
    simp [closed,full]
  · have under : split '\n' (join '\n' body) = body := split_join empty fun line member => (printable line member).2
    have all : ∀ line ∈ head ++ body, line ≠ [] := by
      intro line member
      rcases List.mem_append.mp member with above | below
      · exact (heading line above).1
      · exact (printable line below).1
    rw [under,paragraphsFrom_block all,List.nil_append,closed,if_neg filled]
    rfl

-- Blocks with an empty line between them are told apart again, whatever they say.
theorem paragraphs_blocks {blocks : List (List (List Char) × List (List Char))}
    (good : ∀ lines ∈ blocks, lines.1 ≠ [] ∧ Printable lines.1 ∧ Printable lines.2) :
    paragraphs (['\n','\n'].intercalate (blocks.map block) ++ ['\n']) = blocks.map fun lines => lines.1 ++ lines.2 := by
  induction blocks with
  | nil => rfl
  | cons first others ih =>
      obtain ⟨full,heading,printable⟩ := good first List.mem_cons_self
      cases others with
      | nil =>
          have ended : split '\n' (block first ++ ['\n']) = split '\n' (block first) ++ [[]] := split_append '\n' (block first) []
          have read := paragraphsFrom_written full heading printable []
          rw [List.map_cons,List.map_nil,List.intercalate_singleton,paragraphs,ended]
          simpa [paragraphsFrom,closed] using read
      | cons second more =>
          have tail := ih fun lines member => good lines (List.mem_cons_of_mem _ member)
          have shape : ['\n','\n'].intercalate ((first :: second :: more).map block) ++ ['\n'] =
              block first ++ '\n' :: '\n' :: (['\n','\n'].intercalate ((second :: more).map block) ++ ['\n']) := by
            simp [List.intercalate_cons_cons]
          have apart : split '\n' ('\n' :: (['\n','\n'].intercalate ((second :: more).map block) ++ ['\n'])) =
              [] :: split '\n' (['\n','\n'].intercalate ((second :: more).map block) ++ ['\n']) := by
            rw [split,if_pos rfl]
          rw [paragraphs] at tail
          rw [paragraphs,shape,split_append,apart,paragraphsFrom_written full heading printable,tail]
          rfl

end Foundation

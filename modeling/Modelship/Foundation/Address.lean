import Mathlib.Algebra.Group.Nat.Defs
import Modelship.Foundation.Dict
import Modelship.Foundation.Text

namespace Foundation

-- IP addresses as text: the strict readers of `ipaddress`, and the C library's reader of
-- IPv4, which takes more spellings. An octet has three decimal digits at most and no leading zero.
def parseOctet (text : List Char) : Option Nat :=
  if 3 < text.length ∨ text ≠ ['0'] ∧ text.head? = some '0' then none else
  (numeral 10 text).filter (· ≤ 255)

def fromBytes (a b c d : Nat) : Nat := ((a * 256 + b) * 256 + c) * 256 + d

def ipv4 (text : List Char) : Option Nat :=
  match (split '.' text).mapM parseOctet with
  | some [a,b,c,d] => some (fromBytes a b c d)
  | _ => none

def parseHextet (text : List Char) : Option Nat := if 4 < text.length then none else numeral 16 text

-- A dotted quad at the end stands for two hextets.
def hextets (parts : List (List Char)) : Option (List (List Char)) :=
  match parts.getLast? with
  | none => none
  | some last =>
    if '.' ∈ last then
      (ipv4 last).map fun value =>
        parts.dropLast ++ [Nat.toDigits 16 (value >>> 16 &&& 0xffff),Nat.toDigits 16 (value &&& 0xffff)]
    else some parts

-- Where nothing stands between two colons.
def skips (parts : List (List Char)) : List Nat :=
  (List.range parts.length).filter fun i => 0 < i && i + 1 < parts.length && parts[i]? = some []

-- The parts on one side of `::`. It may end the text, and is then all there is on that side.
def side (ended : Bool) (parts : List (List Char)) : Option (List (List Char)) :=
  if ended then if parts.length = 1 then some [] else none else some parts

def gather (total : Nat) (parts : List Nat) : Nat := parts.foldl (fun total part => total <<< 16 ||| part) total

def ipIntFromString (text : List Char) : Option Nat := do
  if (split ':' text).length < 3 then none else
  let parts ← hextets (split ':' text)
  if 9 < parts.length then none else
  match skips parts with
  | [] =>
    if parts.length ≠ 8 ∨ parts.head? = some [] ∨ parts.getLast? = some [] then none else
    return gather 0 (← parts.mapM parseHextet)
  | [skip] =>
    let high ← side (parts.head? = some []) (parts.take skip)
    let low ← side (parts.getLast? = some []) (parts.drop (skip + 1))
    if 8 ≤ high.length + low.length then none else
    return gather (gather 0 (← high.mapM parseHextet) <<< (16 * (8 - (high.length + low.length)))) (← low.mapM parseHextet)
  | _ => none

-- The address, and the zone that follows a `%`.
def ipv6 (text : List Char) : Option (Nat × Option (List Char)) :=
  if '/' ∈ text then none else
  let before := text.takeWhile (· ≠ '%')
  match text.dropWhile (· ≠ '%') with
  | [] => (ipIntFromString before).map (·,none)
  | _ :: scope => if scope = [] ∨ '%' ∈ scope then none else (ipIntFromString before).map (·,some scope)

-- The IPv4 address of `::ffff:a.b.c.d`.
def ipv4Mapped (value : Nat) : Option Nat := if value >>> 32 = 0xffff then some (value &&& 0xffffffff) else none

inductive Address where
  | four (value : Nat)
  | six (value : Nat) (scope : Option (List Char))
  deriving DecidableEq

def ipAddress (text : List Char) : Option Address :=
  match ipv4 text with
  | some value => some (.four value)
  | none => (ipv6 text).map fun found => .six found.1 found.2

-- A number as C reads one: hexadecimal after `0x`, octal after another `0`.
def cNumber : List Char → Option Nat
  | ['0'] => some 0
  | '0' :: 'x' :: digits => numeral 16 digits
  | '0' :: 'X' :: digits => numeral 16 digits
  | '0' :: digits => numeral 8 digits
  | digits => numeral 10 digits

-- One to four numbers, the last of which fills the bytes that are left.
def inetAton (text : List Char) : Option Nat :=
  match (split '.' text).mapM cNumber with
  | some [a] => if a ≤ 0xffffffff then some a else none
  | some [a,b] => if a ≤ 255 ∧ b ≤ 0xffffff then some (a * 2 ^ 24 + b) else none
  | some [a,b,c] => if a ≤ 255 ∧ b ≤ 255 ∧ c ≤ 0xffff then some ((a * 256 + b) * 2 ^ 16 + c) else none
  | some [a,b,c,d] => if a ≤ 255 ∧ b ≤ 255 ∧ c ≤ 255 ∧ d ≤ 255 then some (fromBytes a b c d) else none
  | _ => none

-- An octet is no octal and no hexadecimal number, so both read it alike.
theorem parseOctet_cNumber {text : List Char} {value : Nat} (octet : parseOctet text = some value) :
    cNumber text = some value ∧ value ≤ 255 := by
  unfold parseOctet at octet
  split at octet
  · cases octet
  · rename_i plain
    obtain ⟨read,small⟩ := Option.filter_eq_some_iff.mp octet
    refine ⟨?_,of_decide_eq_true small⟩
    have leads : text = ['0'] ∨ text.head? ≠ some '0' := by
      by_cases zero : text = ['0']
      · exact .inl zero
      · exact .inr fun head => plain (.inr ⟨zero,head⟩)
    unfold cNumber
    split
    · cases read
      rfl
    · exact absurd leads (by simp)
    · exact absurd leads (by simp)
    · rename_i digits other _ _
      rcases leads with zero | head
      · exact (other (List.cons.inj zero).2).elim
      · exact absurd rfl head
    · exact read

theorem ipv4_inetAton {text : List Char} {value : Nat} (strict : ipv4 text = some value) : inetAton text = some value := by
  unfold ipv4 at strict
  split at strict
  · rename_i a b c d octets
    have numbers := mapM_laxer (fun _ _ octet => (parseOctet_cNumber octet).1) octets
    have small : ∀ number ∈ [a,b,c,d], number ≤ 255 := by
      intro number member
      obtain ⟨part,_,octet⟩ := paired_right (mapM_paired octets) member
      exact (parseOctet_cNumber octet).2
    unfold inetAton
    rw [numbers]
    dsimp only
    rw [if_pos ⟨small a (by simp),small b (by simp),small c (by simp),small d (by simp)⟩]
    exact strict
  · cases strict

end Foundation

import ShellConfig.Text.Blank
import ShellConfig.Text.Digits

/-!
# Whole numbers in strings

A string may hold a whole number: plainly, as digits behind a minus sign, or with blanks around it,
a plus sign, zeros in front, underscores between digits and a fraction of zeros. All of these are
taken away before the number is read plainly.
-/

namespace ShellConfig

/-- What a string that should hold a whole number turns out to be. -/
inductive Numeral
  | number (n : Int)
  /-- A number of more characters than are read. -/
  | tooLong
  | malformed
  deriving DecidableEq, Repr

namespace Numeral

open Text

/-- How many characters a number may have, its sign among them. -/
def maxLength : Nat := 4300

/-- The number that some digits write behind a sign, and what follows. Only 0 itself begins with 0,
and the digits at the front must not be too many whatever follows them. -/
def ofDigits (negative : Bool) (t : Text) : Numeral :=
  let ds := t.takeWhile isDigit
  let n : Int := digitsValue ds
  match ds with
  | [] => malformed
  | d :: more =>
    if d = '0' then if more.isEmpty ∧ t.length = 1 then number 0 else malformed
    else if maxLength < ds.length + negative.toNat then tooLong
    else if ds.length < t.length then malformed
    else number (if negative then -n else n)

/-- The number that a string is, without anything around it. -/
def plain : Text → Numeral
  | '-' :: t => ofDigits true t
  | t => ofDigits false t

def isPadding (c : Char) : Bool := isBlank c && !(28 ≤ c.toNat && c.toNat ≤ 31)

def trim (t : Text) : Text := ((t.dropWhile isPadding).reverse.dropWhile isPadding).reverse

/-- A string without the plus sign in front, behind which there is no other sign. -/
def dropPlus? : Text → Option Text
  | '+' :: '-' :: _ => none
  | '+' :: t => some t
  | t => some t

/-- What is left of a string behind the zeros and underscores in front, given the last of these.
That one stays if nothing follows, or a fraction. A minus sign may stand behind them. -/
def dropZeros? (last : Char) : Text → Option Text
  | [] => some [last]
  | c :: t =>
    if c = '0' ∨ c = '_' then dropZeros? c t
    else if isDigit c ∨ c = '-' then some (c :: t)
    else if c = '.' then some (last :: c :: t)
    else none

/-- A string without needless zeros in front. It must begin with a digit. -/
def dropLeadingZeros? : Text → Option Text
  | [] => none
  | c :: t => if c = '0' then dropZeros? c t else if isDigit c then some (c :: t) else none

/-- A string without its fraction, if that is made of zeros, at least one. -/
def dropFraction (t : Text) : Text :=
  match t.dropWhile (· ≠ '.') with
  | _ :: z :: zs => if (z :: zs).all (· == '0') then t.takeWhile (· ≠ '.') else t
  | _ => t

/-- A string without its underscores, if each of them stands alone and inside. -/
def dropUnderscores? (t : Text) : Option Text :=
  let pieces := t.splitOn '_'
  if pieces.any List.isEmpty then none else some pieces.flatten

/-- The plain form of a number with something around it but no sign in front. -/
def cleanUnsigned? (t : Text) : Option Text := do
  let t ← dropLeadingZeros? t
  dropUnderscores? (dropFraction t)

/-- The plain form of a number with something around it. A minus sign in front stays there. -/
def clean? (t : Text) : Option Text := do
  match ← dropPlus? (trim t) with
  | '-' :: t => (cleanUnsigned? t).map ('-' :: ·)
  | t => cleanUnsigned? t

/-- The whole number in a string. -/
def read (t : Text) : Numeral :=
  match plain t with
  | malformed => ((clean? t).map plain).getD malformed
  | n => n

end Numeral
end ShellConfig

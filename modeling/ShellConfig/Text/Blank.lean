import ShellConfig.Text.Basic

/-!
# Blanks

The characters that separate words, and what trimming and cutting at them give. All rules of the
library that speak of blanks use this one set.
-/

namespace ShellConfig.Text

/-- White space: the control characters 9 to 13 and 28 to 31, the space and the other spacing
characters, and the separators of lines and paragraphs. -/
def isBlank (c : Char) : Bool :=
  let n := c.toNat
  (9 ≤ n && n ≤ 13) || (28 ≤ n && n ≤ 32) || n == 0x85 || n == 0xA0 || n == 0x1680 ||
    (0x2000 ≤ n && n ≤ 0x200A) || n == 0x2028 || n == 0x2029 || n == 0x202F || n == 0x205F ||
    n == 0x3000

/-- The blanks a text begins with. -/
def leadingBlanks (t : Text) : Text := t.takeWhile isBlank

def trimLeft (t : Text) : Text := t.dropWhile isBlank

def trimRight (t : Text) : Text :=
  t.foldr (fun c r => if r.isEmpty && isBlank c then [] else c :: r) []

def trim (t : Text) : Text := trimRight (trimLeft t)

def allBlank (t : Text) : Bool := t.all isBlank

/-- The words of a text: its longest pieces without blanks. -/
def words (t : Text) : List Text := (splitBy isBlank t).filter (!·.isEmpty)

@[simp] theorem leadingBlanks_append_trimLeft (t : Text) : leadingBlanks t ++ trimLeft t = t :=
  List.takeWhile_append_dropWhile

@[simp] theorem trimRight_nil : trimRight [] = [] := rfl

@[simp] theorem trimRight_cons (c : Char) (t : Text) :
    trimRight (c :: t) =
      if (trimRight t).isEmpty && isBlank c then [] else c :: trimRight t := rfl

/-- What follows one blank or more. -/
def afterBlanks? : Text → Option Text
  | c :: t => if isBlank c then some (trimLeft t) else none
  | [] => none

/-- Whether some way of reading blanks first, at least one, leaves a text that satisfies `p`. -/
def someBlanksThen (p : Text → Bool) : Text → Bool
  | [] => false
  | c :: t => isBlank c && (p t || someBlanksThen p t)

/-- Whether some way of reading blanks first, or none, leaves a text that satisfies `p`. -/
def blanksThen (p : Text → Bool) (t : Text) : Bool := p t || someBlanksThen p t

end ShellConfig.Text

import ShellConfig.Section.Heading
import ShellConfig.Text.Blank

/-!
# Section names

Names of sections are compared loosely. A name is reduced to its letters and digits, and these to a
core without a common last word; equal names match best, then equal cores, then cores of which one
begins with the other.
-/

namespace ShellConfig

namespace SectionName

/-- A letter or digit in lower case, and nothing for any other character. -/
def fold (c : Char) : Text :=
  if Text.isLetter c ∨ Text.isDigit c then [c.toLower]
  else if c = 'İ' then ['i']
  else if c = Char.ofNat 0x212A then ['k']
  else []

def normalize (t : Text) : Text := t.flatMap fold

/-- The last words that do not tell sections apart. -/
def suffixes : List Text :=
  ["aliases".toList, "alias".toList, "config".toList, "configuration".toList, "stuff".toList,
    "settings".toList, "shortcuts".toList, "commands".toList]

/-- A normalized name without the first of the suffixes that it ends with and that is not all of it.
-/
def core (t : Text) : Text :=
  (suffixes.findSome? fun s => (Text.before? s t).filter (!·.isEmpty)).getD t

/-- How well a heading matches a name; 0 means not at all. -/
def score (target label : Text) : Nat :=
  let a := normalize target
  let b := normalize label
  if a = b then 100
  else if (core a).isEmpty ∨ (core b).isEmpty then 0
  else if core a = core b then 90
  else if 3 ≤ min (core a).length (core b).length ∧
      ((core a).isPrefixOf (core b) ∨ (core b).isPrefixOf (core a)) then 50
  else 0

end SectionName

/-- A section that fits a name: its heading, its last line, and how well it fits. -/
structure SectionMatch where
  label : Text
  startLine : Nat
  endLine : Nat
  score : Nat
  deriving DecidableEq, Repr

namespace SectionMatch

/-- Each marker with the last line before the next one, or the last line of all. -/
def withEnds (last : Nat) : List Marker → List (Marker × Nat)
  | [] => []
  | [m] => [(m, last)]
  | m :: n :: ms => (m, n.lineNumber - 1) :: withEnds last (n :: ms)

/-- The number of the last line of a text; the ending of a line starts no further one. -/
def lastLine (t : Text) : Nat :=
  let ls := (LineEnding.of t).split t
  if 1 < ls.length ∧ ls.getLast? = some [] then ls.length - 1 else ls.length

/-- The section of a text that fits a name best, and of several the first. -/
def find? (t name : Text) : Option SectionMatch :=
  let candidates := (withEnds (lastLine t) (Marker.all t)).filter fun p =>
    !p.1.isEnd && 0 < SectionName.score name p.1.label
  (firstBest (fun p => SectionName.score name p.1.label) candidates).map fun p =>
    ⟨p.1.label, p.1.lineNumber, p.2, SectionName.score name p.1.label⟩

end SectionMatch
end ShellConfig

import ShellConfig.Entry.Recognize
import ShellConfig.Text.Lines

/-!
# Section markers

A comment line of a certain shape opens or closes a section. There are seven shapes, the dialects,
in five formats; the first dialect that reads a line decides what it is.
-/

namespace ShellConfig

/-- A style in which headings are written. -/
inductive HeadingFormat
  | dashed
  | bracketed
  | hash
  | labeled
  | custom
  deriving DecidableEq, Repr

namespace HeadingFormat

def all : List HeadingFormat := [dashed, bracketed, hash, labeled, custom]

def name : HeadingFormat → Text
  | dashed => "dashed".toList
  | bracketed => "bracketed".toList
  | hash => "hash".toList
  | labeled => "labeled".toList
  | custom => "custom".toList

def ofName? (t : Text) : Option HeadingFormat := all.find? fun f => f.name == t

theorem ofName?_name (f : HeadingFormat) : ofName? f.name = some f := by cases f <;> decide

end HeadingFormat

/-- A shape of marker lines. -/
inductive Dialect
  | customEnd
  | customStart
  | dashedEnd
  | dashedStart
  | bracketed
  | labeled
  | hash
  deriving DecidableEq, Repr

namespace Dialect

/-- All dialects, in the order in which they are tried. -/
def all : List Dialect :=
  [customEnd, customStart, dashedEnd, dashedStart, bracketed, labeled, hash]

def name : Dialect → Text
  | customEnd => "custom_end".toList
  | customStart => "custom_start".toList
  | dashedEnd => "dashed_end".toList
  | dashedStart => "dashed_start".toList
  | bracketed => "bracketed".toList
  | labeled => "labeled".toList
  | hash => "hash".toList

def format : Dialect → HeadingFormat
  | customEnd | customStart => .custom
  | dashedEnd | dashedStart => .dashed
  | bracketed => .bracketed
  | labeled => .labeled
  | hash => .hash

/-- Whether a dialect closes sections. -/
def isEnd : Dialect → Bool
  | customEnd | dashedEnd => true
  | _ => false

end Dialect

namespace Text

/-- Whether a letter is taken for a letter of a marker word: in either case, and the long s and the
two foreign forms of i for s and i. -/
def sameLetter (p c : Char) : Bool :=
  p.toLower == c.toLower || (p.toLower == 's' && c == 'ſ') ||
    (p.toLower == 'i' && (c == 'İ' || c == 'ı'))

end Text

namespace Marker

open Text

/-- The label that some text gives to a section: the text without the blanks around it. A label does
not run over the end of a line. -/
def label? (t : Text) : Option Text := if '\n' ∈ trim t then none else some (trim t)

/-- A label that must be there: it may be blank, but then a blank that ends no line must stand for
it. -/
def requiredLabel? (t : Text) : Option Text :=
  if allBlank t then if t.any (· != '\n') then some [] else none else label? t

/-- What follows the number sign that a marker begins with. -/
def afterHash? (t : Text) : Option Text := after? ['#'] (trimLeft t)

/-- What follows any number of number signs, at least one. -/
def afterHashes? (t : Text) : Option Text := (afterHash? t).map fun r => r.dropWhile (· == '#')

/-- What follows a number sign and three dashes. -/
def afterRule? (t : Text) : Option Text := ((afterHash? t).map trimLeft).bind (after? "---".toList)

/-- What precedes three dashes and a number sign at the end. -/
def beforeRule? (t : Text) : Option Text :=
  ((before? ['#'] (trimRight t)).map trimRight).bind (before? "---".toList)

/-- What follows a word in any case, if the word ends there. -/
def afterWord? (w t : Text) : Option Text := (afterBy? sameLetter w t).filter atWordEnd

/-- The label that a dialect reads on a line, if the line has its shape. -/
def readAs? (t : Text) : Dialect → Option Text
  | .customEnd => (((afterHash? t).map trimLeft).bind (afterWord? "@end".toList)).bind label?
  | .customStart =>
    match ((afterHash? t).map trimLeft).bind (afterBy? sameLetter "@start".toList) with
    | some (c :: r) => if isBlank c then requiredLabel? r else none
    | _ => none
  | .dashedEnd =>
    ((((afterRule? t).map trimLeft).bind (afterWord? "End".toList)).bind beforeRule?).bind label?
  | .dashedStart => do
    let r ← (afterRule? t).map trimLeft
    if (afterWord? "End".toList r).isSome then none
    else
      let b ← beforeRule? r
      if b.isEmpty then none else label? b
  | .bracketed => do
    let r ← ((afterHashes? t).map trimLeft).bind (after? ['['])
    let b ← before? [']'] (trimRight r)
    requiredLabel? b
  | .labeled => do
    let r ← ((afterHashes? t).map trimLeft).bind (afterBy? sameLetter "section".toList)
    let r ← after? [':'] (trimLeft r)
    requiredLabel? r
  | .hash => do
    let r ← ((afterHash? t).bind afterHash?).bind afterBlanks?
    if r.isEmpty ∨ r.head? = some '#' then none else label? r

end Marker

/-- A line that opens or closes a section. -/
structure Marker where
  dialect : Dialect
  label : Text
  lineNumber : Nat
  deriving DecidableEq, Repr

namespace Marker

/-- The number of characters above which no line is a marker. -/
def maxLength : Nat := 1000

/-- The marker that a line is. -/
def ofLine? (l : Line) : Option Marker :=
  if maxLength < l.text.length then none
  else Dialect.all.findSome? fun d => (readAs? l.text d).map fun t => ⟨d, t, l.number⟩

def isEnd (m : Marker) : Bool := m.dialect.isEnd

def ofLines (ls : List Line) : List Marker := ls.filterMap ofLine?

def all (t : Text) : List Marker := ofLines (Line.all t)

end Marker
end ShellConfig

import ShellConfig.Text.Basic

/-!
# Lines

Three ways to cut a text into lines, which differ in what becomes of carriage returns: `lines` drops
the one before a line feed, `splitOn '\n'` keeps all of them, and `LineEnding.split` cuts at the
ending that the text uses throughout. Line numbers start at 1.
-/

namespace ShellConfig

namespace Text

/-- The lines of a text. A line feed ends a line, and so does a carriage return with a line feed. -/
def lines : Text → List Text
  | [] => [[]]
  | '\n' :: t => [] :: lines t
  | '\r' :: '\n' :: t => [] :: lines t
  | c :: t => consHead c (lines t)

/-- How many line feeds stand right behind a carriage return. -/
def crlfCount : Text → Nat
  | [] => 0
  | '\r' :: '\n' :: t => crlfCount t + 1
  | _ :: t => crlfCount t

/-- The pieces of a text between the pairs of carriage return and line feed. -/
def splitCrlf : Text → List Text
  | [] => [[]]
  | '\r' :: '\n' :: t => [] :: splitCrlf t
  | c :: t => consHead c (splitCrlf t)

end Text

/-- What ends the lines of a text. -/
inductive LineEnding
  | lf
  | crlf
  deriving DecidableEq, Repr

namespace LineEnding

def text : LineEnding → Text
  | lf => ['\n']
  | crlf => ['\r', '\n']

/-- The ending of a text: with the carriage return if it has a line feed and each follows one. -/
def of (t : Text) : LineEnding :=
  if 0 < t.crlfCount ∧ t.crlfCount = t.count '\n' then crlf else lf

/-- The pieces of a text between its endings. -/
def split : LineEnding → Text → List Text
  | lf, t => t.splitOn '\n'
  | crlf, t => t.splitCrlf

end LineEnding

structure Line where
  number : Nat
  text : Text
  deriving DecidableEq, Repr

namespace Line

/-- The lines of a text with their numbers. -/
def all (t : Text) : List Line := (t.lines.zipIdx 1).map fun p => ⟨p.2, p.1⟩

/-- Whether a line has at most `limit` characters. -/
def fits (limit : Int) (l : Line) : Bool := (l.text.length : Int) ≤ limit

/-- The lines short enough to be looked at. The others are passed over, and keep their numbers. -/
def safe (limit : Int) (t : Text) : List Line := (all t).filter (fits limit)

end Line
end ShellConfig

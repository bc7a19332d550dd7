import ShellConfig.Section.Marker
import ShellConfig.Entry.Parse

/-!
# Sections

A text falls into sections, runs of lines with one label. A start marker opens a section with its
own line, an end marker closes the open one behind its line, and lines in no open section form
sections that are called unlabeled. The sections of a text cover its lines without gap or overlap.
-/

namespace ShellConfig

/-- A run of lines with a label, from its first line to its last. -/
structure Segment where
  label : Text
  startLine : Nat
  endLine : Nat
  deriving DecidableEq, Repr

namespace Segment

/-- The segment of a range of lines, if the range has any. -/
def close (label : Text) (startLine endLine : Nat) : List Segment :=
  if startLine ≤ endLine then [⟨label, startLine, endLine⟩] else []

def contains (s : Segment) (n : Int) : Bool := (s.startLine : Int) ≤ n && n ≤ (s.endLine : Int)

/-- The label of the section that a marker opens. A blank label is no label. -/
def labelOf (m : Marker) : Text := if m.label.isEmpty then unlabeled else m.label

/-- The segments from a line on, up to the last line, given the label that is open and the markers
still to come. An end marker without an open label is an ordinary line. -/
def cut (label : Text) (start last : Nat) : List Marker → List Segment
  | [] => close label start last
  | m :: ms =>
    if m.isEnd then
      if label = unlabeled then cut label start last ms
      else close label start m.lineNumber ++ cut unlabeled (m.lineNumber + 1) last ms
    else close label start (m.lineNumber - 1) ++ cut (labelOf m) m.lineNumber last ms

end Segment

/-- A section with its text and what stands in it. -/
structure Section extends Segment where
  content : Text
  /-- How many entries of a kind there are. -/
  count : Kind → Nat
  /-- How many lines are neither blank nor comments nor carry an entry. -/
  otherCount : Nat

namespace Section

def lineCount (s : Section) : Int := s.endLine - s.startLine + 1

def isComment (t : Text) : Bool := (Text.trimLeft t).head? == some '#'

/-- Whether a line without entries counts as something else than a blank or a comment. -/
def isOther (t : Text) : Bool := !Text.allBlank t && !isComment t

/-- The section of a segment of some lines, given all entries. -/
def ofSegment (ls : List Line) (es : List Entry) (s : Segment) : Section :=
  let here := (ls.drop (s.startLine - 1)).take (s.endLine + 1 - s.startLine)
  let inside := es.filter fun e => s.contains e.lineNumber
  { toSegment := s
    content := Text.join ['\n'] (here.map (·.text))
    count := fun k => inside.countP (·.kind = k)
    otherCount := here.countP fun l =>
      isOther l.text && !inside.any fun e => e.lineNumber = l.number }

/-- The segments of a text. The empty text has none. -/
def segments (t : Text) (limit : Int := Entry.defaultLimit) : List Segment :=
  if t.isEmpty then []
  else Segment.cut unlabeled 1 t.lines.length (Marker.ofLines (Line.safe limit t))

def ofText (t : Text) (limit : Int := Entry.defaultLimit) : List Section :=
  (segments t limit).map (ofSegment (Line.all t) (Entry.ofText t limit))

/-- The label of a line: that of its section, and unlabeled outside of all. -/
def labelAt (ss : List Section) (n : Int) : Text :=
  ((ss.find? (·.contains n)).map (·.label)).getD unlabeled

end Section

namespace Entry

/-- An entry with the label of the section it stands in. -/
def labeled (ss : List Section) (e : Entry) : Entry :=
  { e with label := some (Section.labelAt ss e.lineNumber) }

/-- The entries of a text, of one kind or of all, each with the label of its section. -/
def inSections (t : Text) (kind? : Option Kind := none) (limit : Int := defaultLimit) :
    List Entry :=
  let es := match kind? with
    | none => ofText t limit
    | some k => ofKind k t limit
  es.map (labeled (Section.ofText t limit))

end Entry
end ShellConfig

import ShellConfig.Section.Marker
import ShellConfig.FirstBest

/-!
# Headings

The lines that open and close a section in a format, and the format that a text uses.
-/

namespace ShellConfig.HeadingFormat

/-- The format used where nothing else is said. -/
def default : HeadingFormat := dashed

/-- The line that opens a section. -/
def startLine (f : HeadingFormat) (name : Text) : Text :=
  match f with
  | dashed => "# --- ".toList ++ name ++ " --- #".toList
  | bracketed => "# [ ".toList ++ name ++ " ]".toList
  | hash => "## ".toList ++ name
  | labeled => "# Section: ".toList ++ name
  | custom => "# @start ".toList ++ name

/-- The line that closes a section, in the formats that have one. -/
def endLine? (f : HeadingFormat) (name : Text) : Option Text :=
  match f with
  | dashed => some ("# --- End ".toList ++ name ++ " --- #".toList)
  | custom => some ("# @end ".toList ++ name)
  | _ => none

/-- The format that a word asks for: none for the empty word, the default for an unknown one. -/
def ofWord (t : Text) : Option HeadingFormat :=
  if t.isEmpty then none else some ((ofName? t).getD default)

/-- The format of most markers of a text, and of several such formats the one seen first. -/
def detect (t : Text) : HeadingFormat :=
  let used := (Marker.all t).map (·.dialect.format)
  (firstBest used.count used.eraseDups).getD default

end ShellConfig.HeadingFormat

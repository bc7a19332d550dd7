import ShellConfig.Diff.Preview
import ShellConfig.Entry.Duplicates
import ShellConfig.Files.RcFile
import ShellConfig.Section.Basic
import ShellConfig.Settings.Store

/-!
# Records in JSON

How the records of the library are written for clients, and how those that clients send are read.
-/

namespace ShellConfig

namespace Json

/-- A list of values. -/
def list {α : Type} (f : α → Json) (l : List α) : Json := array (l.map f)

def record (ms : List (String × Json)) : Json := object (ms.map fun m => (m.1.toList, m.2))

def word (s : String) : Json := text s.toList

/-- A value that may be missing. -/
def ofOption {α : Type} (f : α → Json) : Option α → Json
  | some a => f a
  | none => null

end Json

open Json

/-! ### Written -/

namespace Entry

def fieldJson (e : Entry) : Field → Json
  | .lineNumber => .int e.lineNumber
  | f => ofText? (e.get? f)

def toJson (e : Entry) : Json := .object (Field.all.map fun f => (f.key, e.fieldJson f))

end Entry

def Section.toJson (s : Section) : Json :=
  .object
    ([("label".toList, .text s.label), ("start_line".toList, .nat s.startLine),
      ("end_line".toList, .nat s.endLine), ("content".toList, .text s.content)] ++
      Kind.all.map (fun k => (k.name ++ "_count".toList, .nat (s.count k))) ++
      [("other_count".toList, .nat s.otherCount), ("line_count".toList, .int s.lineCount)])

def DuplicateGroup.toJson (g : DuplicateGroup) : Json :=
  record
    [("key", .text g.key), ("occurrences", list Entry.toJson g.occurrences),
      ("count", .nat g.count), ("sections", list .text g.labels)]

def DuplicateReport.toJson (r : DuplicateReport) : Json :=
  record [("duplicates", list DuplicateGroup.toJson r.groups), ("total_duplicates", .nat r.total)]

def DiffLine.toJson (l : DiffLine) : Json :=
  record
    [("type", .text l.change.name), ("content", .text l.content),
      ("line_number", ofOption .int l.lineNumber)]

def Diff.toJson (d : Diff) : Json :=
  record
    [("has_changes", .bool d.hasChanges), ("additions", .int d.additions),
      ("deletions", .int d.deletions), ("lines", list DiffLine.toJson d.lines),
      ("markdown", .text d.markdown)]

/-- What is known of a backup as an object, given how moments are written. -/
def BackupInfo.toJson (timeText : Stamp → Text) (i : BackupInfo) : Json :=
  record
    [("exists", .bool i.present), ("path", .text i.path.text), ("size_bytes", .nat i.size),
      ("modified_at", ofText? (i.modified.map timeText)),
      ("size_formatted", ofText? (ByteSize.text? i.size))]

namespace Location

def toJson : Location → Json
  | field n => .text n
  | index i => .nat i

end Location

def Issue.toJson (i : Issue) : Json :=
  record [("loc", list Location.toJson i.location), ("type", .text i.kind.name)]

/-! ### Read -/

def AliasDefinition.ofMembers (ms : List (Text × Json)) : Checked AliasDefinition :=
  AliasDefinition.mk <$> required "name".toList asText ms <*> required "command".toList asText ms
    <*> optional "description".toList none (orNull asText) ms

def Payload.ofMembers (ms : List (Text × Json)) : Checked Payload :=
  let piece (f : Field) := optional f.key none (orNull asText) ms
  Payload.mk <$> piece .name <*> piece .varName <*> piece .command <*> piece .value <*> piece .path
    <*> piece .option

def Entry.ofMembers (ms : List (Text × Json)) : Checked Entry :=
  Entry.mk <$> required Field.kind.key (asWord .enum Kind.ofName?) ms
    <*> required Field.lineNumber.key asInt ms
    <*> required Field.lineText.key asText ms
    <*> optional Field.label.key none (orNull asText) ms
    <*> Payload.ofMembers ms

def DiffLine.ofMembers (ms : List (Text × Json)) : Checked DiffLine :=
  DiffLine.mk <$> required "type".toList (asWord .literal Change.ofName?) ms
    <*> required "content".toList asText ms
    <*> optional "line_number".toList none (orNull asInt) ms

/-- A difference in the members of an object. Whether it has changes must agree with its numbers. -/
def Diff.ofMembers (ms : List (Text × Json)) : Checked Diff :=
  (Prod.mk <$> required "has_changes".toList asBool ms
    <*> (Diff.mk <$> required "additions".toList asInt ms
      <*> required "deletions".toList asInt ms
      <*> required "lines".toList (asList (asRecord .modelType DiffLine.ofMembers)) ms
      <*> required "markdown".toList asText ms)).andThen
    fun (changes, d) => if changes = d.hasChanges then .ok d else .fail .value (object ms)

end ShellConfig

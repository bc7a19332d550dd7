import ShellConfig.Entry.Kind
import ShellConfig.Text.Digits

/-!
# Entries

An entry is one fact taken from one line: its kind, where it stands, and the pieces of the line that
matter for the kind.
-/

namespace ShellConfig

/-- The label of lines that belong to no labeled section. -/
def unlabeled : Text := "Unlabeled".toList

/-- The pieces of a line that an entry records. Which are present depends on the kind. -/
structure Payload where
  name : Option Text := none
  varName : Option Text := none
  command : Option Text := none
  value : Option Text := none
  path : Option Text := none
  option : Option Text := none
  deriving DecidableEq, Repr

/-- One construct found on one line. -/
structure Entry where
  kind : Kind
  lineNumber : Int
  lineText : Text
  label : Option Text := none
  payload : Payload := {}
  deriving DecidableEq, Repr

/-- The fields of an entry, by which entries can be compared. -/
inductive Field
  | kind
  | lineNumber
  | lineText
  | label
  | name
  | varName
  | command
  | value
  | path
  | option
  deriving DecidableEq, Repr

namespace Field

def all : List Field :=
  [kind, lineNumber, lineText, label, name, varName, command, value, path, option]

def key : Field → Text
  | kind => "type".toList
  | lineNumber => "line_number".toList
  | lineText => "original_line".toList
  | label => "section".toList
  | name => "name".toList
  | varName => "variable".toList
  | command => "command".toList
  | value => "value".toList
  | path => "path".toList
  | option => "option".toList

def ofKey? (t : Text) : Option Field := all.find? fun f => f.key == t

theorem ofKey?_key (f : Field) : ofKey? f.key = some f := by cases f <;> decide

end Field

namespace Payload

/-- The piece recorded under a field; the fields that every entry has are not part of the payload.
-/
def get? (p : Payload) : Field → Option Text
  | .name => p.name
  | .varName => p.varName
  | .command => p.command
  | .value => p.value
  | .path => p.path
  | .option => p.option
  | _ => none

end Payload

namespace Kind

/-- The fields that an entry of a kind records. -/
def fields : Kind → List Field
  | aliased => [.name, .command]
  | exported => [.varName, .value]
  | function => [.name]
  | source => [.path]
  | plugin => [.name]
  | setopt => [.option]
  | eval => [.command]
  | autoload => [.name]
  | fpath => [.path]
  | path => [.value]
  | theme => [.name]
  | completion => [.command]
  | history => [.varName, .value]
  | keybinding => [.command]

end Kind

namespace Entry

def get? (e : Entry) : Field → Option Text
  | .kind => some e.kind.name
  | .lineNumber => some (Text.ofInt e.lineNumber)
  | .lineText => some e.lineText
  | .label => e.label
  | f => e.payload.get? f

/-- The text of the field with a given name, if there is such a field and the entry has it. -/
def key? (e : Entry) (name : Text) : Option Text := (Field.ofKey? name).bind e.get?

end Entry
end ShellConfig

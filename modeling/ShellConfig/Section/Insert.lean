import ShellConfig.Section.Name
import ShellConfig.Shell.Quote
import ShellConfig.Entry.Edit
import ShellConfig.Text.Quoted

/-!
# Inserting aliases

New aliases go under the heading that fits a name best, or under a new heading at the end of the
text. What is inserted is one block of lines with the ending of the text.
-/

namespace ShellConfig

/-- An alias to be written. -/
structure AliasDefinition where
  name : Text
  command : Text
  description : Option Text := none
  deriving DecidableEq, Repr

/-- Where aliases were put. -/
inductive Destination
  | existing
  | new
  | endOfText
  deriving DecidableEq, Repr

/-- A text with aliases inserted. -/
structure InsertResult where
  content : Text
  message : Text
  addedTo : Destination
  sectionName : Option Text := none
  deriving DecidableEq, Repr

namespace Insert

open Text

/-- The text of an optional part; an empty one counts as missing. -/
def present : Option Text → Option Text
  | some (c :: t) => some (c :: t)
  | _ => none

/-- The lines for one alias: its description as a comment, and its declaration. -/
def linesOf (comments : Bool) (a : AliasDefinition) : Except EditError (List Text) :=
  match Shell.aliasLine? a.name a.command with
  | none => .error (.invalidAliasName a.name)
  | some l =>
    match present a.description, comments with
    | some d, true => .ok [['#', ' '] ++ d, l]
    | _, _ => .ok [l]

/-- The lines for some aliases. The first name that is none is refused. -/
def aliasLines (as : List AliasDefinition) (comments : Bool := true) :
    Except EditError (List Text) :=
  match as with
  | [] => .ok []
  | a :: as => do
    let ls ← linesOf comments a
    let rest ← aliasLines as comments
    pure (ls ++ rest)

/-- A text with lines inserted behind a section, and an empty line before them unless a blank line
precedes. -/
def intoSection (t : Text) (m : SectionMatch) (new : List Text) : Text :=
  let e := LineEnding.of t
  let ls := e.split t
  let block := if 0 < m.endLine ∧ !allBlank (ls[m.endLine - 1]?.getD []) then [] :: new else new
  join e.text (ls.take m.endLine ++ block ++ ls.drop m.endLine)

def newSection (t name : Text) (new : List Text) (f : HeadingFormat) : Text :=
  let closing := match f.endLine? name with
    | some l => [[], l]
    | none => []
  t ++ join (LineEnding.of t).text ([[], f.startLine name, []] ++ new ++ closing ++ [[]])

/-- A name with where it comes from. -/
def attributed (name : Text) (attribution : Option Text) : Text :=
  match present attribution with
  | some a => name ++ " (".toList ++ a ++ [')']
  | none => name

/-- How a message speaks of some aliases. -/
def countWord (as : List AliasDefinition) : Text := ofNat as.length ++ " aliases".toList

/-- Adds aliases to the section that fits a name best, or else to a new section. -/
def many (t name : Text) (as : List AliasDefinition) (attribution : Option Text := none)
    (format : Option HeadingFormat := none) : Except EditError InsertResult := do
  let new ← aliasLines as
  match SectionMatch.find? t name with
  | some m =>
    let added := "# Added from ".toList ++ attributed name attribution
    pure
      { content := intoSection t m (added :: new)
        message :=
          "Added ".toList ++ countWord as ++ " to existing section \"".toList ++ m.label ++ ['"']
        addedTo := .existing
        sectionName := some m.label }
  | none =>
    let shown := attributed name attribution
    pure
      { content := newSection t shown new (format.getD (HeadingFormat.detect t))
        message :=
          "Created new section \"".toList ++ shown ++ "\" with ".toList ++ countWord as
        addedTo := .new
        sectionName := some shown }

/-- Adds one alias: to the end of the text without a section name, and else to the section that fits
the name best or to a new one. -/
def one (t : Text) (a : AliasDefinition) (name : Option Text := none)
    (format : Option HeadingFormat := none) : Except EditError InsertResult := do
  let new ← aliasLines [a]
  let added := "Added \"".toList ++ a.name
  match name with
  | none =>
    let e := (LineEnding.of t).text
    pure
      { content := t ++ e ++ join e new ++ e
        message := added ++ "\" to end of file".toList
        addedTo := .endOfText }
  | some name =>
    match SectionMatch.find? t name with
    | some m =>
      pure
        { content := intoSection t m new
          message := added ++ "\" to section \"".toList ++ m.label ++ ['"']
          addedTo := .existing
          sectionName := some m.label }
    | none =>
      pure
        { content := newSection t name new (format.getD (HeadingFormat.detect t))
          message := added ++ "\" to new section \"".toList ++ name ++ ['"']
          addedTo := .new
          sectionName := some name }

end Insert
end ShellConfig

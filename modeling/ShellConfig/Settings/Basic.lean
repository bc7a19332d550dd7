import ShellConfig.Files.Path
import ShellConfig.Json.Decode
import ShellConfig.Section.Heading

/-!
# Settings

What a user can choose, how it is checked, and the file that it selects.
-/

namespace ShellConfig

inductive StartupFile
  | zshrc
  | zprofile
  | zshenv
  deriving DecidableEq, Repr

namespace StartupFile

def all : List StartupFile := [zshrc, zprofile, zshenv]

def name : StartupFile → Text
  | zshrc => "zshrc".toList
  | zprofile => "zprofile".toList
  | zshenv => "zshenv".toList

def ofName? (t : Text) : Option StartupFile := all.find? fun f => f.name == t

def fileName (f : StartupFile) : Text := '.' :: f.name

end StartupFile

structure Settings where
  /-- The file to manage, instead of the startup file. -/
  path : Option Wording := none
  startupFile : StartupFile := .zshrc
  maxLineLength : Nat := 1000
  maxFileSize : Nat := 1024 * 1024
  contextLines : Nat := 3
  previewLines : Nat := 20
  /-- The format of new headings, unless it is taken from the file. -/
  headingFormat : Option HeadingFormat := none
  deriving DecidableEq, Repr

namespace Settings

/-! ### Checking -/

def pathKey : Text := "zshrc_path".toList

def startupFileKey : Text := "config_file_type".toList

def maxLineLengthKey : Text := "max_line_length".toList

def maxFileSizeKey : Text := "max_file_size".toList

def contextLinesKey : Text := "diff_context_lines".toList

def previewLinesKey : Text := "preview_max_lines".toList

def headingFormatKey : Text := "section_format".toList

/-- The word for a startup file, checked. -/
def asStartupFile : Json → Checked StartupFile := Json.asWord .literal StartupFile.ofName?

/-- The word for a heading format, checked. -/
def asHeadingFormat : Json → Checked HeadingFormat := Json.asWord .literal HeadingFormat.ofName?

/-- The settings in the members of an object. A setting that is not among them keeps its default. -/
def ofMembers (ms : List (Text × Json)) : Checked Settings :=
  Settings.mk <$> Json.optional pathKey none (Json.orNull Json.asWording) ms
    <*> Json.optional startupFileKey .zshrc asStartupFile ms
    <*> Json.optional maxLineLengthKey 1000 Json.asPositive ms
    <*> Json.optional maxFileSizeKey (1024 * 1024) Json.asPositive ms
    <*> Json.optional contextLinesKey 3 Json.asNatural ms
    <*> Json.optional previewLinesKey 20 Json.asPositive ms
    <*> Json.optional headingFormatKey none (Json.orNull asHeadingFormat) ms

/-- The settings that a value holds. -/
def ofJson : Json → Checked Settings := Json.asRecord .modelType ofMembers

/-- Settings as the members of an object. -/
def toMembers (s : Settings) : List (Text × Json) :=
  [(pathKey, .ofWording? s.path), (startupFileKey, .text s.startupFile.name),
    (maxLineLengthKey, .nat s.maxLineLength), (maxFileSizeKey, .nat s.maxFileSize),
    (contextLinesKey, .nat s.contextLines), (previewLinesKey, .nat s.previewLines),
    (headingFormatKey, .ofText? (s.headingFormat.map HeadingFormat.name))]

def toJson (s : Settings) : Json := .object s.toMembers

/-- Settings with some of them replaced, checked as a whole. -/
def update (s : Settings) (ms : List (Text × Json)) : Checked Settings :=
  ofMembers (s.toMembers ++ ms)

/-! ### The managed file -/

/-- The given path, if there is one. The empty text gives none. -/
def given? (s : Settings) : Option Path :=
  match s.path with
  | some w => if w.pathText.isEmpty then none else some (.ofText w.pathText)
  | none => none

/-- The path that the settings select: the given one, or that of the startup file in the home
directory. -/
def unexpanded (s : Settings) : Path :=
  s.given?.getD ⟨.relative, [['~'], s.startupFile.fileName]⟩

/-- The file that the settings select, given the home directories of users, if that of the user in
question is known. -/
def target? (homeOf : Text → Option Path) (s : Settings) : Option Path :=
  s.unexpanded.expandHome? homeOf

end Settings
end ShellConfig

import ShellConfig.Files.Tree
import ShellConfig.Entry.Edit
import ShellConfig.Json.Decode
import ShellConfig.Json.Reader
import ShellConfig.Text.Quoted

/-!
# Failures

Why an operation on files or settings is not carried out, and how that is said.
-/

namespace ShellConfig

/-- An error of the system with the paths it names. -/
structure Fault where
  errno : Errno
  path : Path
  second : Option Path := none
  deriving DecidableEq, Repr

/-- An error of the system by its number, with its words. -/
def Errno.numbered (code : Nat) (words : Text) : Text :=
  "[Errno ".toList ++ Text.ofNat code ++ "] ".toList ++ words

namespace Fault

def text (f : Fault) : Text :=
  Errno.numbered f.errno.code f.errno.text ++ ": ".toList ++ Text.quoted f.path.text ++
    (match f.second with
      | some p => " -> ".toList ++ Text.quoted p.text
      | none => [])

end Fault

/-- Why a file cannot be read as text. -/
inductive ReadCause
  | system (e : Errno)
  | undecodable
  deriving DecidableEq, Repr

/-- Why new content is not in a file. -/
inductive WriteCause
  | system (e : Errno)
  /-- What is read afterwards is not what was written. -/
  | mismatch
  deriving DecidableEq, Repr

/-- A failure of the system while bytes are written to an open file: how many of them have reached
the file by then, and the number of the error with its words. -/
structure WriteFault where
  written : Nat
  code : Nat
  words : Text
  deriving DecidableEq, Repr

/-- Why settings are not in their file. -/
inductive SaveCause
  /-- The file cannot be opened. -/
  | unopened (f : Fault)
  /-- The file is open, and its old bytes are gone, but not all of the new ones are written. -/
  | unfinished (w : WriteFault)
  deriving DecidableEq, Repr

/-- Why an operation is not carried out. -/
inductive Failure
  | noBackup (backup : Path)
  | edit (e : EditError)
  | notFound (path : Path)
  | permissionDenied (path : Path)
  | tooLarge (path : Path) (size : Nat) (limit : Int)
  | unreadable (path : Path) (cause : ReadCause)
  | unwritable (path : Path) (cause : WriteCause)
  /-- An error of the system that no operation explains. -/
  | system (f : Fault)
  /-- A path that no system can be asked for, because it would end too early. -/
  | embeddedNul
  /-- Bytes that are no text. -/
  | undecodable
  /-- A string that has no bytes. -/
  | unencodable (f : EncodingFault)
  /-- A text that breaks a limit of reading. -/
  | unread (e : Json.ReadError)
  | linkLoop (path : Path)
  | unnamed (path : Path)
  | unknownHome
  | invalid (issues : List Issue)
  | unsaved (cause : SaveCause)
  deriving DecidableEq, Repr

namespace EditError

def aliasNameMessage (name : Wording) : Text := "Invalid alias name: ".toList ++ name.quoted

def message : EditError → Text
  | notFound k key => k.name ++ " '".toList ++ key ++ "' not found".toList
  | notEditable k => "Entries of type ".toList ++ Text.quoted k.name ++ " cannot be edited".toList
  | emptyKey => "Entry key must not be empty".toList
  | invalidAliasName n => aliasNameMessage (.text n)

end EditError

namespace WriteCause

def text : WriteCause → Text
  | system e => e.text
  | mismatch => "content mismatch after write".toList

end WriteCause

/-- A cause in words. A failure behind the opening of the file names no path. -/
def SaveCause.text : SaveCause → Text
  | unopened f => f.text
  | unfinished w => Errno.numbered w.code w.words

def Json.ReadError.message : Json.ReadError → Text
  | .malformed => "not a value".toList
  | .tooManyDigits n => "a whole number of ".toList ++ Text.ofNat n ++ " digits".toList
  | .tooDeep true => "an object inside too many values".toList
  | .tooDeep false => "an array inside too many values".toList

namespace Failure

/-- Why there is no home directory for a path: none is known, or the name of the user cannot be
asked for. -/
def homeless (p : Path) : Failure :=
  if (p.names.headD []).contains (Char.ofNat 0) then embeddedNul else unknownHome

def message : Failure → Text
  | noBackup p => "No backup file found: ".toList ++ p.text
  | edit e => e.message
  | notFound p => "File not found: ".toList ++ p.text
  | permissionDenied p => "Permission denied: ".toList ++ p.text
  | tooLarge p size limit =>
    "File too large: ".toList ++ p.text ++ " (".toList ++ Text.ofNat size ++
      " bytes, max ".toList ++ Text.ofInt limit ++ [')']
  | unreadable p _ => "Failed to read ".toList ++ p.text
  | unwritable p c => "Failed to write ".toList ++ p.text ++ ": ".toList ++ c.text
  | system f => f.errno.text
  | embeddedNul => "embedded null byte".toList
  | undecodable => []
  | unencodable f => "half of a character in position ".toList ++ Text.ofNat f.start
  | unread e => e.message
  | linkLoop p => "Symlink loop from ".toList ++ Text.quoted p.text
  | unnamed p => Text.quoted p.text ++ " has an empty name".toList
  | unknownHome => "Could not determine home directory.".toList
  | invalid _ => []
  | unsaved c => "Failed to save config: ".toList ++ c.text

end Failure

/-- An operation on a state that may fail. What it did to the state before it failed stays done. -/
abbrev Operation (σ α : Type) := EStateM Failure σ α

namespace Operation

variable {σ α : Type}

/-- Carries out an operation and gives its failure as a result. -/
def attempt (x : Operation σ α) : Operation σ (Except Failure α) := fun s =>
  match x s with
  | .ok a s => .ok (.ok a) s
  | .error e s => .ok (.error e) s

/-- The outcome that a result stands for. -/
def ofExcept : Except Failure α → Operation σ α
  | .ok a => pure a
  | .error e => throw e

/-- Carries out an operation, then another one whatever came of it. A failure of the second hides
the first. -/
def thenAlways (x : Operation σ α) (after : Operation σ Unit) : Operation σ α := do
  let r ← attempt x
  after
  ofExcept r

/-- Changes how a failure is told. -/
def mapFailure (f : Failure → Failure) (x : Operation σ α) : Operation σ α := fun s =>
  match x s with
  | .ok a s => .ok a s
  | .error e s => .error (f e) s

/-- Carries out an operation on a part of a larger state. -/
def within {τ : Type} (get : τ → σ) (set : σ → τ → τ) (x : Operation σ α) :
    Operation τ α := fun t =>
  match x (get t) with
  | .ok a s => .ok a (set s t)
  | .error e s => .error e (set s t)

end Operation
end ShellConfig

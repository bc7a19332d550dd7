import ShellConfig.Settings.Basic
import ShellConfig.Files.Backup
import ShellConfig.Json.Reader
import ShellConfig.Json.Writer

/-!
# Stored settings

Settings are kept in a file of their own and in memory. A file that is missing, damaged or invalid
stands for the defaults. The file is written in place, so a system that fails while it is open
leaves only the first of the new bytes.
-/

namespace ShellConfig

/-- What a process is told from outside, in paths whose names are texts. -/
structure Environment where
  home : Path
  /-- The home directories of other users, with their names. -/
  homes : List (Text × Path) := []
  /-- The directory for the settings, if one is chosen. -/
  settingsDirectory : Option Text := none
  /-- The directory of the system for temporary files. -/
  temporary : Path
  /-- How a moment is written. -/
  timeText : Stamp → Text
  /-- How many digits a whole number may have where JSON is read. -/
  maxDigits : Nat := 4300
  /-- How many arrays and objects may stand inside each other in the file of the settings. -/
  settingsDepth : Nat := 985
  /-- How many of them may in the body of a request. -/
  bodyDepth : Nat := 950
  /-- What the system fails at when it writes the file of the settings. -/
  writeFault : Option WriteFault := none
  /-- No number is taken of a text that could not be read again. -/
  maxLength_le : Numeral.maxLength ≤ maxDigits := by decide
  /-- Settings are an object. -/
  settingsDepth_pos : 0 < settingsDepth := by decide

/-- What is read of the file of the settings at most. -/
def Environment.settingsLimits (env : Environment) : Json.ReadLimits :=
  ⟨env.maxDigits, env.settingsDepth⟩

/-- What is read of the body of a request at most. -/
def Environment.bodyLimits (env : Environment) : Json.ReadLimits := ⟨env.maxDigits, env.bodyDepth⟩

/-- The home directory of a user, of whom the empty name is one's own. -/
def Environment.homeOf (env : Environment) (user : Text) : Option Path :=
  if user.isEmpty then some env.home else env.homes.lookup user

/-- Why there is no home directory for the path that settings select. The name of a user that has no
bytes cannot be asked for. -/
def Settings.homeless (s : Settings) : Failure :=
  match s.path with
  | some (.broken ps) =>
    let user := (ps.dropWhile (· ≠ .char '~')).tail.takeWhile (· ≠ .char '/')
    match EncodingFault.find? Piece.isByteHalf 0 user with
    | some f => .unencodable f
    | none => if .char (Char.ofNat 0) ∈ user then .embeddedNul else .unknownHome
  | _ => .homeless s.unexpanded

/-- The file of the settings, and the settings in memory. -/
structure SettingsStore where
  file : Path
  current : Settings
  deriving DecidableEq, Repr

namespace SettingsStore

open FileOperation

def directoryName : Text := "zshrc_manager".toList

/-- The directory for the settings: the one chosen, or one in the home directory. -/
def directory (env : Environment) : Path :=
  match env.settingsDirectory with
  | some (c :: t) => .ofText (c :: t)
  | _ => env.home.child ('.' :: directoryName)

/-- Makes a directory unless it is there, and those above it. -/
def ensurePath (p : Path) : FileOperation Unit := ensureDirectories p.names.length p

/-- The settings in a text. A text that breaks a limit of reading is refused; one that is damaged or
invalid stands for the defaults. -/
def parse (limits : Json.ReadLimits) (t : Text) : Except Failure Settings :=
  match Json.read limits t with
  | .ok v =>
    match Settings.ofJson v with
    | .ok s => .ok s
    | .bad _ => .ok {}
  | .error .malformed => .ok {}
  | .error e => .error (.unread e)

/-- The settings in a file. A file that is not there or cannot be read stands for the defaults; one
that is no text is refused, and so is one whose directory cannot be searched. -/
def load (limits : Json.ReadLimits) (file : Path) : FileOperation Settings := do
  if ← ask file (·.exists? file) then
    match ← (query file (·.read file)).attempt with
    | .error _ => pure {}
    | .ok bytes =>
      match Text.ofBytes? bytes with
      | none => throw .undecodable
      | some t => Operation.ofExcept (parse limits t)
  else pure {}

/-- The file for the settings, in a directory that is made. If that fails, the directory for
temporary files takes its place. -/
def place (env : Environment) : FileOperation Path := do
  match ← (ensurePath (directory env)).attempt with
  | .ok _ => pure ((directory env).child fileName)
  | .error _ => do
    let d := env.temporary.child directoryName
    ensurePath d
    pure (d.child fileName)
where
  /-- The name of the file for settings. -/
  fileName : Text := "config.json".toList

def ofEnvironment (env : Environment) : FileOperation SettingsStore := do
  let file ← place env
  pure ⟨file, ← load env.settingsLimits file⟩

/-- The store with the settings that its file holds now. -/
def reload (s : SettingsStore) (env : Environment) : FileOperation SettingsStore := do
  pure { s with current := ← load env.settingsLimits s.file }

/-- The text that settings are stored as. -/
def fileText (s : Settings) : Text := s.toJson.pretty

/-- Opens a file for new bytes and gives its place. -/
def openFile (file : Path) : FileOperation Place := fun t =>
  if file.hasNul then .error .embeddedNul t
  else
    match t.openEmpty file with
    | .ok (q, u) => .ok q u
    | .error e => .error (.unsaved (.unopened ⟨e, file, none⟩)) t

/-- Writes bytes to the open file at a place. If the system fails at it, only some are written. -/
def fill (fault? : Option WriteFault) (p : Place) (bytes : ByteArray) : FileOperation Unit :=
  match fault? with
  | none => modify (·.fill p bytes)
  | some w => do
    modify (·.fill p (bytes.extract 0 w.written))
    throw (.unsaved (.unfinished w))

/-- Writes the settings in memory to the file. -/
def store (s : SettingsStore) (env : Environment) : FileOperation Unit := do
  ensurePath s.file.parent
  let p ← openFile s.file
  fill env.writeFault p (Text.toBytes (fileText s.current))

end SettingsStore
end ShellConfig

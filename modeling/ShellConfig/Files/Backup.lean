import ShellConfig.Files.Failure
import ShellConfig.ByteSize
import ShellConfig.Text.Utf8

/-!
# Backups

A file is replaced by writing a temporary file beside it and moving that over it, so it holds either
the old bytes or the new ones. The backup of a file stands beside it under its name with an ending;
there is one backup, and each new one replaces it.
-/

namespace ShellConfig

/-- An operation on a file tree. -/
abbrev FileOperation (α : Type) := Operation FileTree α

namespace FileOperation

variable {α : Type}

/-- A look at the tree; a refusal names the path. -/
def query (p : Path) (f : FileTree → Except Errno α) : FileOperation α := fun t =>
  if p.hasNul then .error .embeddedNul t
  else
    match f t with
    | .ok a => .ok a t
    | .error e => .error (.system ⟨e, p, none⟩) t

/-- A question to the tree. Nothing is true of a path that cannot be asked for. -/
def ask (p : Path) (f : FileTree → Except Errno Bool) : FileOperation Bool :=
  if p.hasNul then pure false else query p f

/-- A change of the tree; a refusal names the path. -/
def change (p : Path) (f : FileTree → Except Errno FileTree) : FileOperation Unit := fun t =>
  if p.hasNul then .error .embeddedNul t
  else
    match f t with
    | .ok u => .ok () u
    | .error e => .error (.system ⟨e, p, none⟩) t

/-- Whether a failure is that there is nothing at a path. -/
def isAbsence : Failure → Bool
  | .system f => f.errno == .noEntry
  | _ => false

/-- The result of an operation, or none if there is nothing at its path. -/
def orAbsent (x : FileOperation α) : FileOperation (Option α) := do
  match ← x.attempt with
  | .ok a => pure (some a)
  | .error e => if isAbsence e then pure none else throw e

/-- The path without links that a path stands for. -/
def resolve (p : Path) : FileOperation Path := fun t =>
  if p.hasNul then .error .embeddedNul t
  else
    match t.resolve p with
    | .ok q => .ok q t
    | .error q => .error (.linkLoop q) t

def modeOf (p : Path) : FileOperation Mode := do
  match ← query p (·.find p) with
  | (_, .file _ m _) => pure m
  | (_, .dir m) => pure m
  | (_, .link _) => pure .ordinary

/-! ### Atomic writing -/

/-- The names that a temporary file beside a file may have: with what the tree draws, or else with a
number. There are more of them than nodes. -/
def temporaryNames (t : FileTree) (name : Text) : List Text :=
  let numbered := (List.range (t.nodes.length + 1)).map fun n => Text.hex 8 n
  (t.draw :: numbered).map fun d => '.' :: (name ++ '.' :: (d ++ ".tmp".toList))

def isPresence : Failure → Bool
  | .system f => f.errno == .fileExists
  | _ => false

/-- Makes the first of some files that is not there yet. -/
def createFirst (mode : Mode) : List Path → FileOperation Path
  | [] => throw (.system ⟨.fileExists, ⟨.relative, []⟩, none⟩)
  | p :: ps => do
    match ← (change p (·.create p mode)).attempt with
    | .ok _ => pure p
    | .error e => if isPresence e then createFirst mode ps else throw e

/-- Makes an empty temporary file beside a file, and gives its path from the root. Names that lead
back are taken out of that path, so behind a link it may be beside another place. -/
def createTemporary (p : Path) : FileOperation Path := do
  let t ← get
  let directory := p.parent.fromRoot t.workingPlace
  createFirst .secret ((temporaryNames t (p.name?.getD [])).map directory.child)

/-- Moves a file over another; a refusal names both. -/
def moveOver (source target : Path) : FileOperation Unit :=
  (change source (·.rename source target)).mapFailure fun
    | .system f => .system { f with second := some target }
    | e => e

/-- Fills a temporary file, gives it a mode and moves it over a file. -/
def fillAndMove (temporary p : Path) (bytes : ByteArray) (mode : Option Mode) :
    FileOperation Unit := do
  change temporary (·.write temporary bytes)
  match mode with
  | some m => change temporary (·.chmod temporary m)
  | none => pure ()
  moveOver temporary p

/-- Replaces a file by bytes in one step. The temporary file is gone afterwards, also on failure. -/
def replace (p : Path) (bytes : ByteArray) (mode : Option Mode) : FileOperation Unit := do
  let temporary ← createTemporary p
  match ← (fillAndMove temporary p bytes mode).attempt with
  | .ok _ => pure ()
  | .error e => do
    let _ ← (change temporary (·.unlink temporary)).orAbsent
    throw e

/-- Passes over a failure to make a directory that is there. -/
def alreadyThere (p : Path) (e : Failure) : FileOperation Unit := do
  if ← ask p (·.isDirectory? p) then pure () else throw e

def ensureDirectory (p : Path) : FileOperation Unit := do
  match ← (change p (·.mkdir p)).attempt with
  | .ok _ => pure ()
  | .error e => if isAbsence e then throw e else alreadyThere p e

/-- Makes a directory unless it is there, and those above it as far up as is said. -/
def ensureDirectories : Nat → Path → FileOperation Unit
  | 0, p => ensureDirectory p
  | n + 1, p => do
    match ← (change p (·.mkdir p)).attempt with
    | .ok _ => pure ()
    | .error e =>
      if isAbsence e then
        ensureDirectories n p.parent
        ensureDirectory p
      else alreadyThere p e

end FileOperation

structure BackupInfo where
  present : Bool
  path : Path
  size : Nat := 0
  modified : Option Stamp := none
  deriving DecidableEq, Repr

/-- A file and the place of its backup. -/
structure BackupSlot where
  target : Path
  backup : Path
  deriving DecidableEq, Repr

namespace BackupSlot

open FileOperation

def ending : Text := ".bak".toList

/-- The path of the backup of a file, if the file has a name. -/
def backupPath? (target : Path) : Option Path :=
  target.name?.map fun n => target.withName (n ++ ending)

/-- The slot of a file, with its backup beside it. -/
def of (target : Path) : Except Failure BackupSlot :=
  match backupPath? target with
  | some b => .ok ⟨target, b⟩
  | none => .error (.unnamed target)

/-- The slot of a file with a chosen path for its backup. The empty text chooses nothing. -/
def choose (target : Path) (backup : Option Text) : Except Failure BackupSlot :=
  match backup with
  | some (c :: t) => .ok ⟨target, .ofText (c :: t)⟩
  | _ => of target

/-- Copies the file into the slot. A file that is not there has nothing to be copied, and the slot
keeps what it holds. -/
def snapshot (s : BackupSlot) : FileOperation (Option Path) := do
  match ← (query s.target (·.read s.target)).orAbsent with
  | none => pure none
  | some bytes => do
    FileOperation.replace s.backup bytes (some .secret)
    pure (some s.backup)

def info (s : BackupSlot) : FileOperation BackupInfo := do
  match ← (query s.backup (·.find s.backup)).orAbsent with
  | none => pure { present := false, path := s.backup }
  | some (_, .file bytes _ stamp) =>
    pure { present := true, path := s.backup, size := bytes.size, modified := some stamp }
  | some _ => pure { present := true, path := s.backup, size := 4096, modified := some (.tick 0) }

def read (s : BackupSlot) : FileOperation (Option Text) := do
  match ← (query s.backup (·.read s.backup)).orAbsent with
  | none => pure none
  | some bytes =>
    match Text.ofBytes? bytes with
    | some t => pure (some t)
    | none => throw .undecodable

/-- Puts the bytes of the backup into the file. The file keeps its mode; one that is not there is
made for its owner alone. -/
def restore (s : BackupSlot) : FileOperation Unit := do
  match ← (query s.backup (·.read s.backup)).orAbsent with
  | none => throw (.noBackup s.backup)
  | some bytes => do
    let target ← resolve s.target
    let mode ← (modeOf target).orAbsent
    FileOperation.replace target bytes (some (mode.getD .secret))

def delete (s : BackupSlot) : FileOperation Unit := do
  match ← (change s.backup (·.unlink s.backup)).orAbsent with
  | some _ => pure ()
  | none => throw (.noBackup s.backup)

end BackupSlot
end ShellConfig

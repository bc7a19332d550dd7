import ShellConfig.Files.Backup
import ShellConfig.Section.Insert

/-!
# The managed file

A file of shell configuration, reached directly or through links. Reading it is checked and may be
answered from a cache; writing it takes a backup first and replaces the file behind the links in one
step.
-/

namespace ShellConfig

/-- Texts read before, each with the path without links and the moment of change for which it holds.
-/
structure Cache where
  entries : List (Path × Stamp × Text) := []
  deriving DecidableEq, Repr

namespace Cache

/-- The text of a file that has not changed since. -/
def get? (c : Cache) (p : Path) (s : Stamp) : Option Text :=
  match c.entries.lookup p with
  | some (r, t) => if r = s then some t else none
  | none => none

def forget (c : Cache) (p : Path) : Cache := ⟨c.entries.filter fun e => e.1 ≠ p⟩

def put (c : Cache) (p : Path) (s : Stamp) (t : Text) : Cache := ⟨(p, s, t) :: (c.forget p).entries⟩

end Cache

structure Store where
  files : FileTree
  cache : Cache := {}

/-- An operation on files and what is remembered of them. -/
abbrev StoreOperation (α : Type) := Operation Store α

namespace StoreOperation

variable {α : Type}

/-- An operation on the files alone. -/
def onFiles (x : FileOperation α) : StoreOperation α :=
  x.within Store.files fun t s => { s with files := t }

end StoreOperation

structure RcFile where
  path : Path
  maxSize : Int := 1024 * 1024
  cached : Bool := true
  deriving DecidableEq, Repr

namespace RcFile

open StoreOperation FileOperation

/-- The path of the real file: without links if the path is one. -/
def effectivePath (f : RcFile) : FileOperation Path := do
  if ← ask f.path (·.isLink? f.path) then resolve f.path else pure f.path

/-- The slot for the backup of the real file. -/
def slot (f : RcFile) : FileOperation BackupSlot := do
  Operation.ofExcept (BackupSlot.of (← f.effectivePath))

def exists? (f : RcFile) : FileOperation Bool := ask f.path (·.exists? f.path)

/-- The size that a node is listed with. -/
def sizeOf : Node → Nat
  | .file bytes _ _ => bytes.size
  | _ => 4096

/-- The moment at which a file was changed. -/
def stampOf : Node → Option Stamp
  | .file _ _ s => some s
  | _ => none

def readFailure (p : Path) : Failure → Failure
  | .system f =>
    match f.errno with
    | .noEntry => .notFound p
    | .accessDenied => .permissionDenied p
    | e => .unreadable p (.system e)
  | .undecodable => .unreadable p .undecodable
  | e => e

def decode (p : Path) : FileOperation Text := do
  match Text.ofBytes? (← query p (·.read p)) with
  | some t => pure t
  | none => throw .undecodable

/-- The text that is remembered for a file as it stands. -/
def remembered? (f : RcFile) (key : Path) (stamp : Option Stamp) :
    StoreOperation (Option Text) := do
  let s ← get
  pure (if f.cached then stamp.bind (s.cache.get? key) else none)

/-- Remembers the text of a file as it stands. -/
def remember (f : RcFile) (key : Path) (stamp : Option Stamp) (t : Text) : StoreOperation Unit :=
  match stamp with
  | some m => if f.cached then modify fun s => { s with cache := s.cache.put key m t } else pure ()
  | none => pure ()

/-- The text of the file. It must not be larger than allowed, and it must be text. -/
def read (f : RcFile) : StoreOperation Text :=
  Operation.mapFailure (readFailure f.path) do
    let (_, node) ← onFiles (query f.path (·.find f.path))
    if f.maxSize < sizeOf node then throw (.tooLarge f.path (sizeOf node) f.maxSize)
    let key ← onFiles (resolve f.path)
    match ← f.remembered? key (stampOf node) with
    | some t => pure t
    | none => do
      let t ← onFiles (decode f.path)
      f.remember key (stampOf node) t
      pure t

def readOrEmpty (f : RcFile) : StoreOperation Text := do
  match ← f.read.attempt with
  | .ok t => pure t
  | .error (.notFound _) => pure []
  | .error e => throw e

def forget (f : RcFile) (p : Path) : StoreOperation Unit := do
  if f.cached then
    let key ← onFiles (resolve p)
    modify fun s => { s with cache := s.cache.forget key }

def writeFailure (p : Path) : Failure → Failure
  | .system f =>
    match f.errno with
    | .accessDenied => .permissionDenied p
    | e => .unwritable p (.system e)
  | e => e

def backUpAndReplace (target : Path) (content : Except EncodingFault Text) :
    FileOperation (Option Path) := do
  let slot ← Operation.ofExcept (BackupSlot.of target)
  let backup ← slot.snapshot
  let mode ← (modeOf target).orAbsent
  let t ← Operation.ofExcept (content.mapError .unencodable)
  replace target (Text.toBytes t) (some (mode.getD .secret))
  pure backup

/-- Replaces the content of the real file, behind a backup. A file keeps its mode, and a new one is
for its owner alone. Gives the path of the backup if there was something to back up. Content that is
no text is refused when the backup has been taken. -/
def writeChecked (f : RcFile) (content : Except EncodingFault Text) :
    StoreOperation (Option Path) := do
  let target ← onFiles f.effectivePath
  Operation.thenAlways
    (Operation.mapFailure (writeFailure target) (onFiles (backUpAndReplace target content)))
    (f.forget target)

/-- Replaces the content of the real file by a text. -/
def write (f : RcFile) (content : Text) : StoreOperation (Option Path) :=
  f.writeChecked (.ok content)

/-- Puts the backup back. -/
def restoreBackup (f : RcFile) : StoreOperation Unit :=
  Operation.thenAlways (onFiles (do (← f.slot).restore)) do
    if f.cached then
      let p ← onFiles f.effectivePath
      f.forget p

/-! ### Edits -/

/-- Edits the content, writes it, and reads it again to see that it is there. `before` and `after`
read the content. -/
def editWith (f : RcFile) (before after : StoreOperation Text)
    (edit : Text → Except EditError EditResult) : StoreOperation EditResult := do
  match edit (← before) with
  | .error e => throw (.edit e)
  | .ok r => do
    if r.changed then
      let _ ← f.write r.content
      if (← after) ≠ r.content then throw (.unwritable f.path .mismatch)
    pure r

/-- Edits the content of the file. -/
def edit (f : RcFile) (e : Text → Except EditError EditResult) : StoreOperation EditResult :=
  f.editWith f.read f.read e

/-- Inserts into the content of the file, which is made if there is none. -/
def insert (f : RcFile) (e : Text → Except EditError InsertResult) :
    StoreOperation InsertResult := do
  match e (← f.readOrEmpty) with
  | .error e => throw (.edit e)
  | .ok r => do
    let _ ← f.write r.content
    pure r

end RcFile
end ShellConfig

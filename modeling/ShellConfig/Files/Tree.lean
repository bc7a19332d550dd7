import ShellConfig.Files.Path
import ShellConfig.Text.Digits

/-!
# File trees

A tree of files, directories and symbolic links, as a list of nodes with their places. The process
that looks at the tree owns all of it and is held to the owner's permissions; no directory is sticky
and nothing is mounted inside. Names are texts. Looking up a path walks it name by name and follows
links.
-/

namespace ShellConfig

/-- The permission bits of owner, group and others, without the three bits above them. -/
structure Mode where
  bits : Fin 512
  deriving DecidableEq, Repr

namespace Mode

def ofOctal (ds : Text) : Mode :=
  ⟨Fin.ofNat 512 (ds.foldl (fun n c => 8 * n + Text.digitValue c) 0)⟩

def octal (m : Mode) : Text :=
  [m.bits.val / 64, m.bits.val / 8 % 8, m.bits.val % 8].flatMap (Nat.toDigits 8)

def readable (m : Mode) : Bool := m.bits.val / 256 % 2 == 1

def writable (m : Mode) : Bool := m.bits.val / 128 % 2 == 1

/-- Whether the owner may look up names in the directory. -/
def searchable (m : Mode) : Bool := m.bits.val / 64 % 2 == 1

/-- Reading and writing for the owner alone. -/
def secret : Mode := ⟨6 * 64⟩

/-- Writing for the owner and reading for all. -/
def ordinary : Mode := ⟨6 * 64 + 4 * 8 + 4⟩

/-- The mode of a new directory: all for the owner, reading and looking up for the others. -/
def directory : Mode := ⟨7 * 64 + 5 * 8 + 5⟩

end Mode

/-- A moment at which a file was changed: one that was set, in nanoseconds, or a tick of the clock,
of which there are no two the same. -/
inductive Stamp
  | set (nanoseconds : Int)
  | tick (n : Nat)
  deriving DecidableEq, Repr

/-- What stands at a place. -/
inductive Node
  | file (bytes : ByteArray) (mode : Mode) (stamp : Stamp)
  | dir (mode : Mode)
  | link (target : Text)

/-- The names that lead from the root to a node. -/
abbrev Place := List Text

/-- Why the system refuses an operation. -/
inductive Errno
  | noEntry
  | accessDenied
  | busy
  | fileExists
  | notDirectory
  | isDirectory
  | nameTooLong
  | notEmpty
  | tooManyLinks
  deriving DecidableEq, Repr

namespace Errno

def code : Errno → Nat
  | noEntry => 2
  | accessDenied => 13
  | busy => 16
  | fileExists => 17
  | notDirectory => 20
  | isDirectory => 21
  | nameTooLong => 36
  | notEmpty => 39
  | tooManyLinks => 40

def text : Errno → Text
  | noEntry => "No such file or directory".toList
  | accessDenied => "Permission denied".toList
  | busy => "Device or resource busy".toList
  | fileExists => "File exists".toList
  | notDirectory => "Not a directory".toList
  | isDirectory => "Is a directory".toList
  | nameTooLong => "File name too long".toList
  | notEmpty => "Directory not empty".toList
  | tooManyLinks => "Too many levels of symbolic links".toList

def meansAbsent : Errno → Bool
  | noEntry | notDirectory | tooManyLinks => true
  | _ => false

end Errno

/-- A tree of files. -/
structure FileTree where
  nodes : List (Place × Node)
  /-- The place where relative paths start. -/
  workingPlace : Place := []
  /-- The next tick of the clock. -/
  clock : Nat := 0
  /-- What the name of the next temporary file is made different by, unless it is in use. -/
  draw : Text := []

namespace FileTree

/-! ### Nodes -/

def node? (t : FileTree) (p : Place) : Option Node := t.nodes.lookup p

def put (t : FileTree) (p : Place) (n : Node) : FileTree :=
  { t with nodes := (p, n) :: t.nodes.filter fun e => e.1 ≠ p }

def erase (t : FileTree) (p : Place) : FileTree :=
  { t with nodes := t.nodes.filter fun e => e.1 ≠ p }

def eraseBelow (t : FileTree) (p : Place) : FileTree :=
  { t with nodes := t.nodes.filter fun e => !p.isPrefixOf e.1 }

def tick (t : FileTree) : FileTree := { t with clock := t.clock + 1 }

/-- The tree with a file at a place, changed now. -/
def putFile (t : FileTree) (p : Place) (bytes : ByteArray) (mode : Mode) : FileTree :=
  (t.put p (.file bytes mode (.tick t.clock))).tick

theorem lookup_filter_ne {α β : Type} [BEq α] [LawfulBEq α] [DecidableEq α] (p q : α)
    (l : List (α × β)) :
    (l.filter fun e => e.1 ≠ p).lookup q = if q = p then none else l.lookup q := by
  induction l with
  | nil => simp
  | cons e l ih =>
    obtain ⟨r, n⟩ := e
    by_cases hr : r = p
    · subst hr
      rw [List.filter_cons_of_neg (by simp), ih]
      by_cases hq : q = r
      · rw [if_pos hq, if_pos hq]
      · have hb : (q == r) = false := by simp [hq]
        rw [if_neg hq, if_neg hq, List.lookup_cons, hb]
    · rw [List.filter_cons_of_pos (by simp [hr]), List.lookup_cons, List.lookup_cons, ih]
      by_cases hq : q = r
      · subst hq
        simp [hr]
      · have hb : (q == r) = false := by simp [hq]
        simp [hb]

theorem node?_put (t : FileTree) (p q : Place) (n : Node) :
    (t.put p n).node? q = if q = p then some n else t.node? q := by
  by_cases h : q = p
  · subst h
    simp [node?, put]
  · have hb : (q == p) = false := by simp [h]
    simp only [node?, put, List.lookup_cons, hb, lookup_filter_ne, if_neg h]

theorem node?_erase (t : FileTree) (p q : Place) :
    (t.erase p).node? q = if q = p then none else t.node? q := by
  simp only [node?, erase, lookup_filter_ne]

@[simp] theorem node?_tick (t : FileTree) (q : Place) : t.tick.node? q = t.node? q := rfl

/-! ### Looking up paths -/

def maxNameBytes : Nat := 255

def maxPathBytes : Nat := 4095

/-- How many links one path may lead through. -/
def maxLinks : Nat := 40

def byteCount (t : Text) : Nat := (String.ofList t).utf8ByteSize

/-- What is looked for at the end of a path. -/
inductive Goal
  /-- What stands there, be it a link. -/
  | entry
  /-- What a link there leads to in the end. -/
  | content
  /-- The place of a file that is made unless it is there. -/
  | newContent
  deriving DecidableEq, Repr

/-- The place where a path starts, given where relative ones do. -/
def start (relativeTo : Place) : Anchor → Place
  | .relative => relativeTo
  | _ => []

def isDirectoryAt (t : FileTree) (p : Place) : Bool :=
  match t.node? p with
  | some (.dir _) => true
  | _ => false

/-- Follows steps from a place. The last one need not lead to anything, but all directories on the
way must be there and allow looking up names. With `slash`, what is at the end is a directory, and
no file is made in its place. -/
def walk (t : FileTree) (goal : Goal) (links : Nat) (slash : Bool) (here : Place) :
    List Text → Except Errno Place
  | [] => if slash && !t.isDirectoryAt here then .error .notDirectory else .ok here
  | n :: ns =>
    match t.node? here with
    | none => .error .noEntry
    | some (.dir m) =>
      if !m.searchable then .error .accessDenied
      else if n = Path.here then t.walk goal links slash here ns
      else if n = Path.up then t.walk goal links slash here.dropLast ns
      else if ns.isEmpty && slash && goal = .newContent then .error .isDirectory
      else if maxNameBytes < byteCount n then .error .nameTooLong
      else
        match t.node? (here ++ [n]) with
        | none => if ns.isEmpty then .ok (here ++ [n]) else .error .noEntry
        | some (.link target) =>
          if ns.isEmpty ∧ goal = .entry then .ok (here ++ [n])
          else
            match links with
            | 0 => .error .tooManyLinks
            | links + 1 =>
              t.walk goal links (slash || ns.isEmpty && Path.endsInSlash target)
                (start here (Path.anchorOf target)) (Path.stepsOf target ++ ns)
        | some _ => t.walk goal links slash (here ++ [n]) ns
    | some _ => .error .notDirectory
termination_by names => (links, names.length)

/-- The place that a path leads to. -/
def locate (t : FileTree) (p : Path) (goal : Goal := .content) : Except Errno Place :=
  if maxPathBytes < byteCount p.text then .error .nameTooLong
  else t.walk goal maxLinks false (start t.workingPlace p.anchor) p.names

/-- The node that a path leads to, and its place. -/
def find (t : FileTree) (p : Path) (goal : Goal := .content) : Except Errno (Place × Node) :=
  match t.locate p goal with
  | .error e => .error e
  | .ok q =>
    match t.node? q with
    | none => .error .noEntry
    | some n => .ok (q, n)

/-- Whether a path leads to something. That it cannot be looked up is an error. -/
def exists? (t : FileTree) (p : Path) : Except Errno Bool :=
  match t.find p with
  | .ok _ => .ok true
  | .error e => if e.meansAbsent then .ok false else .error e

/-- Whether a path leads to a directory. That it cannot be looked up is an error. -/
def isDirectory? (t : FileTree) (p : Path) : Except Errno Bool :=
  match t.find p with
  | .ok (_, .dir _) => .ok true
  | .ok _ => .ok false
  | .error e => if e.meansAbsent then .ok false else .error e

/-- Whether a path leads to a link. That it cannot be looked up is an error. -/
def isLink? (t : FileTree) (p : Path) : Except Errno Bool :=
  match t.find p .entry with
  | .ok (_, .link _) => .ok true
  | .ok _ => .ok false
  | .error e => if e.meansAbsent then .ok false else .error e

/-! ### Resolving links -/

/-- The path from the root to a place. -/
def pathTo (p : Place) : Path := ⟨.root, p⟩

def linkAt? (t : FileTree) (p : Path) : Option Text :=
  match t.find p .entry with
  | .ok (_, .link target) => some target
  | _ => none

/-- How many links may be followed inside each other. -/
def maxNesting : Nat := 1000

/-- Links met so far, each with the path without links that it stands for, or with none while it is
still being followed. -/
abbrev Followed := List (Path × Option Path)

/-- Follows names from a path without links as far as links can be seen, and takes the others as
they are: where nothing can be looked up, a name that leads back still takes away the one before it.
A link that is met while it is being followed makes no path; then the result is that link and what
was left to follow, as it is written. -/
def follow (t : FileTree) (nesting : Nat) (met : Followed) (here : Path) :
    List Text → Except Text (Path × Followed)
  | [] => .ok (here, met)
  | n :: ns =>
    if n.isEmpty ∨ n = Path.here then t.follow nesting met here ns
    else if n = Path.up then t.follow nesting met here.above ns
    else
      match t.linkAt? (here.child n) with
      | none => t.follow nesting met (here.child n) ns
      | some target =>
        let rest := Text.join ['/'] ns
        let stuck := Path.appendText (here.child n).text rest
        match met.lookup (here.child n) with
        | some (some q) => t.follow nesting met q ns
        | some none => .error stuck
        | none =>
          match nesting with
          | 0 => .error stuck
          | inner + 1 =>
            let origin := match Path.anchorOf target with
              | .relative => here
              | _ => ⟨.root, []⟩
            match t.follow inner ((here.child n, none) :: met) origin (target.splitOn '/') with
            | .error u => .error (Path.appendText u rest)
            | .ok (q, met) => t.follow (inner + 1) ((here.child n, some q) :: met) q ns
termination_by names => (nesting, names.length)

/-- The path from the root that is left when the links of a path are followed. -/
def unlinked (t : FileTree) (p : Path) : Path :=
  let origin : Path := match p.anchor with
    | .relative => ⟨.relative, []⟩
    | _ => ⟨.root, []⟩
  match t.follow maxNesting [] origin p.names with
  | .ok (q, _) => q.fromRoot t.workingPlace
  | .error u => (Path.ofText u).fromRoot t.workingPlace

/-- The path without links that a path stands for: that of the node it leads to, or else what is
left when its links are followed. If links still form a loop in that, it is the error. -/
def resolve (t : FileTree) (p : Path) : Except Path Path :=
  match t.find p with
  | .ok (q, _) => .ok (pathTo q)
  | .error _ =>
    match t.find (t.unlinked p) with
    | .error .tooManyLinks => .error (t.unlinked p)
    | _ => .ok (t.unlinked p)

/-! ### Single operations -/

/-- Whether names may be added to the directory of a place and taken from it. -/
def parentWritable (t : FileTree) (p : Place) : Bool :=
  match t.node? p.dropLast with
  | some (.dir m) => m.writable
  | _ => false

def read (t : FileTree) (p : Path) : Except Errno ByteArray :=
  match t.find p with
  | .error e => .error e
  | .ok (_, .file bytes m _) => if m.readable then .ok bytes else .error .accessDenied
  | .ok (_, .dir m) => if m.readable then .error .isDirectory else .error .accessDenied
  | .ok (_, .link _) => .error .tooManyLinks

/-- Makes an empty file where there is nothing. -/
def create (t : FileTree) (p : Path) (mode : Mode) : Except Errno FileTree :=
  match t.locate p .entry with
  | .error e => .error e
  | .ok q =>
    if (t.node? q).isSome then .error .fileExists
    else if !t.parentWritable q then .error .accessDenied
    else .ok (t.putFile q .empty mode)

/-- Replaces the bytes of a file, which is made if there is none. -/
def write (t : FileTree) (p : Path) (bytes : ByteArray) : Except Errno FileTree :=
  match t.locate p .newContent with
  | .error e => .error e
  | .ok q =>
    match t.node? q with
    | some (.file _ m _) => if m.writable then .ok (t.putFile q bytes m) else .error .accessDenied
    | some (.dir _) => .error .isDirectory
    | some (.link _) => .error .tooManyLinks
    | none =>
      if t.parentWritable q then .ok (t.putFile q bytes .ordinary) else .error .accessDenied

/-- The place of a file that is opened for new bytes, and the tree in which its old ones are gone.
-/
def openEmpty (t : FileTree) (p : Path) : Except Errno (Place × FileTree) := do
  pure (← t.locate p .newContent, ← t.write p .empty)

/-- Puts bytes into the file at a place, which is open. -/
def fill (t : FileTree) (p : Place) (bytes : ByteArray) : FileTree :=
  match t.node? p with
  | some (.file _ m _) => t.putFile p bytes m
  | _ => t

def chmod (t : FileTree) (p : Path) (mode : Mode) : Except Errno FileTree :=
  match t.find p with
  | .error e => .error e
  | .ok (q, .file bytes _ s) => .ok (t.put q (.file bytes mode s))
  | .ok (q, .dir _) => .ok (t.put q (.dir mode))
  | .ok (_, .link _) => .error .tooManyLinks

/-- Moves a file over another, or to where there is nothing. A path that does not end with a name is
in use, and a directory that holds the file is not empty. -/
def rename (t : FileTree) (source target : Path) : Except Errno FileTree :=
  match t.find source .entry, t.locate target .entry with
  | .error e, _ => .error e
  | _, .error e => .error e
  | .ok (p, n), .ok q =>
    if !target.isNamed then .error .busy
    else if q.isPrefixOf p.dropLast then .error .notEmpty
    else if !t.parentWritable p || !t.parentWritable q then .error .accessDenied
    else
      match t.node? q with
      | some (.dir _) => .error .isDirectory
      | _ => .ok ((t.erase p).put q n)

def unlink (t : FileTree) (p : Path) : Except Errno FileTree :=
  match t.locate p .entry with
  | .error e => .error e
  | .ok q =>
    if !p.isNamed then .error .isDirectory
    else
      match t.node? q with
      | none => .error .noEntry
      | some n =>
        if !t.parentWritable q then .error .accessDenied
        else
          match n with
          | .dir _ => .error .isDirectory
          | _ => .ok (t.erase q)

/-- Makes a directory where there is nothing. -/
def mkdir (t : FileTree) (p : Path) : Except Errno FileTree :=
  match t.locate p .entry with
  | .error e => .error e
  | .ok q =>
    if (t.node? q).isSome || !p.isNamed then .error .fileExists
    else if !t.parentWritable q then .error .accessDenied
    else .ok (t.put q (.dir .directory))

end FileTree
end ShellConfig

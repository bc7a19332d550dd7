import ShellConfig.Text.Basic

/-!
# Paths

A path is an anchor and the names to follow from there, which are texts; names of bytes that are no
text are left out. Reading a path drops empty names and those that stay where they are; names that
lead back are kept, because a link may stand before them.
-/

namespace ShellConfig

/-- Where a path starts. -/
inductive Anchor
  | relative
  | root
  /-- The root written with exactly two slashes. -/
  | doubleRoot
  deriving DecidableEq, Repr

/-- A path to a file or directory. -/
structure Path where
  anchor : Anchor
  names : List Text
  deriving DecidableEq, Repr

namespace Path

def here : Text := ['.']

def up : Text := ['.', '.']

def anchorOf : Text → Anchor
  | '/' :: '/' :: '/' :: _ => .root
  | '/' :: '/' :: _ => .doubleRoot
  | '/' :: _ => .root
  | _ => .relative

def namesOf (t : Text) : List Text :=
  (t.splitOn '/').filter fun n => !n.isEmpty && n != here

/-- The names of a written path with those that stay where they are, each of which has to be looked
up in a directory. -/
def stepsOf (t : Text) : List Text := (t.splitOn '/').filter fun n => !n.isEmpty

/-- Whether a written path ends with a slash, so that it can only lead to a directory. -/
def endsInSlash (t : Text) : Bool := t.getLast? == some '/'

def ofText (t : Text) : Path := ⟨anchorOf t, namesOf t⟩

def anchorText : Anchor → Text
  | .relative => []
  | .root => ['/']
  | .doubleRoot => ['/', '/']

/-- A path as text. The path of no names that starts where one is has a name of its own. -/
def text (p : Path) : Text :=
  match p.anchor, p.names with
  | .relative, [] => here
  | a, ns => anchorText a ++ Text.join ['/'] ns

def name? (p : Path) : Option Text := p.names.getLast?

/-- Whether a path ends with the name of something, and not at the root, where one is or above. -/
def isNamed (p : Path) : Bool := p.name?.any (· != up)

/-- Whether a path holds the character that ends paths. -/
def hasNul (p : Path) : Bool := p.names.any (·.contains (Char.ofNat 0))

def parent (p : Path) : Path := { p with names := p.names.dropLast }

def child (p : Path) (name : Text) : Path := { p with names := p.names ++ [name] }

def withName (p : Path) (name : Text) : Path := p.parent.child name

/-- A path from the root without names that lead back: each is taken with the name before it. -/
def collapse (p : Path) : Path :=
  { p with
    names := p.names.foldl (fun ns n => if n = up then ns.dropLast else ns ++ [n]) [] }

/-- A path from the root, given where relative ones start, without names that lead back. -/
def fromRoot (start : List Text) (p : Path) : Path :=
  match p.anchor with
  | .relative => (⟨.root, start ++ p.names⟩ : Path).collapse
  | _ => p.collapse

/-- The path one level above a path without links. -/
def above (p : Path) : Path :=
  match p.anchor, p.name? with
  | .relative, none => p.child up
  | _, some n => if n = up then p.child up else p.parent
  | _, none => p

/-- A written path behind another one. It replaces that one if it starts at the root. -/
def appendText (t rest : Text) : Text :=
  match rest with
  | '/' :: _ => rest
  | _ => if endsInSlash t then t ++ rest else t ++ '/' :: rest

/-- The path with a home directory in place of a tilde in front, given the home directories of users
by their names. Behind a tilde alone stands the empty name, for the user whose path it is. -/
def expandHome? (homeOf : Text → Option Path) (p : Path) : Option Path :=
  match p.anchor, p.names with
  | .relative, ('~' :: user) :: ns => (homeOf user).map fun h => { h with names := h.names ++ ns }
  | _, _ => some p

end Path
end ShellConfig

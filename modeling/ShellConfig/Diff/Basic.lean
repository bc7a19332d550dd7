import ShellConfig.Text.Basic

/-!
# Line differences

The difference of two lists of lines, found by walking both at once. Where the walks disagree, the
nearer reappearance of either line decides what happened. Leaving out the added lines gives the
first list, and leaving out the removed lines the second.
-/

namespace ShellConfig

/-- What happened to a line. -/
inductive Change
  | add
  | remove
  | unchanged
  deriving DecidableEq, Repr

namespace Change

def all : List Change := [add, remove, unchanged]

def name : Change → Text
  | add => "add".toList
  | remove => "remove".toList
  | unchanged => "unchanged".toList

def ofName? (t : Text) : Option Change := all.find? fun c => c.name == t

end Change

/-- One line of a difference, numbered by its place in the second list if it is there. -/
structure DiffLine where
  change : Change
  content : Text
  lineNumber : Option Int := none
  deriving DecidableEq, Repr

namespace DiffLine

/-- What to do about two lines that differ. -/
inductive Step
  | remove
  | add
  | replace
  deriving DecidableEq, Repr

/-- The first line of `xs` is removed if the first of `ys` comes back sooner, that of `ys` is added
if the other comes back sooner, and both are replaced if it makes no difference. -/
def step (x y : Text) (xs ys : List Text) : Step :=
  match ys.idxOf? x, xs.idxOf? y with
  | none, none => .replace
  | none, some _ => .remove
  | some _, none => .add
  | some a, some r => if r < a then .remove else if a < r then .add else .replace

/-- The difference of two lists of lines, of which the second has lost `j` lines already. -/
def walk (j : Nat) : List Text → List Text → List DiffLine
  | [], [] => []
  | [], y :: ys => ⟨.add, y, some (j + 1)⟩ :: walk (j + 1) [] ys
  | x :: xs, [] => ⟨.remove, x, none⟩ :: walk j xs []
  | x :: xs, y :: ys =>
    if x = y then ⟨.unchanged, x, some (j + 1)⟩ :: walk (j + 1) xs ys
    else match step x y xs ys with
      | .remove => ⟨.remove, x, none⟩ :: walk j xs (y :: ys)
      | .add => ⟨.add, y, some (j + 1)⟩ :: walk (j + 1) (x :: xs) ys
      | .replace => ⟨.remove, x, none⟩ :: ⟨.add, y, some (j + 1)⟩ :: walk (j + 1) xs ys
termination_by xs ys => xs.length + ys.length

/-- The difference of two lists of lines. -/
def between (before after : List Text) : List DiffLine := walk 0 before after

def countOf (c : Change) (ls : List DiffLine) : Nat := ls.countP (·.change = c)

end DiffLine
end ShellConfig

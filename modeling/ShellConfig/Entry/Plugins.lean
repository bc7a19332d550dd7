import ShellConfig.Entry.Recognize
import ShellConfig.Text.Lines

/-!
# Plugin lists

A plugin list opens with an assignment and a parenthesis and runs over as many lines as it takes to
meet the closing parenthesis, or to the end of the file. So what a line says about plugins depends
on whether it begins inside a list.
-/

namespace ShellConfig.Plugins

open Text

/-- What follows the parenthesis that opens a plugin list. -/
def opening? (t : Text) : Option Text :=
  (((after? "plugins".toList (trimLeft t)).bind afterEquals?).map trimLeft).bind (after? ['('])

/-- The plugins that one line names, and whether the list goes on behind it. -/
structure Row where
  names : List Text
  goesOn : Bool
  deriving DecidableEq, Repr

/-- Reads a line inside a list. A closing parenthesis in a comment closes nothing. -/
def row (t : Text) : Row :=
  let t := stripComment t
  if ')' ∈ t then ⟨words (t.takeWhile (· ≠ ')')), false⟩ else ⟨words t, true⟩

def read (inside : Bool) (t : Text) : Row :=
  if inside then row t
  else match opening? t with
    | some r => row r
    | none => ⟨[], false⟩

/-- Whether a list is open behind some lines. -/
def openAfter (inside : Bool) (ls : List Line) : Bool :=
  ls.foldl (fun b l => (read b l.text).goesOn) inside

end ShellConfig.Plugins

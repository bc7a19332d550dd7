import ShellConfig.Diff.Basic
import ShellConfig.Text.Digits

/-!
# Differences in markdown

A difference is shown as a summary and a fenced block of the changed lines with some lines of
context around them. A mark stands where lines are left out between two changes.
-/

namespace ShellConfig

namespace DiffLine

/-- A piece of the fenced block: a line of the difference with its index, or a mark for lines left
out. -/
inductive Shown
  | line (index : Nat) (l : DiffLine)
  | gap
  deriving DecidableEq, Repr

def sign : Change → Text
  | .add => ['+', ' ']
  | .remove => ['-', ' ']
  | .unchanged => [' ', ' ']

def Shown.text : Shown → Text
  | .line _ l => sign l.change ++ l.content
  | .gap => "...".toList

/-- The unchanged lines among those right before an index, as many as the context has. -/
def lookBack (context : Int) (ls : List DiffLine) (i : Nat) : List Shown :=
  (((ls.zipIdx.take i).drop ((i : Int) - context).toNat).filter (·.1.change = .unchanged)).map
    fun p => .line p.2 p.1

/-- The pieces for the lines from an index on. `near` says that the last change is near enough for
context, and `last` is the index of that change. -/
def showFrom (context : Int) (all : List DiffLine) (near : Bool) (last : Int) (i : Nat) :
    List DiffLine → List Shown
  | [] => []
  | l :: ls =>
    if l.change ≠ .unchanged then
      (if !near ∧ context * 2 < i - last then
        (if 0 ≤ last then [.gap] else []) ++ lookBack context all i
      else []) ++ .line i l :: showFrom context all true i (i + 1) ls
    else if near ∧ i - last ≤ context then .line i l :: showFrom context all near last (i + 1) ls
    else showFrom context all false last (i + 1) ls

/-- The pieces of the fenced block of a difference. -/
def shown (context : Int) (ls : List DiffLine) : List Shown :=
  showFrom context ls false (-context - 1) 0 ls

def summaryLine (count : Int) (word : Text) : Text :=
  "- **".toList ++ Text.ofInt count ++ "** ".toList ++ word ++ (if count = 1 then [] else ['s'])

/-- The context shown where nothing else is said. -/
def defaultContext : Int := 3

def noChanges : Text := "No changes detected.".toList

def markdownLines (ls : List DiffLine) (additions deletions context : Int) : List Text :=
  ["## Changes Summary".toList, summaryLine additions "addition".toList,
    summaryLine deletions "deletion".toList, [], "## Diff".toList, "```diff".toList] ++
    (shown context ls).map Shown.text ++ ["```".toList]

/-- A difference in markdown, given the numbers to be reported. -/
def markdown (ls : List DiffLine) (additions deletions : Int) (context : Int := defaultContext) :
    Text :=
  if additions = 0 ∧ deletions = 0 then noChanges
  else Text.join ['\n'] (markdownLines ls additions deletions context)

end DiffLine

structure Diff where
  additions : Int
  deletions : Int
  lines : List DiffLine
  markdown : Text
  deriving DecidableEq, Repr

namespace Diff

def tellsChange (additions deletions : Int) : Bool := 0 < additions || 0 < deletions

def hasChanges (d : Diff) : Bool := tellsChange d.additions d.deletions

/-- The difference of two texts, shown with some lines of context. -/
def between (before after : Text) (context : Int := DiffLine.defaultContext) : Diff :=
  let ls := DiffLine.between (before.splitOn '\n') (after.splitOn '\n')
  let additions := DiffLine.countOf .add ls
  let deletions := DiffLine.countOf .remove ls
  ⟨additions, deletions, ls, DiffLine.markdown ls additions deletions context⟩

end Diff
end ShellConfig

import ShellConfig.Entry.Plugins

/-!
# Reading entries

The entries of a text, line by line. On one line the kinds come in the order of `Kind.all`, and the
entries of one kind in the order in which they stand.
-/

namespace ShellConfig.Entry

/-- The length above which lines are passed over, where nothing else is said. -/
def defaultLimit : Int := 1000

/-- The payloads of one kind on a line that begins inside a plugin list or not. -/
def payloadsOn (inside : Bool) (t : Text) : Kind → List Payload
  | .plugin => (Plugins.read inside t).names.map fun n => { name := some n }
  | k => Recognize.payloads t k

def onLine (inside : Bool) (l : Line) (k : Kind) : List Entry :=
  (payloadsOn inside l.text k).map fun p =>
    { kind := k, lineNumber := l.number, lineText := l.text, payload := p }

/-- The entries of some kinds on some lines, the first of which begins inside a plugin list or not.
-/
def onLines (kinds : List Kind) : Bool → List Line → List Entry
  | _, [] => []
  | inside, l :: ls =>
    kinds.flatMap (onLine inside l) ++ onLines kinds (Plugins.read inside l.text).goesOn ls

def ofKind (k : Kind) (t : Text) (limit : Int := defaultLimit) : List Entry :=
  onLines [k] false (Line.safe limit t)

def ofText (t : Text) (limit : Int := defaultLimit) : List Entry :=
  onLines Kind.all false (Line.safe limit t)

end ShellConfig.Entry

import ShellConfig.Entry.Basic
import ShellConfig.Text.Blank

/-!
# Recognizing constructs

For each kind of construct but the plugin list, what a single line declares. A line is read from the
left; blanks are allowed in front, and the blanks at the end belong to nothing.
-/

namespace ShellConfig

namespace Text

/-- What a text says: the text without the blanks around it. Of blanks alone, the last one counts.
-/
def content? (t : Text) : Option Text :=
  match trim t with
  | [] => t.getLast?.map ([·])
  | s => some s

/-- The argument behind a command word: what is said after the blank that ends the word. -/
def argument? : Text → Option Text
  | c :: t => if isBlank c then content? t else none
  | [] => none

/-- What follows an equals sign, which blanks may precede. -/
def afterEquals? (t : Text) : Option Text := after? ['='] (trimLeft t)

/-- A name at the front, given by what may start it and what may continue it, and what follows. -/
def name? (start next : Char → Bool) : Text → Option (Text × Text)
  | c :: t => if start c then some (c :: t.takeWhile next, t.dropWhile next) else none
  | [] => none

def isQuote (c : Char) : Bool := c == '"' || c == Char.ofNat 39

/-- A text without the one pair of equal quotes around it, if there is one. -/
def stripQuotes (t : Text) : Text :=
  match t with
  | q :: c :: r => if isQuote q ∧ (c :: r).getLast? = some q then (c :: r).dropLast else t
  | _ => t

/-- What precedes the first number sign that follows a blank, without that blank. -/
def beforeComment : Text → Text
  | [] => []
  | c :: t => if isBlank c ∧ t.head? = some '#' then [] else c :: beforeComment t

/-- A text without the comment at its end: a number sign opens one at the start or behind a blank.
-/
def stripComment (t : Text) : Text := if t.head? = some '#' then [] else beforeComment t

end Text

namespace Recognize

open Text

/-! ### Assignments -/

def isAliasChar (c : Char) : Bool := isNameChar c || c ∈ ['.', ':', '@', '+', '-']

/-- What follows the flag of a global or suffix alias, if there is one. -/
def dropFlag : Text → Text
  | '-' :: f :: b :: t => if f ∈ ['g', 's', 'S'] ∧ isBlank b then trimLeft t else '-' :: f :: b :: t
  | t => t

/-- The name and the command, without outer quotes, that a line declares as an alias. -/
def alias? (t : Text) : Option (Text × Text) := do
  let r ← after? "alias".toList (trimLeft t)
  let r ← afterBlanks? r
  let (n, r) ← name? isAliasChar isAliasChar (dropFlag r)
  let v ← after? ['='] r
  pure (n, stripQuotes (trimRight v))

/-- What follows the command that exports a variable, in either spelling. -/
def exportCommand? (t : Text) : Option Text :=
  after? "export".toList t <|>
    ((after? "typeset".toList t).bind afterBlanks?).bind (after? "-x".toList)

/-- The name and the value, quotes kept, that a line exports. No value means no export. -/
def export? (t : Text) : Option (Text × Text) := do
  let r ← exportCommand? (trimLeft t)
  let r ← afterBlanks? r
  let (n, r) ← name? isNameStart isNameChar r
  let v ← after? ['='] r
  if (trimRight v).isEmpty then none else pure (n, trimRight v)

def path? (t : Text) : Option Text :=
  ((after? "PATH".toList (trimLeft t)).bind afterEquals?).bind content?

def isHistoryChar (c : Char) : Bool := ('A' ≤ c && c ≤ 'Z') || c == '_'

def history? (t : Text) : Option (Text × Text) := do
  let r ← after? "HIST".toList (trimLeft t)
  let v ← (afterEquals? (r.dropWhile isHistoryChar)).bind content?
  pure ("HIST".toList ++ r.takeWhile isHistoryChar, v)

/-- The name that a theme assignment gives: between equal quotes if it begins with a quote that also
ends it, and else all of it. -/
def themeName (v : Text) : Text :=
  match trimLeft v with
  | [] => []
  | q :: r =>
    if isQuote q ∧ (trimRight r).getLast? = some q then (trimRight r).dropLast
    else trimRight (q :: r)

/-- The theme that a line sets. The empty name is no theme. -/
def theme? (t : Text) : Option Text := do
  let v ← (after? "ZSH_THEME".toList (trimLeft t)).bind afterEquals?
  if (themeName v).isEmpty then none else pure (themeName v)

/-- The directories that a line puts into the function path or adds to it. -/
def fpath (t : Text) : List Text :=
  let r := (after? "fpath".toList (trimLeft t)).map trimLeft
  let r := r.map fun r => (after? ['+'] r).getD r
  match ((r.bind (after? ['='])).map trimLeft).bind (after? ['(']) with
  | none => []
  | some r =>
    if (trimRight r).getLast? = some ')' then words (stripComment (trimRight r).dropLast) else []

/-! ### Commands -/

def source? (t : Text) : Option Text :=
  (after? "source".toList (trimLeft t) <|> after? ['.'] (trimLeft t)).bind argument?

def command? (name t : Text) : Option Text := (after? name (trimLeft t)).bind argument?

/-- The function names that a line marks for loading, without the flags. -/
def autoload (t : Text) : List Text :=
  match command? "autoload".toList t with
  | none => []
  | some a => (words (stripComment a)).filter fun w => w.head? ≠ some '-' ∧ w.head? ≠ some '+'

def completion? (t : Text) : Option Text := do
  let r ← after? "compinit".toList (trimLeft t)
  if atWordEnd r then pure (trimRight (trimLeft t)) else none

/-! ### Functions -/

def isFunctionChar (c : Char) : Bool := isNameChar c || c ∈ [':', '.', '-']

/-- What follows an empty pair of parentheses. -/
def afterParens? (t : Text) : Option Text :=
  ((after? ['('] t).map trimLeft).bind (after? [')'])

/-- Whether a function body can begin here: at an opening brace, or at the end of the line. -/
def opensBody (t : Text) : Bool :=
  match trimLeft t with
  | [] => true
  | c :: _ => c == '{'

def namedFunction? (t : Text) : Option Text := do
  let r ← (after? "function".toList t).bind afterBlanks?
  let (n, r) ← name? isNameStart isFunctionChar r
  if opensBody ((afterParens? (trimLeft r)).getD r) then pure n else none

def bareFunction? (t : Text) : Option Text := do
  let (n, r) ← name? isNameStart isFunctionChar t
  let r ← afterParens? (trimLeft r)
  if opensBody r then pure n else none

def function? (t : Text) : Option Text :=
  namedFunction? (trimLeft t) <|> bareFunction? (trimLeft t)

/-! ### All kinds -/

/-- What a line declares of a kind. Plugins are read by block and not by line, so here there are
none. -/
def payloads (t : Text) : Kind → List Payload
  | .aliased => (alias? t).toList.map fun p => { name := some p.1, command := some p.2 }
  | .exported => (export? t).toList.map fun p => { varName := some p.1, value := some p.2 }
  | .function => (function? t).toList.map fun n => { name := some n }
  | .source => (source? t).toList.map fun p => { path := some p }
  | .plugin => []
  | .setopt => (command? "setopt".toList t).toList.map fun o => { option := some o }
  | .eval => (command? "eval".toList t).toList.map fun c => { command := some c }
  | .autoload => (autoload t).map fun n => { name := some n }
  | .fpath => (fpath t).map fun p => { path := some p }
  | .path => (path? t).toList.map fun v => { value := some v }
  | .theme => (theme? t).toList.map fun n => { name := some n }
  | .completion => (completion? t).toList.map fun c => { command := some c }
  | .history => (history? t).toList.map fun p => { varName := some p.1, value := some p.2 }
  | .keybinding => (command? "bindkey".toList t).toList.map fun c => { command := some c }

end Recognize
end ShellConfig

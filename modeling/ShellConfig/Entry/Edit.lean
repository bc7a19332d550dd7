import ShellConfig.Entry.Parse

/-!
# Editing entries

An entry is disabled by a comment sign in front of its line, behind the blanks the line begins with,
and enabled by taking that sign away. The line of an entry is found whether it is disabled or not,
and only the first line that declares it is changed.
-/

namespace ShellConfig

/-- Why an edit is not carried out. -/
inductive EditError
  | notFound (kind : Kind) (key : Text)
  | notEditable (kind : Kind)
  | emptyKey
  | invalidAliasName (name : Text)
  deriving DecidableEq, Repr

structure EditResult where
  content : Text
  message : Text
  lineNumber : Nat
  /-- Whether the line is active afterwards; a deleted line is not. -/
  enabled : Bool
  changed : Bool := true
  deriving DecidableEq, Repr

namespace Edit

open Text

/-! ### Comments -/

def isCommented (t : Text) : Bool := (trimLeft t).head? == some '#'

/-- A line without the comment sign in front and the blanks behind the sign. -/
def uncomment (t : Text) : Text :=
  match trimLeft t with
  | '#' :: r => leadingBlanks t ++ trimLeft r
  | _ => t

/-- A line with a comment sign and a space in front, behind its first blanks. -/
def comment (t : Text) : Text := leadingBlanks t ++ '#' :: ' ' :: trimLeft t

/-! ### Declarations -/

def isEditable : Kind → Bool
  | .aliased | .exported | .setopt | .source | .history => true
  | _ => false

/-- Whether a text begins with an alias flag and blanks, and the rest satisfies `p`. -/
def flagThen (p : Text → Bool) : Text → Bool
  | '-' :: f :: t => f ∈ ['g', 's', 'S'] && someBlanksThen p t
  | _ => false

/-- Whether a line declares an entry of an editable kind under a key. The key is taken as it stands,
so blanks in it may be those behind the command. -/
def declares (key t : Text) : Kind → Bool
  | .aliased =>
    let named := (key ++ ['=']).isPrefixOf
    (after? "alias".toList (trimLeft t)).any (someBlanksThen fun r => flagThen named r || named r)
  | .exported =>
    (Recognize.exportCommand? (trimLeft t)).any (someBlanksThen (key ++ ['=']).isPrefixOf)
  | .setopt =>
    (after? "setopt".toList (trimLeft t)).any (someBlanksThen fun r => (after? key r).any allBlank)
  | .source =>
    (after? "source".toList (trimLeft t) <|> after? ['.'] (trimLeft t)).any
      (someBlanksThen fun r => (after? key r).any allBlank)
  | .history => blanksThen (fun r => ((after? key r).bind afterEquals?).isSome) t
  | _ => false

/-- Whether a line, short enough and not empty, declares an entry as it stands or commented out. -/
def isDeclaration (kind : Kind) (key : Text) (limit : Int) (t : Text) : Bool :=
  !t.isEmpty && (t.length : Int) ≤ limit && (declares key t kind || declares key (uncomment t) kind)

/-- The lines of a text and the index of the first that declares an entry. -/
def locate (t : Text) (kind : Kind) (key : Text) (limit : Int) :
    Except EditError (List Text × Nat) :=
  if !isEditable kind then .error (.notEditable kind)
  else if allBlank key then .error .emptyKey
  else
    let ls := splitOn '\n' t
    match ls.findIdx? (isDeclaration kind key limit) with
    | none => .error (.notFound kind key)
    | some i => .ok (ls, i)

/-! ### Edits -/

def about (kind : Kind) (key what : Text) : Text :=
  kind.title ++ " '".toList ++ key ++ "' ".toList ++ what

def stateWord (enabled : Bool) : Text := if enabled then "enabled".toList else "disabled".toList

/-- Switches an entry: a disabled one is enabled and an enabled one disabled. -/
def toggle (t : Text) (kind : Kind) (key : Text) (limit : Int := Entry.defaultLimit) :
    Except EditError EditResult := do
  let (ls, i) ← locate t kind key limit
  let l := ls[i]?.getD []
  let enabled := isCommented l
  pure
    { content := join ['\n'] (ls.set i (if enabled then uncomment l else comment l))
      message := about kind key (stateWord enabled)
      lineNumber := i + 1
      enabled := enabled }

/-- Puts an entry into a state. Nothing changes if it is in that state. -/
def setEnabled (t : Text) (kind : Kind) (key : Text) (enabled : Bool)
    (limit : Int := Entry.defaultLimit) : Except EditError EditResult := do
  let (ls, i) ← locate t kind key limit
  if isCommented (ls[i]?.getD []) = enabled then toggle t kind key limit
  else
    pure
      { content := t
        message := about kind key ("is already ".toList ++ stateWord enabled)
        lineNumber := i + 1
        enabled := enabled
        changed := false }

def delete (t : Text) (kind : Kind) (key : Text) (limit : Int := Entry.defaultLimit) :
    Except EditError EditResult := do
  let (ls, i) ← locate t kind key limit
  pure
    { content := join ['\n'] (ls.eraseIdx i)
      message := about kind key "deleted".toList
      lineNumber := i + 1
      enabled := false }

end Edit
end ShellConfig

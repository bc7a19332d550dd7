import ShellConfig.Text.Word

/-!
# Quoting for the shell

Values are written into shell lines between quotes that they cannot leave. Lines are written only
for names that need no quoting.
-/

namespace ShellConfig.Shell

def singleQuote : Char := Char.ofNat 39

/-- A single quote inside single quotes: the quotes are closed, the character stands between double
quotes, and the quotes are opened again. -/
def embeddedQuote : Text := [singleQuote, '"', singleQuote, '"', singleQuote]

/-- A text for use between single quotes. -/
def quoteSingle (t : Text) : Text := Text.replace singleQuote embeddedQuote t

/-- A character that keeps a meaning between double quotes: the backslash, the double quote, the
dollar sign, the backquote and the exclamation mark. -/
def isSpecial (c : Char) : Bool := c ∈ ['\\', '"', '$', Char.ofNat 96, '!']

/-- A text for use between double quotes. -/
def quoteDouble (t : Text) : Text := t.flatMap fun c => if isSpecial c then ['\\', c] else [c]

/-- A text as one word of the shell. -/
def quote (t : Text) : Text := singleQuote :: (quoteSingle t ++ [singleQuote])

/-- A name without the line feed that may end it. -/
def nameBody (t : Text) : Text := (Text.before? ['\n'] t).getD t

/-- Whether a text is a name whose first character may start one and whose others may continue it.
-/
def isName (next : Char → Bool) (t : Text) : Bool :=
  match nameBody t with
  | [] => false
  | c :: r => Text.isNameStart c && r.all next

/-- Whether an alias may be written under a name. -/
def isAliasName (t : Text) : Bool := isName (fun c => Text.isNameChar c || c == '-') t

/-- Whether a variable may be written under a name. -/
def isVarName (t : Text) : Bool := isName Text.isNameChar t

/-- The line that declares an alias, if its name is one. -/
def aliasLine? (name command : Text) : Option Text :=
  if isAliasName name then some ("alias ".toList ++ name ++ ['='] ++ quote command) else none

def exportLine? (name value : Text) : Option Text :=
  if isVarName name then
    some ("export ".toList ++ name ++ "=\"".toList ++ quoteDouble value ++ ['"'])
  else none

end ShellConfig.Shell

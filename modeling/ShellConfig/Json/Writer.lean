import ShellConfig.Json.Basic
import ShellConfig.Text.Quoted
import ShellConfig.Text.Digits

/-!
# Writing JSON

Values as text, on one line or with one member a line. Only printable characters of ASCII are
written as they are.
-/

namespace ShellConfig.Json

/-- A numeric escape. -/
def unicodeEscape (n : Nat) : Text := '\\' :: 'u' :: Text.hex 4 n

def stringChar (c : Char) : Text :=
  if c = '"' ∨ c = '\\' then ['\\', c]
  else if c = '\n' then ['\\', 'n']
  else if c = '\r' then ['\\', 'r']
  else if c = '\t' then ['\\', 't']
  else if c = Char.ofNat 8 then ['\\', 'b']
  else if c = Char.ofNat 12 then ['\\', 'f']
  else if 32 ≤ c.toNat ∧ c.toNat < 127 then [c]
  else if c.toNat < 0x10000 then unicodeEscape c.toNat
  else
    let n := c.toNat - 0x10000
    unicodeEscape (0xD800 + n / 0x400) ++ unicodeEscape (0xDC00 + n % 0x400)

def writeText (t : Text) : Text := '"' :: (t.flatMap stringChar ++ ['"'])

def stringPiece : Piece → Text
  | .char c => stringChar c
  | .half n => unicodeEscape n

/-- A string that is no text. -/
def writeBroken (ps : List Piece) : Text := '"' :: (ps.flatMap stringPiece ++ ['"'])

def writeDecimal : Decimal → Text
  | .finite s m e => (if s then ['-'] else []) ++ Text.ofNat m ++ 'e' :: Text.ofInt e
  | .infinite s => (if s then ['-'] else []) ++ "Infinity".toList
  | .notANumber => "NaN".toList

/-- Pieces between two brackets. With a depth each piece has its line, indented by two blanks for
each level. -/
def bracketed (depth : Option Nat) (opening closing : Char) (pieces : List Text) : Text :=
  if pieces.isEmpty then [opening, closing]
  else match depth with
    | none => opening :: (Text.join [',', ' '] pieces ++ [closing])
    | some d =>
      let newLine (d : Nat) : Text := '\n' :: List.replicate (2 * d) ' '
      let body := newLine (d + 1) ++ Text.join (',' :: newLine (d + 1)) pieces ++ newLine d
      opening :: (body ++ [closing])

mutual

/-- A value at a depth, or on one line if there is none. -/
def writeAt (depth : Option Nat) : Json → Text
  | null => "null".toList
  | bool true => "true".toList
  | bool false => "false".toList
  | int n => Text.ofInt n
  | decimal d => writeDecimal d
  | text t => writeText t
  | brokenText ps => writeBroken ps
  | array xs => bracketed depth '[' ']' (writeElements (depth.map (· + 1)) xs)
  | object ms => bracketed depth '{' '}' (writeMembers (depth.map (· + 1)) ms)

def writeElements (depth : Option Nat) : List Json → List Text
  | [] => []
  | x :: xs => writeAt depth x :: writeElements depth xs

def writeMembers (depth : Option Nat) : List (Text × Json) → List Text
  | [] => []
  | (k, v) :: ms => (writeText k ++ ':' :: ' ' :: writeAt depth v) :: writeMembers depth ms

end

/-- A value on one line. -/
def compact (v : Json) : Text := writeAt none v

/-- A value with one member a line. -/
def pretty (v : Json) : Text := writeAt (some 0) v

end ShellConfig.Json

import ShellConfig.Text.Quoted

/-!
# Strings that may be no texts

A string that is written with escapes can name half of a character without the other half. Such a
string is kept as it is and can be quoted, but it has no bytes and names no file.
-/

namespace ShellConfig

open Text

/-- A piece of a string: a character, or half of one that stands alone, by its number. -/
inductive Piece
  | char (c : Char)
  | half (n : Nat)
  deriving DecidableEq, Repr

namespace Piece

def isHighHalf (n : Nat) : Bool := 0xD800 ≤ n && n < 0xDC00

def isLowHalf (n : Nat) : Bool := 0xDC00 ≤ n && n < 0xE000

/-- Whether half of a character stands for a byte in what the system is asked for. -/
def isByteHalf (n : Nat) : Bool := 0xDC80 ≤ n && n < 0xDD00

/-- The character that two halves make. -/
def joinHalves (high low : Nat) : Char :=
  Char.ofNat (0x10000 + (high - 0xD800) * 0x400 + (low - 0xDC00))

/-- The character that a piece is. -/
def char? : Piece → Option Char
  | char c => some c
  | half _ => none

/-- The escape for half of a character. -/
def halfEscape (n : Nat) : Text := '\\' :: 'u' :: hex 4 n

/-- One piece between quotes of the kind `q`. -/
def quoted (q : Char) : Piece → Text
  | char c => quotedChar q c
  | half n => halfEscape n

/-- The halves at the front. -/
def leadingHalves : List Piece → List Nat
  | half n :: ps => n :: leadingHalves ps
  | _ => []

end Piece

/-- Where a string has no bytes: the position of the first half that is not tolerated, and the
halves from there to the next character. -/
structure EncodingFault where
  start : Nat
  halves : List Nat
  deriving DecidableEq, Repr

namespace EncodingFault

/-- The first fault of some pieces, the first of which has the position `i`. -/
def find? (tolerated : Nat → Bool) (i : Nat) : List Piece → Option EncodingFault
  | [] => none
  | .char _ :: ps => find? tolerated (i + 1) ps
  | .half n :: ps =>
    if tolerated n then find? tolerated (i + 1) ps
    else some ⟨i, n :: Piece.leadingHalves ps⟩

end EncodingFault

/-- A string: a text, or pieces of which some are no characters. -/
inductive Wording
  | text (t : Text)
  | broken (pieces : List Piece)
  deriving DecidableEq, Repr

namespace Wording

def ofPieces (ps : List Piece) : Wording :=
  match ps.mapM Piece.char? with
  | some t => text t
  | none => broken ps

/-- The text that a string is, or why it is none. -/
def toText : Wording → Except EncodingFault Text
  | text t => .ok t
  | broken ps =>
    match EncodingFault.find? (fun _ => false) 0 ps with
    | some f => .error f
    | none => .ok (ps.filterMap Piece.char?)

def quoted : Wording → Text
  | text t => t.quoted
  | broken ps =>
    let q := quoteOf (ps.filterMap Piece.char?)
    q :: (ps.flatMap (Piece.quoted q) ++ [q])

/-- The text that a string is as a path. A half becomes the character that no path may hold, also
one that stands for a byte: names of files are texts here. -/
def pathText : Wording → Text
  | text t => t
  | broken ps => ps.map fun p => p.char?.getD (Char.ofNat 0)

end Wording
end ShellConfig

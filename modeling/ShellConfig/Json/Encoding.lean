import ShellConfig.Json.Reader
import ShellConfig.Text.Quoted
import ShellConfig.Text.Utf8

/-!
# The encoding of JSON

A JSON text begins with two characters of ASCII, so where the first bytes are zero tells how it is
encoded. A mark for the order of bytes may stand in front of UTF-8.
-/

namespace ShellConfig.Json

inductive Encoding
  | utf8
  /-- UTF-8 behind a mark of three bytes. -/
  | markedUtf8
  | utf16 (bigEndian : Bool)
  | utf32 (bigEndian : Bool)
  deriving DecidableEq, Repr

namespace Encoding

/-- The encoding that the first bytes of a JSON text show. -/
def ofBytes : List UInt8 → Encoding
  | 0xEF :: 0xBB :: 0xBF :: _ => markedUtf8
  | a :: b :: c :: d :: _ =>
    if a = 0 then if b = 0 then utf32 true else utf16 true
    else if b = 0 then if c = 0 ∧ d = 0 then utf32 false else utf16 false
    else utf8
  | [a, b] => if a = 0 then utf16 true else if b = 0 then utf16 false else utf8
  | _ => utf8

/-- The number that some bytes write. -/
def number (bigEndian : Bool) (bs : List UInt8) : Nat :=
  (if bigEndian then bs else bs.reverse).foldl (fun n b => n * 256 + b.toNat) 0

def numbers16? (bigEndian : Bool) : List UInt8 → Option (List Nat)
  | [] => some []
  | a :: b :: bs => (numbers16? bigEndian bs).map (number bigEndian [a, b] :: ·)
  | _ => none

def numbers32? (bigEndian : Bool) : List UInt8 → Option (List Nat)
  | [] => some []
  | a :: b :: c :: d :: bs =>
    (numbers32? bigEndian bs).map (number bigEndian [a, b, c, d] :: ·)
  | _ => none

/-- The character of a number. Half of a character is given by the escape that stands for it. -/
def character (n : Nat) : Text :=
  if Piece.isHighHalf n || Piece.isLowHalf n then '\\' :: 'u' :: Text.hex 4 n else [Char.ofNat n]

/-- The text of units of 16 bits, two of which may be the halves of one character. -/
def ofUnits : List Nat → Text
  | m :: n :: us =>
    if Piece.isHighHalf m && Piece.isLowHalf n then Piece.joinHalves m n :: ofUnits us
    else character m ++ ofUnits (n :: us)
  | [n] => character n
  | [] => []

/-- The text of the numbers of its characters, all of which must be there. -/
def ofNumbers? (ns : List Nat) : Option Text :=
  if ns.all (· < 0x110000) then some (ns.flatMap character) else none

/-- The text that some bytes encode, if they encode one. -/
def decode? (bs : List UInt8) : Encoding → Option Text
  | utf8 => Text.ofBytes? ⟨bs.toArray⟩
  | markedUtf8 => Text.ofBytes? ⟨(bs.drop 3).toArray⟩
  | utf16 bigEndian => (numbers16? bigEndian bs).map ofUnits
  | utf32 bigEndian => (numbers32? bigEndian bs).bind ofNumbers?

end Encoding

/-- The text of some bytes in the encoding that they show, if they encode one. -/
def decode? (bytes : ByteArray) : Option Text :=
  let bs := bytes.data.toList
  (Encoding.ofBytes bs).decode? bs

end ShellConfig.Json

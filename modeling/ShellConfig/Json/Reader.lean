import ShellConfig.Json.Basic
import ShellConfig.Text.Digits

/-!
# Reading JSON

Reads a text as one JSON value with nothing behind it. The names of the numbers that are no decimals
are accepted, and inside strings no control characters. A reader is held to limits; what breaks one
is told where the text comes to it, before anything that is wrong behind.
-/

namespace ShellConfig.Json

open Text

/-- What is read at most. -/
structure ReadLimits where
  /-- The digits of a whole number. -/
  digits : Nat
  /-- The arrays and objects inside each other. -/
  depth : Nat
  deriving DecidableEq, Repr

/-- Why a text is not read as a value. -/
inductive ReadError
  | malformed
  /-- A whole number has this many digits. -/
  | tooManyDigits (count : Nat)
  /-- One array, or one object, is inside too many others. -/
  | tooDeep (inObject : Bool)
  deriving DecidableEq, Repr

/-- What is read at the front of a text, and what follows. -/
abbrev Reading (α : Type) := Except ReadError (α × Text)

def isSpace (c : Char) : Bool := c ∈ [' ', '\t', '\n', '\r']

/-- A text without the blanks at its front. -/
def skip (t : Text) : Text := t.dropWhile isSpace

def hexDigit? (c : Char) : Option Nat :=
  if isDigit c then some (digitValue c)
  else if 'a' ≤ c ∧ c ≤ 'f' then some (c.toNat - 'a'.toNat + 10)
  else if 'A' ≤ c ∧ c ≤ 'F' then some (c.toNat - 'A'.toNat + 10)
  else none

def hex4? (a b c d : Char) : Option Nat := do
  let a ← hexDigit? a
  let b ← hexDigit? b
  let c ← hexDigit? c
  let d ← hexDigit? d
  pure (((a * 16 + b) * 16 + c) * 16 + d)

/-- The character that a letter behind a backslash stands for. -/
def simpleEscape? (c : Char) : Option Char :=
  if c ∈ ['"', '\\', '/'] then some c
  else if c = 'b' then some (Char.ofNat 8)
  else if c = 'f' then some (Char.ofNat 12)
  else if c = 'n' then some '\n'
  else if c = 'r' then some '\r'
  else if c = 't' then some '\t'
  else none

/-- The pieces read so far, the last one first, and one more number from an escape, which is a
character or half of one. The second half joins the first if that came right before. -/
def addUnit (sofar : List Piece) (n : Nat) : List Piece :=
  match sofar with
  | .half h :: ps =>
    if Piece.isHighHalf h && Piece.isLowHalf n then .char (Piece.joinHalves h n) :: ps
    else ofUnit n :: sofar
  | _ => ofUnit n :: sofar
where
  /-- The piece of a number. -/
  ofUnit (n : Nat) : Piece :=
    if Piece.isHighHalf n || Piece.isLowHalf n then .half n else .char (Char.ofNat n)

/-- Reads a string from behind its opening quote. `sofar` holds the pieces read, the last one
first. -/
def string (sofar : List Piece) : Text → Reading Json
  | [] => .error .malformed
  | '\\' :: 'u' :: a :: b :: c :: d :: t =>
    match hex4? a b c d with
    | none => .error .malformed
    | some n => string (addUnit sofar n) t
  | '\\' :: e :: t =>
    match simpleEscape? e with
    | none => .error .malformed
    | some c => string (.char c :: sofar) t
  | c :: t =>
    if c = '"' then .ok (ofWording (.ofPieces sofar.reverse), t)
    else if c.toNat < 32 ∨ c = '\\' then .error .malformed
    else string (.char c :: sofar) t

/-- The digits of a whole number at the front, without needless zeros, and what follows. -/
def whole? (t : Text) : Option (Text × Text) :=
  match t with
  | '0' :: r => some (['0'], r)
  | c :: _ => if isDigit c then some (t.takeWhile isDigit, t.dropWhile isDigit) else none
  | [] => none

/-- The digits behind a point, and what follows. -/
def fraction? : Text → Option (Text × Text)
  | '.' :: t =>
    if (t.takeWhile isDigit).isEmpty then none
    else some (t.takeWhile isDigit, t.dropWhile isDigit)
  | _ => none

def sign (t : Text) : Bool × Text :=
  match t with
  | '-' :: r => (true, r)
  | '+' :: r => (false, r)
  | _ => (false, t)

/-- An exponent, and what follows. -/
def exponent? : Text → Option (Int × Text)
  | c :: t =>
    if c = 'e' ∨ c = 'E' then
      let (s, r) := sign t
      let ds := r.takeWhile isDigit
      if ds.isEmpty then none
      else some (if s then -(digitsValue ds : Int) else digitsValue ds, r.dropWhile isDigit)
    else none
  | [] => none

/-- A number without its sign. Only a whole number is held to the limit of its digits. -/
def unsigned (limits : ReadLimits) (negative : Bool) (t : Text) : Reading Json :=
  match whole? t with
  | none => .error .malformed
  | some (w, r) =>
    match fraction? r, exponent? ((fraction? r).map (·.2) |>.getD r) with
    | none, none =>
      let n : Int := digitsValue w
      if limits.digits < w.length then .error (.tooManyDigits w.length)
      else .ok (int (if negative then -n else n), r)
    | f, e =>
      let ds := (f.map (·.1)).getD []
      let r := (e.map (·.2)).getD ((f.map (·.2)).getD r)
      let x := (e.map (·.1)).getD 0
      .ok (decimal (.finite negative (digitsValue (w ++ ds)) (x - ds.length)), r)

def number (limits : ReadLimits) (t : Text) : Reading Json :=
  match t with
  | '-' :: r =>
    match after? "Infinity".toList r with
    | some u => .ok (decimal (.infinite true), u)
    | none => unsigned limits true r
  | _ => unsigned limits false t

/-- The values that are single words. -/
def wordValues : List (Text × Json) :=
  [("null".toList, null), ("true".toList, bool true), ("false".toList, bool false),
    ("NaN".toList, decimal .notANumber), ("Infinity".toList, decimal (.infinite false))]

/-- A word or a number. -/
def atom (limits : ReadLimits) (t : Text) : Reading Json :=
  match wordValues.findSome? fun w => (after? w.1 t).map (w.2, ·) with
  | some found => .ok found
  | none => number limits t

/-- The limits inside one more array or object, if there may be one more. -/
def ReadLimits.inside? (l : ReadLimits) : Option ReadLimits :=
  match l.depth with
  | 0 => none
  | d + 1 => some { l with depth := d }

/-- The member of a key and a value. A key that is no text makes a member that has no name and
cannot be shown. -/
def named (key value : Json) : Text × Json :=
  match key with
  | text k => (k, value)
  | _ => ([], key)

mutual

def value (limits : ReadLimits) : Nat → Text → Reading Json
  | 0, _ => .error .malformed
  | fuel + 1, t =>
    match t with
    | '"' :: r => string [] r
    | '[' :: r =>
      match limits.inside? with
      | none => .error (.tooDeep false)
      | some limits =>
        match skip r with
        | ']' :: r => .ok (array [], r)
        | r => elements limits fuel [] r
    | '{' :: r =>
      match limits.inside? with
      | none => .error (.tooDeep true)
      | some limits =>
        match skip r with
        | '}' :: r => .ok (object [], r)
        | r => members limits fuel [] r
    | _ => atom limits t

/-- The elements of an array from one on. `sofar` holds those read, the last one first. -/
def elements (limits : ReadLimits) : Nat → List Json → Text → Reading Json
  | 0, _, _ => .error .malformed
  | fuel + 1, sofar, t =>
    match value limits fuel t with
    | .error e => .error e
    | .ok (v, r) =>
      match skip r with
      | ',' :: r => elements limits fuel (v :: sofar) (skip r)
      | ']' :: r => .ok (array (v :: sofar).reverse, r)
      | _ => .error .malformed

/-- The members of an object from one on. `sofar` holds those read, the last one first. -/
def members (limits : ReadLimits) : Nat → List (Text × Json) → Text → Reading Json
  | 0, _, _ => .error .malformed
  | fuel + 1, sofar, t =>
    match t with
    | '"' :: r =>
      match string [] r with
      | .error e => .error e
      | .ok (k, r) =>
        match skip r with
        | ':' :: r =>
          match value limits fuel (skip r) with
          | .error e => .error e
          | .ok (v, r) =>
            match skip r with
            | ',' :: r => members limits fuel (named k v :: sofar) (skip r)
            | '}' :: r => .ok (object (named k v :: sofar).reverse, r)
            | _ => .error .malformed
        | _ => .error .malformed
    | _ => .error .malformed

end

/-- The value that a text is. -/
def read (limits : ReadLimits) (t : Text) : Except ReadError Json :=
  match value limits (2 * t.length + 2) (skip t) with
  | .error e => .error e
  | .ok (v, r) => if (skip r).isEmpty then .ok v else .error .malformed

/-- The value that a text is, whatever its length. -/
def read? (t : Text) : Option Json := (read ⟨t.length, t.length⟩ t).toOption

end ShellConfig.Json

import ShellConfig.Binary64
import ShellConfig.Text.Wording

/-!
# JSON values

Values of the interchange format. Whole numbers are exact; a number with a fraction or an exponent
is kept as it was written in decimal.
-/

namespace ShellConfig

/-- A number written with a fraction or an exponent, or one of the three that are no decimals. -/
inductive Decimal
  | finite (negative : Bool) (mantissa : Nat) (exponent : Int)
  | infinite (negative : Bool)
  | notANumber
  deriving DecidableEq, Repr

namespace Decimal

/-- The absolute value of a decimal in floating point, if it is in the range of the format. -/
def magnitude? : Decimal → Option Binary64
  | finite _ m e =>
    let digits : Int := (Nat.toDigits 10 m).length
    if m = 0 ∨ e + digits < -400 then some ⟨0, 0⟩
    else if 400 < e + digits then none
    else
      let x := Binary64.ofQuotient (m * Nat.pow 10 e.toNat) (Nat.pow 10 (-e).toNat)
      if x.isFinite then some x else none
  | _ => none

def isNegative : Decimal → Bool
  | finite s _ _ | infinite s => s
  | notANumber => false

end Decimal

/-- A JSON value. The members of an object keep their order. -/
inductive Json
  | null
  | bool (b : Bool)
  | int (n : Int)
  | decimal (d : Decimal)
  | text (t : Text)
  /-- A string that is no text, because half of a character in it has no partner. -/
  | brokenText (pieces : List Piece)
  | array (xs : List Json)
  | object (members : List (Text × Json))

namespace Json

def ofText? : Option Text → Json
  | some t => text t
  | none => null

/-- A string. -/
def ofWording : Wording → Json
  | .text t => text t
  | .broken ps => brokenText ps

def ofWording? : Option Wording → Json
  | some w => ofWording w
  | none => null

def nat (n : Nat) : Json := int n

/-- The member of an object under a key: the last of that name. -/
def member? (key : Text) (members : List (Text × Json)) : Option Json :=
  (members.reverse.find? fun m => m.1 == key).map (·.2)

mutual

/-- Whether a value can be shown to a client: all its strings are texts and all its decimals numbers
in the range of floating point. Of the members of one name only the last counts. -/
def isShowable : Json → Bool
  | decimal d => d.magnitude?.isSome
  | brokenText _ => false
  | array xs => elementsShowable xs
  | object ms => membersShowable ms
  | _ => true

def elementsShowable : List Json → Bool
  | [] => true
  | x :: xs => isShowable x && elementsShowable xs

def membersShowable : List (Text × Json) → Bool
  | [] => true
  | (k, v) :: ms => (ms.any (fun m => m.1 == k) || isShowable v) && membersShowable ms

end

end Json
end ShellConfig

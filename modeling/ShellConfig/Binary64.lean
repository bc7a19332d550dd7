/-!
# Binary floating point

The numbers of 53 significant bits nearest to quotients, in exact arithmetic. Sizes are divided in
these numbers before they are shown, and numbers with a fraction are read as these. Powers of two
are written as shifts.
-/

namespace ShellConfig

/-- The whole number nearest to a quotient; a half goes to the even neighbour. -/
def roundHalfEven (n d : Nat) : Nat :=
  let q := n / d
  let r := n % d
  if 2 * r < d then q else if d < 2 * r then q + 1 else if q % 2 = 0 then q else q + 1

/-- A number: its significand times the power of two that its exponent gives. -/
structure Binary64 where
  significand : Nat
  exponent : Int
  deriving DecidableEq, Repr

namespace Binary64

/-- Whether a quotient is at least a power of two. -/
def powerLe (k : Int) (n d : Nat) : Bool := d <<< k.toNat ≤ n <<< (-k).toNat

/-- The exponent for a quotient: the significand has 53 bits, or fewer at the smallest exponent. -/
def exponentFor (n d : Nat) : Int :=
  let e : Int := (Nat.log2 n : Int) - Nat.log2 d - 52
  max (if powerLe (e + 52) n d then e else e - 1) (-1074)

/-- The number nearest to a quotient. -/
def ofQuotient (n d : Nat) : Binary64 :=
  if n = 0 then ⟨0, 0⟩
  else
    let e := exponentFor n d
    ⟨roundHalfEven (n <<< (-e).toNat) (d <<< e.toNat), e⟩

def isFinite (x : Binary64) : Bool :=
  x.significand <<< x.exponent.toNat < 1 <<< (1024 + (-x.exponent).toNat)

/-- The whole number that a number is. -/
def toNat? (x : Binary64) : Option Nat :=
  let d := 1 <<< (-x.exponent).toNat
  if x.significand % d = 0 then some ((x.significand / d) <<< x.exponent.toNat) else none

/-- A number in tenths, rounded to the nearest, a half to the even neighbour. -/
def tenths (x : Binary64) : Nat :=
  roundHalfEven ((10 * x.significand) <<< x.exponent.toNat) (1 <<< (-x.exponent).toNat)

end Binary64
end ShellConfig

import ShellConfig.Json.Basic
import ShellConfig.Json.Numeral

/-!
# Checking JSON

JSON values are checked against what a record expects. All issues of a record are reported together,
in the order of its fields.
-/

namespace ShellConfig

/-- What is wrong with a value. -/
inductive IssueKind
  | missing
  | enum
  | literal
  | stringType
  | stringUnicode
  | intType
  | intParsing
  | intParsingSize
  | intFromFloat
  | finiteNumber
  | boolType
  | boolParsing
  | listType
  | tooShort
  | modelType
  | modelAttributesType
  | jsonInvalid
  | greaterThan
  | greaterThanEqual
  | value
  deriving DecidableEq, Repr

namespace IssueKind

def name : IssueKind → Text
  | missing => "missing".toList
  | enum => "enum".toList
  | literal => "literal_error".toList
  | stringType => "string_type".toList
  | stringUnicode => "string_unicode".toList
  | intType => "int_type".toList
  | intParsing => "int_parsing".toList
  | intParsingSize => "int_parsing_size".toList
  | intFromFloat => "int_from_float".toList
  | finiteNumber => "finite_number".toList
  | boolType => "bool_type".toList
  | boolParsing => "bool_parsing".toList
  | listType => "list_type".toList
  | tooShort => "too_short".toList
  | modelType => "model_type".toList
  | modelAttributesType => "model_attributes_type".toList
  | jsonInvalid => "json_invalid".toList
  | greaterThan => "greater_than".toList
  | greaterThanEqual => "greater_than_equal".toList
  | value => "value_error".toList

end IssueKind

/-- A step from a value into one of its parts. -/
inductive Location
  | field (name : Text)
  | index (i : Nat)
  deriving DecidableEq, Repr

/-- What is wrong, and where. -/
structure Issue where
  location : List Location
  kind : IssueKind
  /-- Whether the value that is wrong can be shown to a client. -/
  showable : Bool := true
  deriving DecidableEq, Repr

/-- The result of a check: a value, or what is wrong. -/
inductive Checked (α : Type)
  | ok (a : α)
  | bad (issues : List Issue)
  deriving DecidableEq, Repr

namespace Checked

variable {α β : Type}

def fail (k : IssueKind) (v : Json) : Checked α := bad [⟨[], k, v.isShowable⟩]

def map (f : α → β) : Checked α → Checked β
  | ok a => ok (f a)
  | bad is => bad is

/-- Applies a checked function to a checked value; the issues of both are kept. -/
def apply : Checked (α → β) → Checked α → Checked β
  | ok f, ok a => ok (f a)
  | ok _, bad is => bad is
  | bad is, ok _ => bad is
  | bad is, bad js => bad (is ++ js)

/-- A further check of a value that passed. -/
def andThen (x : Checked α) (f : α → Checked β) : Checked β :=
  match x with
  | ok a => f a
  | bad is => bad is

/-- Names the part in which the issues were found. -/
def inside (l : Location) : Checked α → Checked α
  | ok a => ok a
  | bad is => bad (is.map fun i => { i with location := l :: i.location })

instance : Functor Checked := ⟨map, fun a => map fun _ => a⟩

instance : Seq Checked := ⟨fun f x => apply f (x ())⟩

/-- The checks of some values, all of whose issues are kept. -/
def all : List (Checked α) → Checked (List α)
  | [] => ok []
  | x :: xs => apply (map List.cons x) (all xs)

end Checked

namespace Json

variable {α : Type}

/-! ### Values -/

def asWording : Json → Checked Wording
  | text t => .ok (.text t)
  | brokenText ps => .ok (.broken ps)
  | v => .fail .stringType v

/-- A string that is a text. -/
def asText (v : Json) : Checked Text :=
  (asWording v).andThen fun w =>
    match w with
    | .text t => .ok t
    | .broken _ => .fail .stringUnicode v

def orNull (check : Json → Checked α) : Json → Checked (Option α)
  | null => .ok none
  | v => (check v).map some

/-- One of some words. -/
def asWord (issue : IssueKind) (ofName? : Text → Option α) (v : Json) : Checked α :=
  match v with
  | text t =>
    match ofName? t with
    | some a => .ok a
    | none => .fail issue v
  | _ => .fail issue v

/-- The first whole number that a decimal is not read as. -/
def decimalBound : Nat := 0x8000000000000000

/-- A whole number: as such, as a truth value, as a decimal without a fraction or in a string. -/
def asInt (v : Json) : Checked Int :=
  match v with
  | int n => .ok n
  | bool b => .ok (if b then 1 else 0)
  | decimal d =>
    match d.magnitude? with
    | none => .fail .finiteNumber v
    | some x =>
      match x.toNat? with
      | none => .fail .intFromFloat v
      | some n =>
        if n < decimalBound then .ok (if d.isNegative then -(n : Int) else n)
        else .fail .intParsingSize v
  | text t =>
    match Numeral.read t with
    | .number n => .ok n
    | .tooLong => .fail .intParsingSize v
    | .malformed => .fail .intParsing v
  | brokenText _ => .fail .intParsing v
  | _ => .fail .intType v

def asPositive (v : Json) : Checked Nat :=
  (asInt v).andThen fun n => if 0 < n then .ok n.toNat else .fail .greaterThan v

def asNatural (v : Json) : Checked Nat :=
  (asInt v).andThen fun n => if 0 ≤ n then .ok n.toNat else .fail .greaterThanEqual v

def truth? (t : Text) : Option Bool :=
  let t := t.map Char.toLower
  if t ∈ ["true".toList, "t".toList, "yes".toList, "y".toList, "on".toList, "1".toList] then
    some true
  else if t ∈ ["false".toList, "f".toList, "no".toList, "n".toList, "off".toList, "0".toList] then
    some false
  else none

/-- A truth value: as such, as a word or as 0 or 1. Whole numbers from −2⁶³ to 2⁶³ − 1 are bad truth
values, and others are none at all. -/
def asBool (v : Json) : Checked Bool :=
  match v with
  | bool b => .ok b
  | text t =>
    match truth? t with
    | some b => .ok b
    | none => .fail .boolParsing v
  | brokenText _ => .fail .boolParsing v
  | int n =>
    if n = 0 then .ok false
    else if n = 1 then .ok true
    else if -(decimalBound : Int) ≤ n ∧ n < decimalBound then .fail .boolParsing v
    else .fail .boolType v
  | decimal d =>
    match d.magnitude?.bind Binary64.toNat? with
    | none => .fail .boolType v
    | some n =>
      if n = 0 then .ok false
      else if n = 1 ∧ !d.isNegative then .ok true
      else if n < decimalBound then .fail .boolParsing v
      else .fail .boolType v
  | _ => .fail .boolType v

def asList (check : Json → Checked α) : Json → Checked (List α)
  | array xs => Checked.all (xs.zipIdx.map fun p => (check p.1).inside (.index p.2))
  | v => .fail .listType v

/-! ### Records -/

/-- A record; `issue` is what a value that is no object is. -/
def asRecord (issue : IssueKind) (check : List (Text × Json) → Checked α) : Json → Checked α
  | object ms => check ms
  | v => .fail issue v

/-- A field that must be there. What is wrong if it is not is the whole record. -/
def required (key : Text) (check : Json → Checked α) (ms : List (Text × Json)) : Checked α :=
  (match member? key ms with
    | some v => check v
    | none => .fail .missing (object ms)).inside (.field key)

/-- A field with a default. -/
def optional (key : Text) (default : α) (check : Json → Checked α) (ms : List (Text × Json)) :
    Checked α :=
  match member? key ms with
  | some v => (check v).inside (.field key)
  | none => .ok default

end Json
end ShellConfig

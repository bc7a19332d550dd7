import ShellConfig.Json.Reader
import ShellConfig.Json.Writer
import ShellConfig.Proofs.Text.Hexadecimal
import Mathlib.Data.List.Chain

/-!
# Written values are read again

What is written of the values that fields of a record hold is read as these values. Main statements:
`string_write` and `unsigned_ofNat`, on strings and whole numbers; `value_writeAt`, on one value;
and `read_pretty`, on an object with one member a line.
-/

namespace ShellConfig

/-! ### Pieces of strings -/

namespace Piece

/-- Whether two pieces, one right behind the other, are the halves of one character. -/
def joins : Piece → Piece → Bool
  | half h, half l => isHighHalf h && isLowHalf l
  | _, _ => false

/-- Whether a piece is a character or half of one. -/
def isProper : Piece → Bool
  | char _ => true
  | half n => isHighHalf n || isLowHalf n

/-- Pieces that stand alone: no two neighbours are the halves of one character. -/
structure AreApart (ps : List Piece) : Prop where
  isProper : ∀ p ∈ ps, p.isProper = true
  apart : ps.IsChain fun p q => p.joins q = false

theorem areApart_nil : AreApart [] := ⟨by simp, .nil⟩

theorem areApart_chars (t : Text) : AreApart (t.map char) := by
  refine ⟨by simp [Piece.isProper], ?_⟩
  induction t with
  | nil => exact .nil
  | cons c t ih => exact List.isChain_cons.2 ⟨fun _ _ => rfl, ih⟩

theorem mapM_char? (t : Text) : (t.map char).mapM char? = some t := by
  induction t with
  | nil => rfl
  | cons c t ih => simp [List.mapM_cons, ih, char?]

theorem eq_map_of_mapM {ps : List Piece} {t : Text} (h : ps.mapM char? = some t) :
    ps = t.map char := by
  induction ps generalizing t with
  | nil =>
    cases h
    rfl
  | cons p ps ih =>
    cases p with
    | half n => simp [List.mapM_cons, char?] at h
    | char c =>
      rw [List.mapM_cons] at h
      obtain ⟨_, ⟨⟩, h⟩ := Option.bind_eq_some_iff.1 h
      obtain ⟨u, hu, h⟩ := Option.bind_eq_some_iff.1 h
      cases h
      rw [List.map_cons, ← ih hu]

end Piece

namespace Wording

theorem ofPieces_chars (t : Text) : ofPieces (t.map .char) = .text t := by
  rw [ofPieces, Piece.mapM_char?]

/-- A string as it is read: its pieces stand alone. -/
def IsRead (w : Wording) : Prop := ∃ ps, Piece.AreApart ps ∧ w = ofPieces ps

theorem isRead_text (t : Text) : IsRead (.text t) :=
  ⟨t.map .char, Piece.areApart_chars t, (ofPieces_chars t).symm⟩

end Wording

namespace Json

open Text

variable {c : Char} {n : Nat} {p : Piece} {ps sofar : List Piece} {r t : Text}
  {limits : ReadLimits} {w : Wording}

/-! ### Strings -/

theorem hexDigit?_of_mem_hex {width : Nat} (h : c ∈ hex width n) :
    hexDigit? c = some (hexDigitValue c) := by
  have hall : ∀ k : Fin 16,
      hexDigit? (k : Nat).digitChar = some (hexDigitValue (k : Nat).digitChar) := by decide
  rcases List.mem_append.1 h with h | h
  · rw [List.eq_of_mem_replicate h]
    rfl
  · obtain ⟨k, hk, rfl⟩ := mem_toDigits_sixteen h
    exact hall ⟨k, hk⟩

theorem hex4?_hex (h : n < 0x10000) :
    ∃ a b c d, hex 4 n = [a, b, c, d] ∧ hex4? a b c d = some n := by
  have hlength : (hex 4 n).length = 4 := length_hex (by decide) h
  obtain ⟨a, b, c, d, hdigits⟩ : ∃ a b c d, hex 4 n = [a, b, c, d] := by
    match hdigits : hex 4 n with
    | [a, b, c, d] => exact ⟨a, b, c, d, rfl⟩
    | [] | [_] | [_, _] | [_, _, _] | _ :: _ :: _ :: _ :: _ :: _ =>
      rw [hdigits] at hlength
      simp at hlength
  have hdigit : ∀ x ∈ [a, b, c, d], hexDigit? x = some (hexDigitValue x) := fun x hx =>
    hexDigit?_of_mem_hex (hdigits ▸ hx)
  have hvalue : hexValue [a, b, c, d] = n := hdigits ▸ hexValue_hex 4 n
  refine ⟨a, b, c, d, hdigits, ?_⟩
  rw [hex4?, hdigit a (by simp), hdigit b (by simp), hdigit c (by simp), hdigit d (by simp),
    ← hvalue]
  simp [hexValue, Nat.mul_comm]

theorem string_escape (h : n < 0x10000) (sofar : List Piece) (t : Text) :
    string sofar (unicodeEscape n ++ t) = string (addUnit sofar n) t := by
  obtain ⟨a, b, c, d, hdigits, hvalue⟩ := hex4?_hex h
  rw [unicodeEscape, hdigits]
  change string sofar ('\\' :: 'u' :: a :: b :: c :: d :: t) = _
  rw [string, hvalue]

theorem addUnit_of_half (hn : (Piece.half n).isProper = true)
    (h : ∀ q ∈ sofar.head?, q.joins (.half n) = false) : addUnit sofar n = .half n :: sofar := by
  have hunit : addUnit.ofUnit n = .half n := if_pos hn
  unfold addUnit
  split
  · next m ps =>
    have hjoin : (Piece.isHighHalf m && Piece.isLowHalf n) = false := h (.half m) rfl
    rw [hjoin, if_neg Bool.false_ne_true, hunit]
  · rw [hunit]

theorem addUnit_of_char (hn : (Piece.half n).isProper = false) :
    addUnit sofar n = .char (Char.ofNat n) :: sofar := by
  have hunit : addUnit.ofUnit n = .char (Char.ofNat n) :=
    if_neg (by simpa [Piece.isProper] using hn)
  have hlow : Piece.isLowHalf n = false := (Bool.or_eq_false_iff.1 hn).2
  unfold addUnit
  split
  · rw [hlow, Bool.and_false, if_neg Bool.false_ne_true, hunit]
  · rw [hunit]

/-- Two halves of a character join. -/
theorem addUnit_addUnit {h l : Nat} (hh : Piece.isHighHalf h = true)
    (hl : Piece.isLowHalf l = true) :
    addUnit (.half h :: sofar) l = .char (Piece.joinHalves h l) :: sofar := by
  rw [addUnit, hh, hl]
  rfl

theorem toNat_lt (c : Char) : c.toNat < 0x110000 := by
  have hvalid : c.toNat < 0xD800 ∨ 0xDFFF < c.toNat ∧ c.toNat < 0x110000 := c.valid
  omega

theorem isProper_toNat (c : Char) : (Piece.half c.toNat).isProper = false := by
  have hvalid : c.toNat < 0xD800 ∨ 0xDFFF < c.toNat := c.valid.imp_right And.left
  simp only [Piece.isProper, Piece.isHighHalf, Piece.isLowHalf, Bool.or_eq_false_iff,
    Bool.and_eq_false_iff, decide_eq_false_iff_not]
  omega

theorem string_cons (hquote : c ≠ '"') (hslash : c ≠ '\\') (hc : 32 ≤ c.toNat) (sofar : List Piece)
    (t : Text) : string sofar (c :: t) = string (.char c :: sofar) t := by
  have hcontrol : ¬(c.toNat < 32 ∨ c = '\\') := by simp [hslash, hc]
  rw [string, if_neg hquote, if_neg hcontrol]
  · exact fun _ _ _ _ _ h => absurd h hslash
  · exact fun _ _ h => absurd h hslash

theorem string_escape_escape {h l : Nat} (hh : Piece.isHighHalf h = true)
    (hl : Piece.isLowHalf l = true) (sofar : List Piece) (t : Text) :
    string sofar (unicodeEscape h ++ unicodeEscape l ++ t) =
      string (.char (Piece.joinHalves h l) :: sofar) t := by
  have hhigh := hh
  have hlow := hl
  simp only [Piece.isHighHalf, Piece.isLowHalf, Bool.and_eq_true, decide_eq_true_eq] at hhigh hlow
  have hfirst : ∀ q ∈ sofar.head?, q.joins (.half h) = false := by
    rintro (q | m) -
    · rfl
    · simp only [Piece.joins, Piece.isLowHalf, Bool.and_eq_false_iff, decide_eq_false_iff_not]
      omega
  have hproper : (Piece.half h).isProper = true := by rw [Piece.isProper, hh, Bool.true_or]
  rw [List.append_assoc, string_escape (by omega), string_escape (by omega),
    addUnit_of_half hproper hfirst, addUnit_addUnit hh hl]

theorem joinHalves_of_le (h : 0x10000 ≤ c.toNat) :
    Piece.isHighHalf (0xD800 + (c.toNat - 0x10000) / 0x400) = true ∧
      Piece.isLowHalf (0xDC00 + (c.toNat - 0x10000) % 0x400) = true ∧
      Piece.joinHalves (0xD800 + (c.toNat - 0x10000) / 0x400)
        (0xDC00 + (c.toNat - 0x10000) % 0x400) = c := by
  have hlt := toNat_lt c
  simp only [Piece.isHighHalf, Piece.isLowHalf, Bool.and_eq_true, decide_eq_true_eq]
  refine ⟨by omega, by omega, ?_⟩
  have hn : 0x10000 + (0xD800 + (c.toNat - 0x10000) / 0x400 - 0xD800) * 0x400 +
      (0xDC00 + (c.toNat - 0x10000) % 0x400 - 0xDC00) = c.toNat := by omega
  rw [Piece.joinHalves, hn, Char.ofNat_toNat]

theorem string_stringChar (c : Char) (sofar : List Piece) (t : Text) :
    string sofar (stringChar c ++ t) = string (.char c :: sofar) t := by
  unfold stringChar
  split
  · next hc => rcases hc with rfl | rfl <;> rfl
  split
  · next hc => subst hc; rfl
  split
  · next hc => subst hc; rfl
  split
  · next hc => subst hc; rfl
  split
  · next hc => subst hc; rfl
  split
  · next hc => subst hc; rfl
  next hquote _ _ _ _ _ =>
  obtain ⟨hquote, hslash⟩ := not_or.1 hquote
  split
  · next hplain => exact string_cons hquote hslash hplain.1 sofar t
  split
  · next hshort =>
    rw [string_escape hshort, addUnit_of_char (isProper_toNat c), Char.ofNat_toNat]
  · next hlong =>
    obtain ⟨hhigh, hlow, hjoined⟩ := joinHalves_of_le (Nat.not_lt.1 hlong)
    rw [string_escape_escape hhigh hlow, hjoined]

/-- A piece of a string is read as it was written, unless it joins the piece before it. -/
theorem string_stringPiece (hp : p.isProper = true) (hjoin : ∀ q ∈ sofar.head?, q.joins p = false)
    (t : Text) : string sofar (stringPiece p ++ t) = string (p :: sofar) t := by
  cases p with
  | half n =>
    have hn : n < 0x10000 := by
      simp only [Piece.isProper, Piece.isHighHalf, Piece.isLowHalf, Bool.or_eq_true,
        Bool.and_eq_true, decide_eq_true_eq] at hp
      omega
    rw [stringPiece, string_escape hn, addUnit_of_half hp hjoin]
  | char c => exact string_stringChar c sofar t

theorem string_flatMap (hps : Piece.AreApart ps)
    (hjoin : ∀ q ∈ sofar.head?, ∀ p ∈ ps.head?, q.joins p = false) (t : Text) :
    string sofar (ps.flatMap stringPiece ++ t) = string (ps.reverse ++ sofar) t := by
  induction ps generalizing sofar with
  | nil => rfl
  | cons p ps ih =>
    obtain ⟨hnext, hapart⟩ := List.isChain_cons.1 hps.apart
    obtain ⟨hp, hproper⟩ := List.forall_mem_cons.1 hps.isProper
    have hrest : ∀ q ∈ (p :: sofar).head?, ∀ p' ∈ ps.head?, q.joins p' = false := by
      rintro _ ⟨⟩
      exact hnext
    rw [List.flatMap_cons, List.append_assoc,
      string_stringPiece hp fun q hq => hjoin q hq p rfl, ih ⟨hproper, hapart⟩ hrest,
      List.reverse_cons, List.append_assoc, List.singleton_append]

/-- A string is read to its closing quote. -/
theorem string_write (hps : Piece.AreApart ps) (r : Text) :
    string [] (ps.flatMap stringPiece ++ '"' :: r) = .ok (ofWording (.ofPieces ps), r) := by
  have hclose : string ps.reverse ('"' :: r) = .ok (ofWording (.ofPieces ps), r) := by
    rw [string, if_pos rfl, List.reverse_reverse]
    · exact fun _ _ _ _ _ h => absurd h (by decide)
    · exact fun _ _ h => absurd h (by decide)
  rw [string_flatMap hps (by simp), List.append_nil, hclose]

/-! ### Whole numbers -/

theorem digitsValue_ofNat (n : Nat) : digitsValue (ofNat n) = n :=
  Nat.ofDigitChars_toDigits (by decide) (by decide)

theorem head?_ofNat_ne (h : 0 < n) : (ofNat n).head? ≠ some '0' := by
  have hall : ∀ k : Fin 10, 0 < (k : Nat) → (k : Nat).digitChar ≠ '0' := by decide
  unfold ofNat
  induction n using Nat.strongRecOn with
  | ind n ih =>
    by_cases hn : n < 10
    · rw [Nat.toDigits_of_lt_base hn, List.head?_cons]
      exact fun heq => hall ⟨n, hn⟩ h (Option.some.inj heq)
    · rw [Nat.toDigits_of_base_le (by decide) (by omega), List.head?_append_of_ne_nil]
      · exact ih (n / 10) (by omega) (by omega)
      · exact Nat.toDigits_ne_nil

/-- A text with which no number goes on. -/
def EndsNumber (t : Text) : Prop :=
  ∀ c ∈ t.head?, Text.isDigit c = false ∧ c ≠ '.' ∧ c ≠ 'e' ∧ c ≠ 'E'

theorem takeWhile_ofNat (n : Nat) (hr : EndsNumber r) :
    (ofNat n ++ r).takeWhile Text.isDigit = ofNat n ∧
      (ofNat n ++ r).dropWhile Text.isDigit = r := by
  have hdigits : ∀ c ∈ ofNat n, Text.isDigit c = true := fun c hc => isDigit_of_mem_ofNat hc
  rw [List.takeWhile_append_of_pos hdigits, List.dropWhile_append_of_pos hdigits]
  cases r with
  | nil => simp
  | cons c r => simp [(hr c rfl).1]

theorem whole?_ofNat (n : Nat) (hr : EndsNumber r) : whole? (ofNat n ++ r) = some (ofNat n, r) := by
  obtain ⟨htake, hdrop⟩ := takeWhile_ofNat n hr
  by_cases hn : n = 0
  · subst hn
    rfl
  · cases hdigits : ofNat n with
    | nil => exact absurd hdigits Nat.toDigits_ne_nil
    | cons c ds =>
      have hzero : c ≠ '0' := by
        rintro rfl
        exact head?_ofNat_ne (Nat.pos_of_ne_zero hn) (congrArg List.head? hdigits)
      have hdigit : Text.isDigit c = true := isDigit_of_mem_ofNat (hdigits ▸ List.mem_cons_self)
      rw [hdigits, List.cons_append] at htake hdrop
      rw [List.cons_append, whole?, if_pos hdigit, htake, hdrop]
      exact hzero

/-- A whole number is read to its last digit. -/
theorem unsigned_ofNat (hn : n < 10 ^ limits.digits) (hdigits : 0 < limits.digits)
    (hr : EndsNumber r) : unsigned limits false (ofNat n ++ r) = .ok (.nat n, r) := by
  have hfraction : fraction? r = none := by
    cases r with
    | nil => rfl
    | cons c r =>
      unfold fraction?
      split
      · next h => exact absurd (List.cons.inj h).1 (hr c rfl).2.1
      · rfl
  have hexponent : exponent? r = none := by
    cases r with
    | nil => rfl
    | cons c r => rw [exponent?, if_neg (by simp [hr c rfl])]
  have hlength : ¬limits.digits < (ofNat n).length :=
    Nat.not_lt.2 ((Nat.length_toDigits_le_iff (by decide) hdigits).2 hn)
  rw [unsigned, whole?_ofNat n hr]
  dsimp only
  rw [hfraction, Option.map_none, Option.getD_none, hexponent]
  dsimp only
  rw [if_neg hlength, digitsValue_ofNat]
  rfl

/-! ### Values -/

/-- A value that a field of a record holds: nothing, a natural number of so many digits, or a string
as it is read. -/
inductive IsField (digits : Nat) : Json → Prop
  | null : IsField digits null
  | nat {n : Nat} (h : n < 10 ^ digits) : IsField digits (.nat n)
  | wording {w : Wording} (h : w.IsRead) : IsField digits (ofWording w)

theorem isField_text (digits : Nat) (t : Text) : IsField digits (.text t) :=
  .wording (Wording.isRead_text t)

theorem writeAt_ofWording (depth : Option Nat) (ps : List Piece) :
    writeAt depth (ofWording (.ofPieces ps)) = '"' :: (ps.flatMap stringPiece ++ ['"']) := by
  unfold Wording.ofPieces
  cases htext : ps.mapM Piece.char? with
  | none => rfl
  | some t =>
    obtain rfl := Piece.eq_map_of_mapM htext
    change writeText t = _
    rw [writeText, List.flatMap_map]
    rfl

theorem atom_of_digit (h : Text.isDigit c = true) :
    atom limits (c :: t) = number limits (c :: t) := by
  have hnone : wordValues.findSome? (fun w => (after? w.1 (c :: t)).map (w.2, ·)) = none := by
    refine List.findSome?_eq_none_iff.2 fun w hw => Option.map_eq_none_iff.2 ?_
    have hall : ∀ w ∈ wordValues, ∃ x u, w.1 = x :: u ∧ Text.isDigit x = false := by
      simp [wordValues, Text.isDigit]
    obtain ⟨x, u, hx, hdigit⟩ := hall w hw
    have hne : x ≠ c := by
      rintro rfl
      rw [h] at hdigit
      cases hdigit
    rw [hx, after?, if_neg hne]
  rw [atom, hnone]

/-- A value of a field is read to its end. -/
theorem value_writeAt {v : Json} (hv : IsField limits.digits v) (hdigits : 0 < limits.digits)
    (hr : EndsNumber r) (depth : Option Nat) (fuel : Nat) :
    value limits (fuel + 1) (writeAt depth v ++ r) = .ok (v, r) := by
  cases hv with
  | null => rfl
  | nat hn =>
    rename_i n
    change value limits (fuel + 1) (ofNat n ++ r) = _
    cases hofNat : ofNat n with
    | nil => exact absurd hofNat Nat.toDigits_ne_nil
    | cons c ds =>
      have hdigit : Text.isDigit c = true := isDigit_of_mem_ofNat (hofNat ▸ List.mem_cons_self)
      have hne : ∀ x, Text.isDigit x = false → c ≠ x := by
        rintro _ hx rfl
        rw [hdigit] at hx
        cases hx
      rw [List.cons_append, value, atom_of_digit hdigit, number, ← List.cons_append, ← hofNat,
        unsigned_ofNat hn hdigits hr]
      · exact fun r h => absurd (List.cons.inj h).1 (hne '-' (by decide))
      · exact fun r h => absurd (List.cons.inj h).1 (hne '"' (by decide))
      · exact fun r h => absurd (List.cons.inj h).1 (hne '[' (by decide))
      · exact fun r h => absurd (List.cons.inj h).1 (hne '{' (by decide))
  | wording hw =>
    obtain ⟨ps, hps, rfl⟩ := hw
    rw [writeAt_ofWording, List.cons_append, List.append_assoc]
    exact string_write hps r

/-! ### Objects -/

variable {depth : Option Nat} {fuel k : Nat} {key : Text} {ms read : List (Text × Json)} {v : Json}

/-- The break before a line that is indented by some blanks. -/
def newLine (k : Nat) : Text := '\n' :: List.replicate k ' '

theorem skip_newLine (k : Nat) (t : Text) : skip (newLine k ++ t) = skip t := by
  have hall : ∀ c ∈ newLine k, isSpace c = true := by
    intro c hc
    rcases List.mem_cons.1 hc with rfl | hc
    · rfl
    · rw [List.eq_of_mem_replicate hc]
      rfl
  exact List.dropWhile_append_of_pos hall

theorem endsNumber_newLine (k : Nat) (t : Text) : EndsNumber (newLine k ++ t) := by
  rintro _ ⟨⟩
  decide

theorem skip_writeAt (hv : IsField limits.digits v) (t : Text) :
    skip (writeAt depth v ++ t) = writeAt depth v ++ t := by
  cases hv with
  | null => rfl
  | nat hn =>
    rename_i n
    change skip (ofNat n ++ t) = ofNat n ++ t
    cases hofNat : ofNat n with
    | nil => exact absurd hofNat Nat.toDigits_ne_nil
    | cons c ds =>
      have hdigit : Text.isDigit c = true := isDigit_of_mem_ofNat (hofNat ▸ List.mem_cons_self)
      refine List.dropWhile_cons_of_neg fun hspace => ?_
      have hnone : [' ', '\t', '\n', '\r'].all (!Text.isDigit ·) = true := by decide
      have hnot := List.all_eq_true.1 hnone c (of_decide_eq_true hspace)
      rw [hdigit] at hnot
      cases hnot
  | wording hw =>
    obtain ⟨ps, -, rfl⟩ := hw
    rw [writeAt_ofWording]
    rfl

theorem members_writeMember (hv : IsField limits.digits v) (hdigits : 0 < limits.digits)
    (hr : EndsNumber r) :
    members limits (fuel + 2) read ((writeText key ++ ':' :: ' ' :: writeAt depth v) ++ r) =
      match skip r with
      | ',' :: r => members limits (fuel + 1) ((key, v) :: read) (skip r)
      | '}' :: r => .ok (object ((key, v) :: read).reverse, r)
      | _ => .error .malformed := by
  have hkey : string [] (key.flatMap stringChar ++ '"' :: (':' :: ' ' :: writeAt depth v ++ r)) =
      .ok (.text key, ':' :: ' ' :: writeAt depth v ++ r) := by
    have hstring := string_write (Piece.areApart_chars key) (':' :: ' ' :: writeAt depth v ++ r)
    rwa [List.flatMap_map, Wording.ofPieces_chars] at hstring
  have hvalue : value limits (fuel + 1) (skip (' ' :: writeAt depth v ++ r)) = .ok (v, r) := by
    change value limits (fuel + 1) (skip (writeAt depth v ++ r)) = _
    rw [skip_writeAt hv, value_writeAt hv hdigits hr]
  have htext : (writeText key ++ ':' :: ' ' :: writeAt depth v) ++ r =
      '"' :: (key.flatMap stringChar ++ '"' :: (':' :: ' ' :: writeAt depth v ++ r)) := by
    simp [writeText]
  have hcolon : skip (':' :: ' ' :: writeAt depth v ++ r) =
      ':' :: (' ' :: writeAt depth v ++ r) := rfl
  rw [htext, members]
  simp only [hkey, hcolon, hvalue]
  rfl

theorem exists_join_writeMembers (depth : Option Nat) (hne : ms ≠ []) (separator : Text) :
    ∃ u, join separator (writeMembers depth ms) = '"' :: u := by
  match ms, hne with
  | [_], _ => exact ⟨_, rfl⟩
  | _ :: _ :: _, _ => exact ⟨_, rfl⟩

theorem skip_join_writeMembers (hne : ms ≠ []) (separator t : Text) :
    skip (join separator (writeMembers depth ms) ++ t) =
      join separator (writeMembers depth ms) ++ t := by
  obtain ⟨u, hu⟩ := exists_join_writeMembers depth hne separator
  rw [hu]
  rfl

theorem length_le_join (depth : Option Nat) (ms : List (Text × Json)) (separator : Text) :
    ms.length ≤ (join separator (writeMembers depth ms)).length := by
  induction ms with
  | nil => exact Nat.zero_le _
  | cons m ms ih =>
    cases ms with
    | nil =>
      change 1 ≤ (join separator (writeMembers depth [m])).length
      simp [join, writeMembers, writeText]
    | cons m' ms =>
      have hjoin : join separator (writeMembers depth (m :: m' :: ms)) =
          (writeText m.1 ++ ':' :: ' ' :: writeAt depth m.2) ++
            (separator ++ join separator (writeMembers depth (m' :: ms))) := rfl
      rw [hjoin]
      simp only [writeText, List.length_append, List.length_cons] at ih ⊢
      omega

/-- Members with one line each are read to the closing bracket. -/
theorem members_writeMembers (limits : ReadLimits) (hms : ∀ m ∈ ms, IsField limits.digits m.2)
    (hdigits : 0 < limits.digits) (hne : ms ≠ []) (k j fuel : Nat) (r : Text) :
    members limits (fuel + ms.length + 1) read
        (join (',' :: newLine k) (writeMembers depth ms) ++ (newLine j ++ '}' :: r)) =
      .ok (object (read.reverse ++ ms), r) := by
  induction ms generalizing read with
  | nil => exact absurd rfl hne
  | cons m ms ih =>
    obtain ⟨key, v⟩ := m
    obtain ⟨hv, hrest⟩ := List.forall_mem_cons.1 hms
    cases ms with
    | nil =>
      refine (members_writeMember hv hdigits (endsNumber_newLine j _)).trans ?_
      rw [skip_newLine]
      simp [skip, isSpace]
    | cons m' ms =>
      have hjoin : ∀ rest, join (',' :: newLine k) (writeMembers depth ((key, v) :: m' :: ms)) ++
          rest = (writeText key ++ ':' :: ' ' :: writeAt depth v) ++ (',' :: (newLine k ++
            (join (',' :: newLine k) (writeMembers depth (m' :: ms)) ++ rest))) := by
        simp [join, writeMembers]
      have hends : ∀ rest, EndsNumber (',' :: rest) := by
        rintro rest _ ⟨⟩
        decide
      have hskip : ∀ t, skip (',' :: t) = ',' :: t := fun _ => rfl
      rw [hjoin]
      refine (members_writeMember hv hdigits (hends _)).trans ?_
      simp only [hskip, skip_newLine, skip_join_writeMembers (List.cons_ne_nil m' ms)]
      refine (ih hrest (by simp)).trans ?_
      simp

theorem value_object {digits d : Nat} {u : Text} (h : skip t = '"' :: u) :
    value ⟨digits, d + 1⟩ (fuel + 1) ('{' :: t) = members ⟨digits, d⟩ fuel [] ('"' :: u) := by
  rw [value]
  simp only [ReadLimits.inside?, h]
  rfl

/-- An object whose members hold values of fields is read as it was written. -/
theorem read_pretty (hms : ∀ m ∈ ms, IsField limits.digits m.2) (hdigits : 0 < limits.digits)
    (hdepth : 0 < limits.depth) (hne : ms ≠ []) :
    Json.read limits (pretty (object ms)) = .ok (object ms) := by
  obtain ⟨digits, depth⟩ := limits
  obtain ⟨d, rfl⟩ : ∃ d, depth = d + 1 := ⟨depth - 1, by dsimp only at hdepth; omega⟩
  have htext : pretty (object ms) = '{' :: (newLine 2 ++
      (join (',' :: newLine 2) (writeMembers (some 1) ms) ++ (newLine 0 ++ ['}']))) := by
    cases ms with
    | nil => exact absurd rfl hne
    | cons m ms => simp [pretty, writeAt, bracketed, writeMembers, newLine]
  obtain ⟨u, hu⟩ := exists_join_writeMembers (some 1) hne (',' :: newLine 2)
  have hskip : skip (newLine 2 ++ (join (',' :: newLine 2) (writeMembers (some 1) ms) ++
      (newLine 0 ++ ['}']))) = '"' :: (u ++ (newLine 0 ++ ['}'])) := by
    rw [skip_newLine, skip_join_writeMembers hne, hu]
    rfl
  obtain ⟨fuel, hfuel⟩ : ∃ fuel,
      2 * (pretty (object ms)).length + 2 = fuel + ms.length + 1 + 1 := by
    have hlength := length_le_join (some 1) ms (',' :: newLine 2)
    refine ⟨2 * (pretty (object ms)).length - ms.length, ?_⟩
    rw [htext]
    simp only [List.length_cons, List.length_append]
    omega
  have hvalue : value ⟨digits, d + 1⟩ (2 * (pretty (object ms)).length + 2)
      (skip (pretty (object ms))) = .ok (object ms, []) := by
    have hmembers : members ⟨digits, d⟩ (fuel + ms.length + 1) []
        (join (',' :: newLine 2) (writeMembers (some 1) ms) ++ (newLine 0 ++ ['}'])) =
        .ok (object ms, []) := members_writeMembers ⟨digits, d⟩ hms hdigits hne 2 0 fuel []
    rw [hu] at hmembers
    have hstart : skip (pretty (object ms)) = pretty (object ms) := by
      rw [htext]
      rfl
    rw [hstart, hfuel, htext, value_object hskip]
    exact hmembers
  rw [Json.read, hvalue]
  rfl

end Json
end ShellConfig

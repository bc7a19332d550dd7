import ShellConfig.Json.Decode
import ShellConfig.Proofs.Json.WriteRead
import Mathlib.Data.List.TakeWhile

/-!
# The range of the reader

What values come out of reading: their whole numbers are in the limits and the pieces of their
strings stand alone. Main statements: `string_eq_ok` and `unsigned_eq_ok`, on strings and whole
numbers; `isInRange_of_read`, on all values; and `natAbs_of_asInt`, on what is checked to be a whole
number.
-/

namespace ShellConfig

/-! ### Pieces of strings -/

namespace Piece

variable {p : Piece} {ps : List Piece}

theorem areApart_concat : AreApart (ps ++ [p]) ↔
    AreApart ps ∧ p.isProper = true ∧ ∀ q ∈ ps.getLast?, q.joins p = false := by
  constructor
  · rintro ⟨hproper, hapart⟩
    obtain ⟨hinit, -, hlast⟩ := List.isChain_append.1 hapart
    exact ⟨⟨fun q hq => hproper q (by simp [hq]), hinit⟩, hproper p (by simp),
      fun q hq => hlast q hq p rfl⟩
  · rintro ⟨⟨hproper, hinit⟩, hp, hlast⟩
    refine ⟨fun q hq => ?_, List.isChain_append.2 ⟨hinit, .singleton p, fun q hq r hr => ?_⟩⟩
    · rcases List.mem_append.1 hq with hq | hq
      · exact hproper q hq
      · rwa [List.mem_singleton.1 hq]
    · obtain rfl : p = r := by simpa using hr
      exact hlast q hq

theorem areApart_reverse_cons : AreApart (p :: ps).reverse ↔
    AreApart ps.reverse ∧ p.isProper = true ∧ ∀ q ∈ ps.head?, q.joins p = false := by
  rw [List.reverse_cons, areApart_concat, List.getLast?_reverse]

end Piece

namespace Json

open Text

variable {c : Char} {digits fuel n : Nat} {i : Int} {limits : ReadLimits} {ps sofar : List Piece}
  {r t : Text} {v : Json}

/-! ### Strings -/

/-- One more unit leaves the pieces of a string alone. -/
theorem areApart_addUnit (h : Piece.AreApart sofar.reverse) (n : Nat) :
    Piece.AreApart (addUnit sofar n).reverse := by
  have hproper : (addUnit.ofUnit n).isProper = true := by
    unfold addUnit.ofUnit
    split
    · assumption
    · rfl
  have hpush : (∀ q ∈ sofar.head?, q.joins (addUnit.ofUnit n) = false) →
      Piece.AreApart (addUnit.ofUnit n :: sofar).reverse := fun hjoin =>
    Piece.areApart_reverse_cons.2 ⟨h, hproper, hjoin⟩
  unfold addUnit
  split
  · next m ps =>
    split
    · exact Piece.areApart_reverse_cons.2
        ⟨(Piece.areApart_reverse_cons.1 h).1, rfl, fun q _ => by cases q <;> rfl⟩
    · next hjoin =>
      refine hpush ?_
      rintro _ ⟨⟩
      unfold addUnit.ofUnit
      split
      · simpa [Piece.joins] using hjoin
      · rfl
  · next hsofar =>
    refine hpush ?_
    rintro (_ | m) hm
    · rfl
    · obtain ⟨ps, rfl⟩ := List.head?_eq_some_iff.1 hm
      exact absurd rfl (hsofar m ps)

theorem areApart_push (h : Piece.AreApart sofar.reverse) (c : Char) :
    Piece.AreApart (.char c :: sofar).reverse :=
  Piece.areApart_reverse_cons.2 ⟨h, rfl, fun q _ => by cases q <;> rfl⟩

/-- What is read from behind a quote is a string, whose pieces stand alone. -/
theorem string_eq_ok (hsofar : Piece.AreApart sofar.reverse) (h : string sofar t = .ok (v, r)) :
    ∃ w : Wording, w.IsRead ∧ v = ofWording w := by
  fun_induction string sofar t with
  | case1 | case2 | case4 | case7 => cases h
  | case3 sofar a b c d t n hn ih => exact ih (areApart_addUnit hsofar n) h
  | case5 sofar e t _ c hc ih => exact ih (areApart_push hsofar c) h
  | case6 sofar t c =>
    cases h
    exact ⟨_, ⟨_, hsofar, rfl⟩, rfl⟩
  | case8 sofar c t _ _ _ _ ih => exact ih (areApart_push hsofar c) h

/-! ### Whole numbers -/

theorem digitsValue_lt {ds : Text} (h : ∀ c ∈ ds, Text.isDigit c = true) :
    digitsValue ds < 10 ^ ds.length := by
  induction ds using List.reverseRecOn with
  | nil => decide
  | append_singleton ds c ih =>
    have hc : digitValue c < 10 := by
      have hdigit := h c (by simp)
      simp only [Text.isDigit, Bool.and_eq_true, decide_eq_true_eq, Char.le_def] at hdigit
      change c.val.toNat - 48 < 10
      have hle : c.val.toNat ≤ 57 := UInt32.le_iff_toNat_le.1 hdigit.2
      omega
    have hds := ih fun d hd => h d (by simp [hd])
    have hconcat : digitsValue (ds ++ [c]) = 10 * digitsValue ds + digitValue c := by
      simp [digitsValue]
    rw [hconcat, List.length_append, List.length_singleton, Nat.pow_succ]
    omega

theorem isDigit_of_whole? {w : Text} (h : whole? t = some (w, r)) (hc : c ∈ w) :
    Text.isDigit c = true := by
  unfold whole? at h
  split at h
  · cases h
    rw [List.mem_singleton.1 hc]
    decide
  · split at h
    · cases h
      exact List.mem_takeWhile_imp hc
    · cases h
  · cases h

/-- What is read of digits is a decimal, or a whole number in the limits. -/
theorem unsigned_eq_ok {negative : Bool} (h : unsigned limits negative t = .ok (v, r)) :
    (∃ d, v = .decimal d) ∨ ∃ i, v = .int i ∧ i.natAbs < 10 ^ limits.digits := by
  unfold unsigned at h
  cases hwhole : whole? t with
  | none =>
    rw [hwhole] at h
    cases h
  | some p =>
    obtain ⟨w, rest⟩ := p
    rw [hwhole] at h
    dsimp only at h
    split at h
    · split at h
      · cases h
      · next hlength =>
        cases h
        refine .inr ⟨_, rfl, ?_⟩
        have hlt := digitsValue_lt fun c hc => isDigit_of_whole? hwhole hc
        have hle := Nat.pow_le_pow_right (show 0 < 10 by decide) (Nat.not_lt.1 hlength)
        split <;> omega
    · cases h
      exact .inl ⟨_, rfl⟩

/-! ### Values -/

/-- A value in the range of the reader: whole numbers have so many digits and the pieces of strings
stand alone. -/
inductive IsInRange (digits : Nat) : Json → Prop
  | null : IsInRange digits null
  | bool (b : Bool) : IsInRange digits (bool b)
  | int {i : Int} (h : i.natAbs < 10 ^ digits) : IsInRange digits (int i)
  | decimal (d : Decimal) : IsInRange digits (decimal d)
  | text (t : Text) : IsInRange digits (text t)
  | brokenText {ps : List Piece} (h : (Wording.broken ps).IsRead) : IsInRange digits (brokenText ps)
  | array {xs : List Json} (h : ∀ x ∈ xs, IsInRange digits x) : IsInRange digits (array xs)
  | object {ms : List (Text × Json)} (h : ∀ m ∈ ms, IsInRange digits m.2) :
    IsInRange digits (object ms)

theorem isInRange_ofWording {w : Wording} (h : w.IsRead) : IsInRange digits (ofWording w) := by
  cases w with
  | text t => exact .text t
  | broken ps => exact .brokenText h

theorem isInRange_of_string (h : string [] t = .ok (v, r)) : IsInRange digits v := by
  have hnil : Piece.AreApart (List.reverse []) := Piece.areApart_nil
  obtain ⟨w, hw, rfl⟩ := string_eq_ok hnil h
  exact isInRange_ofWording hw

theorem isInRange_of_atom (h : atom limits t = .ok (v, r)) : IsInRange limits.digits v := by
  have hunsigned : ∀ {negative u}, unsigned limits negative u = .ok (v, r) →
      IsInRange limits.digits v := by
    intro negative u hu
    rcases unsigned_eq_ok hu with ⟨d, rfl⟩ | ⟨i, rfl, hi⟩
    · exact .decimal d
    · exact .int hi
  unfold atom at h
  split at h
  · next found hfound =>
    cases h
    obtain ⟨w, hw, hmap⟩ := List.exists_of_findSome?_eq_some hfound
    obtain ⟨u, -, heq⟩ := Option.map_eq_some_iff.1 hmap
    cases heq
    have hall : ∀ w ∈ wordValues, IsInRange limits.digits w.2 := by
      simp only [wordValues, List.forall_mem_cons]
      exact ⟨.null, .bool _, .bool _, .decimal _, .decimal _, List.forall_mem_nil _⟩
    exact hall w hw
  · unfold number at h
    split at h
    · split at h
      · cases h
        exact .decimal _
      · exact hunsigned h
    · exact hunsigned h

theorem ReadLimits.digits_of_inside {limits inner : ReadLimits} (h : limits.inside? = some inner) :
    inner.digits = limits.digits := by
  unfold ReadLimits.inside? at h
  split at h
  · cases h
  · cases h
    rfl

/-- The values that a reader of so much fuel gives are in its range, and so are those that it
gathers. -/
structure StaysInRange (fuel : Nat) : Prop where
  value : ∀ {limits : ReadLimits} {t r : Text} {v : Json},
    value limits fuel t = .ok (v, r) → IsInRange limits.digits v
  elements : ∀ {limits : ReadLimits} {read : List Json} {t r : Text} {v : Json},
    (∀ x ∈ read, IsInRange limits.digits x) → elements limits fuel read t = .ok (v, r) →
      IsInRange limits.digits v
  members : ∀ {limits : ReadLimits} {read : List (Text × Json)} {t r : Text} {v : Json},
    (∀ m ∈ read, IsInRange limits.digits m.2) → members limits fuel read t = .ok (v, r) →
      IsInRange limits.digits v

theorem StaysInRange.value_succ (h : StaysInRange fuel)
    (hread : Json.value limits (fuel + 1) t = .ok (v, r)) : IsInRange limits.digits v := by
  rw [Json.value.eq_def] at hread
  dsimp only at hread
  split at hread
  · exact isInRange_of_string hread
  · split at hread
    · cases hread
    · next inner hinner =>
      rw [← ReadLimits.digits_of_inside hinner]
      split at hread
      · cases hread
        exact .array (by simp)
      · exact h.elements (by simp) hread
  · split at hread
    · cases hread
    · next inner hinner =>
      rw [← ReadLimits.digits_of_inside hinner]
      split at hread
      · cases hread
        exact .object (by simp)
      · exact h.members (by simp) hread
  · exact isInRange_of_atom hread

theorem StaysInRange.elements_succ {read : List Json} (h : StaysInRange fuel)
    (hsofar : ∀ x ∈ read, IsInRange limits.digits x)
    (hread : Json.elements limits (fuel + 1) read t = .ok (v, r)) :
    IsInRange limits.digits v := by
  rw [Json.elements.eq_def] at hread
  dsimp only at hread
  split at hread
  · cases hread
  · next x rest hx =>
    have hmore : ∀ y ∈ x :: read, IsInRange limits.digits y :=
      List.forall_mem_cons.2 ⟨h.value hx, hsofar⟩
    split at hread
    · exact h.elements hmore hread
    · cases hread
      exact .array fun y hy => hmore y (List.mem_reverse.1 hy)
    · cases hread

theorem StaysInRange.members_succ {read : List (Text × Json)} (h : StaysInRange fuel)
    (hsofar : ∀ m ∈ read, IsInRange limits.digits m.2)
    (hread : Json.members limits (fuel + 1) read t = .ok (v, r)) :
    IsInRange limits.digits v := by
  rw [Json.members.eq_def] at hread
  dsimp only at hread
  split at hread
  · split at hread
    · cases hread
    · next key rest hkey =>
      split at hread
      · split at hread
        · cases hread
        · next x rest' hx =>
          have hnamed : IsInRange limits.digits (named key x).2 := by
            unfold named
            split
            · exact h.value hx
            · exact isInRange_of_string hkey
          have hmore : ∀ m ∈ named key x :: read, IsInRange limits.digits m.2 :=
            List.forall_mem_cons.2 ⟨hnamed, hsofar⟩
          split at hread
          · exact h.members hmore hread
          · cases hread
            exact .object fun m hm => hmore m (List.mem_reverse.1 hm)
          · cases hread
      · cases hread
  · cases hread

theorem staysInRange (fuel : Nat) : StaysInRange fuel := by
  induction fuel with
  | zero =>
    refine ⟨fun h => ?_, fun _ h => ?_, fun _ h => ?_⟩
    · rw [Json.value] at h
      cases h
    · rw [Json.elements] at h
      cases h
    · rw [Json.members] at h
      cases h
  | succ fuel ih => exact ⟨ih.value_succ, ih.elements_succ, ih.members_succ⟩

/-- **The range of the reader.** What is read is in the range of the limits. -/
theorem isInRange_of_read (h : Json.read limits t = .ok v) : IsInRange limits.digits v := by
  unfold Json.read at h
  split at h
  · cases h
  · next w rest hvalue =>
    split at h
    · cases h
      exact (staysInRange _).value hvalue
    · cases h

end Json

/-! ### Checked whole numbers -/

namespace Numeral

open Text

variable {i : Int} {t : Text}

theorem natAbs_of_ofDigits {negative : Bool} (h : ofDigits negative t = .number i) :
    i.natAbs < 10 ^ maxLength := by
  have hlt : digitsValue (t.takeWhile Text.isDigit) < 10 ^ (t.takeWhile Text.isDigit).length :=
    Json.digitsValue_lt fun c hc => List.mem_takeWhile_imp hc
  unfold ofDigits at h
  dsimp only at h
  split at h
  · cases h
  · split at h
    · split at h
      · cases h
        exact Nat.pow_pos (by decide)
      · cases h
    · split at h
      · cases h
      · next hlength =>
        have hle := Nat.pow_le_pow_right (show 0 < 10 by decide)
          (show (t.takeWhile Text.isDigit).length ≤ maxLength by omega)
        split at h
        · cases h
        · cases h
          split <;> omega

theorem natAbs_of_plain (h : plain t = .number i) : i.natAbs < 10 ^ maxLength := by
  unfold plain at h
  split at h
  · exact natAbs_of_ofDigits h
  · exact natAbs_of_ofDigits h

theorem natAbs_of_read (h : read t = .number i) : i.natAbs < 10 ^ maxLength := by
  unfold read at h
  split at h
  · cases hclean : clean? t with
    | none =>
      rw [hclean] at h
      cases h
    | some u =>
      rw [hclean] at h
      exact natAbs_of_plain h
  · exact natAbs_of_plain h

end Numeral

namespace Json

variable {digits : Nat} {i : Int} {v : Json}

/-- What is checked to be a whole number has so many digits as are read. -/
theorem natAbs_of_asInt (hdigits : Numeral.maxLength ≤ digits) (hv : IsInRange digits v)
    (h : asInt v = .ok i) : i.natAbs < 10 ^ digits := by
  have hpow : 10 ^ Numeral.maxLength ≤ 10 ^ digits :=
    Nat.pow_le_pow_right (by decide) hdigits
  cases v with
  | int n =>
    cases h
    cases hv with
    | int hn => exact hn
  | bool b =>
    cases h
    have hone : 1 < 10 ^ Numeral.maxLength := Nat.one_lt_pow (by decide) (by decide)
    have hle : (if b then 1 else 0 : Int).natAbs ≤ 1 := by cases b <;> decide
    omega
  | decimal d =>
    have hbound : decimalBound < 10 ^ Numeral.maxLength :=
      (show decimalBound < 10 ^ 19 by decide).trans_le
        (Nat.pow_le_pow_right (by decide) (by decide))
    unfold asInt at h
    dsimp only at h
    split at h
    · cases h
    · split at h
      · cases h
      · split at h
        · cases h
          split <;> omega
        · cases h
  | text t =>
    have hread : Numeral.read t = .number i := by
      unfold asInt at h
      dsimp only at h
      split at h
      · cases h
        assumption
      · cases h
      · cases h
    exact (Numeral.natAbs_of_read hread).trans_le hpow
  | null | brokenText _ | array _ | object _ => cases h

end Json
end ShellConfig

import ShellConfig.Shell.Quote

/-!
# Reading quoted texts

How the shell reads texts between quotes, and that it reads what was quoted. `readWord` reads a word
made of quoted pieces, `readEscaped` reads what stands between double quotes. Main statements:
`readWord_quote_append`, that a quoted text is read as that text wherever it stands;
`readEscaped_quoteDouble_append`, the same between double quotes; and `quote_readBack`.
-/

namespace ShellConfig.Shell

/-! ### Readers -/

/-- Where a reader stands: outside of quotes, or between quotes of one kind. -/
inductive Quoting
  | outside
  | single
  | double
  deriving DecidableEq, Repr

/-- A character that does not stand for itself between double quotes. -/
def isActive (c : Char) : Bool := c ∈ ['\\', '$', Char.ofNat 96]

/-- The word that some quoted pieces make which follow each other, and the text behind them. Between
single quotes every character stands for itself, and between double quotes every one that is not
active. Quotes that are not closed make no word. -/
def readWord : Quoting → Text → Option (Text × Text)
  | .outside, [] => some ([], [])
  | .outside, c :: t =>
    if c = singleQuote then readWord .single t
    else if c = '"' then readWord .double t
    else some ([], c :: t)
  | .single, [] => none
  | .single, c :: t =>
    if c = singleQuote then readWord .outside t
    else (readWord .single t).map fun p => (c :: p.1, p.2)
  | .double, [] => none
  | .double, c :: t =>
    if c = '"' then readWord .outside t
    else if isActive c then none
    else (readWord .double t).map fun p => (c :: p.1, p.2)

/-- A character that means something between double quotes unless a backslash stands before it: it
ends the quotes, or what follows is replaced. -/
def breaksOut (c : Char) : Bool := c ∈ ['"', '$', Char.ofNat 96, '!']

/-- The text that is read between double quotes, where a backslash takes its meaning from the
character behind it. There is none if a character breaks out, or if the last backslash has nothing
behind it. -/
def readEscaped : Text → Option Text
  | [] => some []
  | ['\\'] => none
  | '\\' :: c :: t => (readEscaped t).map (c :: ·)
  | c :: t => if breaksOut c then none else (readEscaped t).map (c :: ·)

/-! ### Single quotes -/

theorem quoteSingle_cons (c : Char) (v : Text) :
    quoteSingle (c :: v) = (if c = singleQuote then embeddedQuote else [c]) ++ quoteSingle v := rfl

/-- A single quote that was embedded is read as one, and the reader is between single quotes again.
-/
theorem readWord_embeddedQuote (t : Text) :
    readWord .single (embeddedQuote ++ t) =
      (readWord .single t).map fun p => (singleQuote :: p.1, p.2) := by
  have hquote : '"' ≠ singleQuote := by decide
  have hactive : isActive singleQuote = false := by decide
  simp [embeddedQuote, readWord, hquote, hquote.symm, hactive]

/-- Between single quotes, what was made for there is read as the text it was made from. -/
theorem readWord_quoteSingle_append (v t : Text) :
    readWord .single (quoteSingle v ++ t) =
      (readWord .single t).map fun p => (v ++ p.1, p.2) := by
  induction v with
  | nil => simp [quoteSingle, Text.replace]
  | cons c v ih =>
    rw [quoteSingle_cons, List.append_assoc]
    by_cases hc : c = singleQuote
    · rw [if_pos hc, readWord_embeddedQuote, ih, Option.map_map, hc]
      rfl
    · rw [if_neg hc, List.singleton_append, readWord, if_neg hc, ih, Option.map_map]
      rfl

/-- A quoted text is a piece of a word: it is read as the text, and reading goes on behind it. -/
theorem readWord_quote_append (v t : Text) :
    readWord .outside (quote v ++ t) =
      (readWord .outside t).map fun p => (v ++ p.1, p.2) := by
  rw [quote, List.cons_append, List.append_assoc, readWord, if_pos rfl,
    readWord_quoteSingle_append, List.singleton_append, readWord, if_pos rfl]

/-! ### Double quotes -/

theorem quoteDouble_cons (c : Char) (v : Text) :
    quoteDouble (c :: v) = (if isSpecial c then ['\\', c] else [c]) ++ quoteDouble v := rfl

theorem readEscaped_cons {c : Char} (hc : isSpecial c = false) (t : Text) :
    readEscaped (c :: t) = (readEscaped t).map (c :: ·) := by
  have hslash : c ≠ '\\' := by
    rintro rfl
    cases hc
  have hbreaks : breaksOut c = false := by
    simp only [isSpecial, List.mem_cons, decide_eq_false_iff_not, not_or] at hc
    simp [breaksOut, hc]
  rw [readEscaped]
  · rw [hbreaks]
    rfl
  · exact fun h => absurd h hslash
  · exact fun d r h => absurd h hslash

/-- Between double quotes, what was made for there is read as the text it was made from. -/
theorem readEscaped_quoteDouble_append (v t : Text) :
    readEscaped (quoteDouble v ++ t) = (readEscaped t).map (v ++ ·) := by
  induction v with
  | nil => simp [quoteDouble]
  | cons c v ih =>
    rw [quoteDouble_cons, List.append_assoc]
    cases hc : isSpecial c with
    | true =>
      rw [if_pos rfl, List.cons_append, List.singleton_append, readEscaped, ih, Option.map_map]
      rfl
    | false =>
      rw [if_neg (by simp), List.singleton_append, readEscaped_cons hc, ih, Option.map_map]
      rfl

/-! ### Reading back -/

/-- **Reading back.** A quoted text is one word of the shell, which ends with it and is the text;
and what is made for double quotes holds nothing that breaks out of them and is read as the text.
So no two texts are quoted alike. -/
theorem quote_readBack :
    (∀ v, readWord .outside (quote v) = some (v, [])) ∧
      (∀ v, readEscaped (quoteDouble v) = some v) ∧
      Function.Injective quote ∧ Function.Injective quoteDouble := by
  have hword : ∀ v, readWord .outside (quote v) = some (v, []) := by
    intro v
    have h := readWord_quote_append v []
    rw [List.append_nil] at h
    simpa [readWord] using h
  have hescaped : ∀ v, readEscaped (quoteDouble v) = some v := by
    intro v
    have h := readEscaped_quoteDouble_append v []
    rw [List.append_nil] at h
    simpa [readEscaped] using h
  refine ⟨hword, hescaped, fun v w h => ?_, fun v w h => ?_⟩
  · have hread := hword v
    rw [h, hword w] at hread
    simpa using hread.symm
  · have hread := hescaped v
    rw [h, hescaped w] at hread
    simpa using hread.symm

example : readWord .outside (quote "it's".toList ++ " x".toList) =
    some ("it's".toList, " x".toList) := by decide

end ShellConfig.Shell

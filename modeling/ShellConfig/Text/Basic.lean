/-!
# Text

A text is a list of characters, so that its length counts characters and every rule about it is a
recursion on the list. Main statements: `after?_eq_some_iff`, that `after?` takes exactly the texts
that begin with a word, and `join_splitOn`, that cutting a text loses nothing.
-/

namespace ShellConfig

/-- A sequence of characters. -/
abbrev Text := List Char

namespace Text

/-! ### Words at the front -/

/-- What is left of a text behind the word it begins with. -/
def after? : Text → Text → Option Text
  | [], t => some t
  | _ :: _, [] => none
  | p :: ps, c :: cs => if p = c then after? ps cs else none

theorem after?_eq_some_iff {p t r : Text} : after? p t = some r ↔ t = p ++ r := by
  induction p generalizing t with
  | nil => simp [after?]
  | cons x p ih =>
    cases t with
    | nil => simp [after?]
    | cons c t =>
      by_cases h : x = c
      · simp [after?, h, ih]
      · simp [after?, h, Ne.symm h]

@[simp] theorem after?_append (p r : Text) : after? p (p ++ r) = some r :=
  after?_eq_some_iff.2 rfl

/-- What is left behind a word whose letters are compared by `same`. -/
def afterBy? (same : Char → Char → Bool) : Text → Text → Option Text
  | [], t => some t
  | _ :: _, [] => none
  | p :: ps, c :: cs => if same p c then afterBy? same ps cs else none

/-- What remains of a text in front of the word it ends with. -/
def before? (p t : Text) : Option Text := (after? p.reverse t.reverse).map List.reverse

theorem before?_eq_some_iff {p t r : Text} : before? p t = some r ↔ t = r ++ p := by
  simp only [before?, Option.map_eq_some_iff, after?_eq_some_iff]
  constructor
  · rintro ⟨u, h, rfl⟩
    have := congrArg List.reverse h
    simpa using this
  · rintro rfl
    exact ⟨r.reverse, by simp, by simp⟩

/-! ### Cutting and joining -/

/-- Puts a character in front of the first of some pieces. -/
def consHead (c : Char) : List Text → List Text
  | [] => [[c]]
  | l :: ls => (c :: l) :: ls

/-- The pieces between the characters that satisfy `p`; there is always one more than these. -/
def splitBy (p : Char → Bool) (t : Text) : List Text :=
  t.foldr (fun c ls => if p c then [] :: ls else consHead c ls) [[]]

@[simp] theorem splitBy_nil (p : Char → Bool) : splitBy p [] = [[]] := rfl

@[simp] theorem splitBy_cons (p : Char → Bool) (c : Char) (t : Text) :
    splitBy p (c :: t) = if p c then [] :: splitBy p t else consHead c (splitBy p t) := rfl

theorem splitBy_ne_nil (p : Char → Bool) (t : Text) : splitBy p t ≠ [] := by
  cases t with
  | nil => simp
  | cons c t =>
    rw [splitBy_cons]
    split
    · simp
    · cases splitBy p t <;> simp [consHead]

theorem splitBy_of_forall {p : Char → Bool} {t : Text} (h : ∀ c ∈ t, p c = false) :
    splitBy p t = [t] := by
  induction t with
  | nil => rfl
  | cons c t ih =>
    rw [List.forall_mem_cons] at h
    rw [splitBy_cons, h.1, ih h.2]
    rfl

theorem splitBy_append_cons {p : Char → Bool} {c : Char} (hc : p c = true) (s t : Text) :
    splitBy p (s ++ c :: t) = splitBy p s ++ splitBy p t := by
  induction s with
  | nil => simp [hc]
  | cons d s ih =>
    rw [List.cons_append, splitBy_cons, splitBy_cons, ih]
    split
    · rfl
    · match hs : splitBy p s, splitBy_ne_nil p s with
      | _ :: _, _ => rfl

/-- The pieces between the occurrences of one character. -/
def splitOn (sep : Char) (t : Text) : List Text := splitBy (· == sep) t

/-- Some texts with a separator between neighbours. -/
def join (sep : Text) : List Text → Text
  | [] => []
  | [t] => t
  | t :: u :: r => t ++ (sep ++ join sep (u :: r))

theorem join_consHead (sep : Text) (c : Char) {ls : List Text} (h : ls ≠ []) :
    join sep (consHead c ls) = c :: join sep ls := by
  match ls, h with
  | [_], _ => rfl
  | _ :: _ :: _, _ => rfl

theorem join_nil_cons (sep : Text) {ls : List Text} (h : ls ≠ []) :
    join sep ([] :: ls) = sep ++ join sep ls := by
  match ls, h with
  | _ :: _, _ => rfl

/-- Joining the pieces of a text with what they were cut at gives the text back. -/
theorem join_splitOn (sep : Char) (t : Text) : join [sep] (splitOn sep t) = t := by
  induction t with
  | nil => rfl
  | cons c t ih =>
    have hne := splitBy_ne_nil (· == sep) t
    rw [splitOn] at ih ⊢
    rw [splitBy_cons]
    by_cases h : c = sep
    · subst h
      simp [join_nil_cons, hne, ih]
    · simp [h, join_consHead, hne, ih]

/-- Every occurrence of `c` replaced by a text. -/
def replace (c : Char) (new t : Text) : Text :=
  t.flatMap fun d => if d = c then new else [d]

def isInfixOf (p : Text) : Text → Bool
  | [] => p.isEmpty
  | c :: t => p.isPrefixOf (c :: t) || isInfixOf p t

end Text
end ShellConfig

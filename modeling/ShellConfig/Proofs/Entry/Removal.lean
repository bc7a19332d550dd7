import ShellConfig.Proofs.Entry.State

/-!
# Deleting entries

A deletion takes the first line that declares an entry out of a text. Main statements:
`deletes_of_delete`, which line that is; `declarations_of_deletes` and `remaining_of_deletes`, what
each deletion leaves; and `delete_until_none`, that an entry can be deleted as often as lines
declare it, and that all other lines are left then.
-/

namespace ShellConfig

namespace Edit

open Text

variable {as bs : List Text} {key l t : Text} {kind : Kind} {limit : Int} {r : EditResult}

instance : DecidablePred (IsDeclared kind key limit) := fun _ =>
  decidable_of_iff _ isDeclaration_eq_true_iff

theorem not_isDeclared_nil : ¬IsDeclared kind key limit [] := by
  rintro ⟨-, h | h⟩
  · exact h.ne_nil rfl
  · exact h.ne_nil rfl

theorem isDeclaration_eq_false_iff :
    isDeclaration kind key limit l = false ↔ ¬IsDeclared kind key limit l := by
  rw [← isDeclaration_eq_true_iff, Bool.not_eq_true]

/-! ### One deletion -/

/-- A line was deleted: of the lines between line feeds, `l` is the first that declares the entry,
and the result is the text of the others, with the number of the line. -/
structure Deletes (t : Text) (kind : Kind) (key : Text) (limit : Int) (r : EditResult)
    (as : List Text) (l : Text) (bs : List Text) : Prop where
  before : splitOn '\n' t = as ++ l :: bs
  first : ∀ a ∈ as, ¬IsDeclared kind key limit a
  declared : IsDeclared kind key limit l
  result : r =
    { content := join ['\n'] (as ++ bs)
      message := about kind key "deleted".toList
      lineNumber := as.length + 1
      enabled := false }

theorem delete_of_locate (h : locate t kind key limit = .ok (as ++ l :: bs, as.length)) :
    delete t kind key limit = .ok
      { content := join ['\n'] (as ++ bs)
        message := about kind key "deleted".toList
        lineNumber := as.length + 1
        enabled := false } := by
  have herase : (as ++ l :: bs).eraseIdx as.length = as ++ bs := by
    simp [List.eraseIdx_append_of_length_le]
  unfold delete
  rw [h]
  simp only [bind, Except.bind, herase]
  rfl

/-- A deletion acts on the first line that declares the entry. -/
theorem deletes_of_delete (h : delete t kind key limit = .ok r) :
    ∃ as l bs, Deletes t kind key limit r as l bs := by
  cases hlocate : locate t kind key limit with
  | error e =>
    unfold delete at h
    rw [hlocate] at h
    cases h
  | ok x =>
    obtain ⟨ls, i⟩ := x
    obtain ⟨as, l, bs, rfl, rfl, hsplit, hdecl, hfirst⟩ := exists_of_locate hlocate
    rw [delete_of_locate hlocate, Except.ok.injEq] at h
    refine ⟨as, l, bs, hsplit, ?_, isDeclaration_eq_true_iff.1 hdecl, h.symm⟩
    intro a ha
    exact isDeclaration_eq_false_iff.1 (hfirst a ha)

theorem delete_of_deletes (hkind : isEditable kind = true) (hkey : allBlank key = false)
    (h : Deletes t kind key limit r as l bs) : delete t kind key limit = .ok r := by
  have has : ∀ a ∈ as, isDeclaration kind key limit a = false := by
    intro a ha
    exact isDeclaration_eq_false_iff.2 (h.first a ha)
  have hfind := findIdx?_append_cons has l bs
  rw [if_pos (isDeclaration_eq_true_iff.2 h.declared)] at hfind
  rw [h.result, delete_of_locate (locate_eq_ok_iff.2 ⟨hkind, hkey, h.before, hfind⟩)]

theorem exists_deletes (hl : l ∈ splitOn '\n' t) (h : IsDeclared kind key limit l) :
    ∃ r as l bs, Deletes t kind key limit r as l bs := by
  cases hfind : (splitOn '\n' t).findIdx? (isDeclaration kind key limit) with
  | none =>
    have hnot := List.findIdx?_eq_none_iff.1 hfind l hl
    exact absurd h (isDeclaration_eq_false_iff.1 hnot)
  | some i =>
    obtain ⟨as, l, bs, hsplit, -, hdecl, hfirst⟩ := exists_of_findIdx? hfind
    refine ⟨_, as, l, bs, hsplit, ?_, isDeclaration_eq_true_iff.1 hdecl, rfl⟩
    intro a ha
    exact isDeclaration_eq_false_iff.1 (hfirst a ha)

/-- An entry that no line declares is not found. -/
theorem delete_eq_notFound (hkind : isEditable kind = true) (hkey : allBlank key = false)
    (h : ∀ l ∈ splitOn '\n' t, ¬IsDeclared kind key limit l) :
    delete t kind key limit = .error (.notFound kind key) := by
  have hnone : (splitOn '\n' t).findIdx? (isDeclaration kind key limit) = none := by
    rw [List.findIdx?_eq_none_iff]
    intro l hl
    exact isDeclaration_eq_false_iff.2 (h l hl)
  have hlocate : locate t kind key limit = .error (.notFound kind key) := by
    simp [locate, hkind, hkey, hnone]
  unfold delete
  rw [hlocate]
  rfl

/-! ### What is left -/

/-- How many of the lines between line feeds declare an entry. -/
def declarations (kind : Kind) (key : Text) (limit : Int) (t : Text) : Nat :=
  (splitOn '\n' t).countP (IsDeclared kind key limit ·)

/-- The lines between line feeds that do not declare an entry, joined again. -/
def remaining (kind : Kind) (key : Text) (limit : Int) (t : Text) : Text :=
  join ['\n'] ((splitOn '\n' t).filter (¬IsDeclared kind key limit ·))

theorem Deletes.splitOn_content (h : Deletes t kind key limit r as l bs) :
    splitOn '\n' r.content = if as ++ bs = [] then [[]] else as ++ bs := by
  have hfeed := forall_not_mem_of_splitOn h.before
  rw [List.forall_mem_append, List.forall_mem_cons] at hfeed
  rw [h.result]
  exact splitOn_join_eq (List.forall_mem_append.2 ⟨hfeed.1, hfeed.2.2⟩)

/-- A deletion takes away one of the lines that declare the entry. -/
theorem declarations_of_deletes (h : Deletes t kind key limit r as l bs) :
    declarations kind key limit t = declarations kind key limit r.content + 1 := by
  have hcontent : declarations kind key limit r.content =
      (as ++ bs).countP (IsDeclared kind key limit ·) := by
    unfold declarations
    rw [h.splitOn_content]
    split
    · next hnil => simp [hnil, not_isDeclared_nil]
    · rfl
  rw [hcontent, declarations, h.before]
  simp only [List.countP_append, List.countP_cons, h.declared, decide_true, if_true]
  omega

/-- It takes away none of the others. -/
theorem remaining_of_deletes (h : Deletes t kind key limit r as l bs) :
    remaining kind key limit r.content = remaining kind key limit t := by
  unfold remaining
  rw [h.splitOn_content, h.before]
  have hline : (as ++ l :: bs).filter (¬IsDeclared kind key limit ·) =
      (as ++ bs).filter (¬IsDeclared kind key limit ·) := by
    simp [List.filter_append, h.declared]
  rw [hline]
  split
  · next hnil => simp [hnil, not_isDeclared_nil, join]
  · rfl

theorem remaining_eq_self (h : ∀ l ∈ splitOn '\n' t, ¬IsDeclared kind key limit l) :
    remaining kind key limit t = t := by
  unfold remaining
  rw [List.filter_eq_self.2 fun l hl => by simpa using h l hl, join_splitOn]

/-! ### One deletion after the other -/

/-- Deletions of the same entry that succeed one after the other, each on the text that the one
before has left, with their results and the text in the end. -/
inductive Deletions (kind : Kind) (key : Text) (limit : Int) :
    Text → List EditResult → Text → Prop
  | none (t : Text) : Deletions kind key limit t [] t
  | first {t u : Text} {r : EditResult} {rs : List EditResult} {as bs : List Text} {l : Text}
      (hr : delete t kind key limit = .ok r) (hline : Deletes t kind key limit r as l bs)
      (hrest : Deletions kind key limit r.content rs u) : Deletions kind key limit t (r :: rs) u

/-- **Deleting an entry until there is none.** An entry can be deleted as often as lines between
line feeds declare it. Each time the first of them is taken away and its number told. In the end the
other lines are left as they were, and the entry is not found. -/
theorem delete_until_none (hkind : isEditable kind = true) (hkey : allBlank key = false) (t : Text)
    (limit : Int) :
    ∃ rs, Deletions kind key limit t rs
        (join ['\n'] ((splitOn '\n' t).filter (¬IsDeclared kind key limit ·))) ∧
      rs.length = (splitOn '\n' t).countP (IsDeclared kind key limit ·) ∧
      delete (join ['\n'] ((splitOn '\n' t).filter (¬IsDeclared kind key limit ·))) kind key
        limit = .error (.notFound kind key) := by
  change ∃ rs, Deletions kind key limit t rs (remaining kind key limit t) ∧
    rs.length = declarations kind key limit t ∧
    delete (remaining kind key limit t) kind key limit = .error (.notFound kind key)
  induction hn : declarations kind key limit t generalizing t with
  | zero =>
    have hnone : ∀ l ∈ splitOn '\n' t, ¬IsDeclared kind key limit l := by
      simpa [declarations, List.countP_eq_zero] using hn
    rw [remaining_eq_self hnone]
    exact ⟨[], .none t, rfl, delete_eq_notFound hkind hkey hnone⟩
  | succ n ih =>
    obtain ⟨l, hl, hdeclared⟩ : ∃ l ∈ splitOn '\n' t, IsDeclared kind key limit l := by
      have hpos : 0 < declarations kind key limit t := by omega
      simpa [declarations, List.countP_pos_iff] using hpos
    obtain ⟨r, as, l, bs, hline⟩ := exists_deletes hl hdeclared
    have hr := delete_of_deletes hkind hkey hline
    have hleft : declarations kind key limit r.content = n := by
      have := declarations_of_deletes hline
      omega
    obtain ⟨rs, hrest, hlength, hnone⟩ := ih r.content hleft
    rw [remaining_of_deletes hline] at hrest hnone
    exact ⟨r :: rs, .first hr hline hrest, by rw [List.length_cons, hlength], hnone⟩

/-- A text that declares an alias three times, once commented out and once on a line that is too
long to be looked at, with carriage returns at the ends of some lines and in between. -/
def scatteredText : Text :=
  "alias a=1\r\n\r#\talias -g a=2\ncd\ralias a=3\r\n  alias a=4444444".toList

theorem delete_until_none_scattered :
    ∃ rs, Deletions .aliased ['a'] 16 scatteredText rs
        "cd\ralias a=3\r\n  alias a=4444444".toList ∧
      rs.length = 2 ∧
      delete "cd\ralias a=3\r\n  alias a=4444444".toList .aliased ['a'] 16 =
        .error (.notFound .aliased ['a']) := by
  have hcount : (splitOn '\n' scatteredText).countP (IsDeclared .aliased ['a'] 16 ·) = 2 := by
    decide
  have hrest :
      join ['\n'] ((splitOn '\n' scatteredText).filter (¬IsDeclared .aliased ['a'] 16 ·)) =
        "cd\ralias a=3\r\n  alias a=4444444".toList := by decide
  have hkind : isEditable .aliased = true := rfl
  have hkey : allBlank ['a'] = false := rfl
  obtain ⟨rs, hrs, hlength, hnone⟩ := delete_until_none hkind hkey scatteredText 16
  rw [hcount] at hlength
  rw [hrest] at hrs hnone
  exact ⟨rs, hrs, hlength, hnone⟩

end Edit
end ShellConfig

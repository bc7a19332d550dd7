import ShellConfig.Proofs.Entry.Written
import ShellConfig.Proofs.Text.Lines

/-!
# Entries that are listed can be edited

Lines are cut differently for reading and for editing, and a carriage return counts only for the
latter. Main statements: `exists_piece_of_mem`, on which piece of a text an entry is written;
`locate_of_declaration`, which line an edit finds; and `edits_of_listed`, that the entries which are
listed can be edited.
-/

namespace ShellConfig.Edit

open Text

variable {e : Entry} {error : EditError} {i : Nat} {key t p : Text} {kind : Kind} {limit : Int}
  {ls : List Text}

/-! ### Edits of an entry -/

/-- All edits of an entry succeed, and act on line `n`. -/
structure ActsOn (t : Text) (kind : Kind) (key : Text) (limit : Int) (n : Nat) : Prop where
  toggle : ∃ r, toggle t kind key limit = .ok r ∧ r.lineNumber = n
  setEnabled : ∀ enabled, ∃ r, setEnabled t kind key enabled limit = .ok r ∧ r.lineNumber = n
  delete : ∃ r, delete t kind key limit = .ok r ∧ r.lineNumber = n

/-- All edits of an entry are refused, for the same reason. -/
structure Refuses (t : Text) (kind : Kind) (key : Text) (limit : Int) (error : EditError) :
    Prop where
  toggle : toggle t kind key limit = .error error
  setEnabled : ∀ enabled, setEnabled t kind key enabled limit = .error error
  delete : delete t kind key limit = .error error

theorem actsOn_of_locate (h : locate t kind key limit = .ok (ls, i)) :
    ActsOn t kind key limit (i + 1) := by
  have htoggle : ∃ r, Edit.toggle t kind key limit = .ok r ∧ r.lineNumber = i + 1 := by
    unfold Edit.toggle
    rw [h]
    exact ⟨_, rfl, rfl⟩
  refine ⟨htoggle, fun enabled => ?_, ?_⟩
  · unfold Edit.setEnabled
    rw [h]
    simp only [bind, Except.bind]
    split
    · exact htoggle
    · exact ⟨_, rfl, rfl⟩
  · unfold Edit.delete
    rw [h]
    exact ⟨_, rfl, rfl⟩

theorem refuses_of_locate (h : locate t kind key limit = .error error) :
    Refuses t kind key limit error := by
  refine ⟨?_, fun enabled => ?_, ?_⟩
  · unfold Edit.toggle
    rw [h]
    rfl
  · unfold Edit.setEnabled
    rw [h]
    rfl
  · unfold Edit.delete
    rw [h]
    rfl

theorem locate_of_allBlank (hkind : isEditable kind = true) (hkey : allBlank key = true) :
    locate t kind key limit = .error .emptyKey := by
  unfold locate
  rw [hkind, hkey]
  rfl

/-- An edit finds an entry that is declared, and no later than where it is. -/
theorem locate_of_declaration (hkind : isEditable kind = true) (hkey : allBlank key = false)
    (hp : (splitOn '\n' t)[i]? = some p) (hdecl : isDeclaration kind key limit p = true) :
    ∃ j, j ≤ i ∧ locate t kind key limit = .ok (splitOn '\n' t, j) := by
  obtain ⟨hi, hget⟩ := List.getElem?_eq_some_iff.1 hp
  unfold locate
  rw [hkind, hkey]
  simp only [Bool.not_true, Bool.false_eq_true, if_false]
  cases hfind : (splitOn '\n' t).findIdx? (isDeclaration kind key limit) with
  | none =>
    have hnone := List.findIdx?_eq_none_iff.1 hfind p (List.mem_of_getElem? hp)
    rw [hdecl] at hnone
    cases hnone
  | some j =>
    obtain ⟨hj, -, hfirst⟩ := List.findIdx?_eq_some_iff_getElem.1 hfind
    refine ⟨j, ?_, rfl⟩
    apply Nat.le_of_not_lt
    intro hlt
    apply hfirst i hlt
    rw [hget, hdecl]

/-! ### Entries that are listed -/

/-- The piece between line feeds that a line number stands for. It keeps its carriage return. -/
def pieceAt (t : Text) (n : Int) : Text := (splitOn '\n' t)[n.toNat - 1]?.getD []

/-- An entry that is listed is written on its piece of the text. -/
theorem exists_piece_of_mem (hkind : isEditable kind = true) (he : e ∈ Entry.ofKind kind t limit) :
    ∃ i : Nat, e.lineNumber = i + 1 ∧ (splitOn '\n' t)[i]? = some (pieceAt t e.lineNumber) ∧
      ∃ key, e.payload.editKey? kind = some key ∧
        (allBlank key = false → IsWritten key kind (pieceAt t e.lineNumber)) := by
  obtain ⟨l, hl, k, hk, inside, hread⟩ := Entry.exists_onLine_of_mem he
  obtain rfl := List.mem_singleton.1 hk
  obtain ⟨p, hp, rfl⟩ := List.mem_map.1 hread
  have hplugin : k ≠ .plugin := by
    rintro rfl
    cases hkind
  rw [Entry.payloadsOn_of_ne hplugin] at hp
  have hbounds := Line.number_of_mem_short (Line.safe_eq limit t ▸ hl)
  have hline := Line.getElem?_of_mem ((Line.short_sublist limit 1 t.lines).subset hl)
  obtain ⟨q, hq, hreturn⟩ := exists_piece_of_lines hline
  have hpiece : pieceAt t l.number = q := by
    unfold pieceAt
    rw [Int.toNat_natCast, hq, Option.getD_some]
  refine ⟨l.number - 1, by dsimp only; omega, by rw [hpiece, hq], ?_⟩
  obtain ⟨key, hkey, hwritten⟩ := Recognize.isWritten_of_mem_payloads hkind hp
  refine ⟨key, hkey, fun hblank => ?_⟩
  rw [hpiece]
  rcases hreturn with rfl | rfl
  · exact hwritten hblank
  · exact (hwritten hblank).append_blanks (by decide)

theorem isDeclaration_of_isWritten (h : IsWritten key kind p) (hlength : (p.length : Int) ≤ limit) :
    isDeclaration kind key limit p = true := by
  have hne : p.isEmpty = false := by simpa using h.ne_nil
  unfold isDeclaration
  rw [hne, h.declares, decide_eq_true hlength]
  rfl

/-- **Listed entries can be edited.** The edits of an entry that is listed, under its own key and
with the same limit, succeed and act on its line or one before it, if the line is short enough
together with its carriage return. Only under a key of blanks, which is an option or a path that a
command does not really have, they are refused. -/
theorem edits_of_listed (hkind : isEditable kind = true) (he : e ∈ Entry.ofKind kind t limit) :
    ∃ key, e.payload.editKey? kind = some key ∧
      (allBlank key = true → Refuses t kind key limit .emptyKey) ∧
      (allBlank key = false → ((pieceAt t e.lineNumber).length : Int) ≤ limit →
        ∃ n : Nat, (n : Int) ≤ e.lineNumber ∧ ActsOn t kind key limit n) := by
  obtain ⟨i, hnumber, hpiece, key, hkey, hwritten⟩ := exists_piece_of_mem hkind he
  refine ⟨key, hkey, ?_, ?_⟩
  · intro hblank
    exact refuses_of_locate (locate_of_allBlank hkind hblank)
  · intro hblank hlength
    have hdecl := isDeclaration_of_isWritten (hwritten hblank) hlength
    obtain ⟨j, hj, hlocate⟩ := locate_of_declaration hkind hblank hpiece hdecl
    exact ⟨j + 1, by omega, actsOn_of_locate hlocate⟩

/-- A text that declares an alias twice, first commented out, with both line endings. -/
def twiceText : Text := "export A=1\r\n# alias g=hg\nalias -g g=git \r\n".toList

def secondAlias : Entry :=
  { kind := .aliased, lineNumber := 3, lineText := "alias -g g=git ".toList
    payload := { name := some ['g'], command := some "git".toList } }

theorem edits_of_listed_second :
    isEditable .aliased = true ∧ secondAlias ∈ Entry.ofKind .aliased twiceText 1000 ∧
      secondAlias.payload.editKey? .aliased = some ['g'] ∧
      ∃ n : Nat, (n : Int) ≤ 3 ∧ ActsOn twiceText .aliased ['g'] 1000 n := by
  have hlisted : secondAlias ∈ Entry.ofKind .aliased twiceText 1000 := by decide
  obtain ⟨key, hkey, -, hacts⟩ := edits_of_listed rfl hlisted
  obtain rfl := Option.some.inj hkey
  exact ⟨rfl, hlisted, rfl, hacts rfl (by decide)⟩

/-- An option of blanks is listed and refused, and an alias whose line is as long as the limit is
listed but not found if a carriage return stands behind it. -/
theorem listed_not_edited :
    (∃ e ∈ Entry.ofKind .setopt "setopt  ".toList 1000, e.payload.editKey? .setopt = some [' '] ∧
      toggle "setopt  ".toList .setopt [' '] 1000 = .error .emptyKey) ∧
    ∃ e ∈ Entry.ofKind .aliased "alias a=1\r\n".toList 9,
      e.payload.editKey? .aliased = some ['a'] ∧
        toggle "alias a=1\r\n".toList .aliased ['a'] 9 =
          .error (.notFound .aliased ['a']) :=
  ⟨⟨{ kind := .setopt, lineNumber := 1, lineText := "setopt  ".toList
      payload := { option := some [' '] } }, by decide, rfl, rfl⟩,
    { kind := .aliased, lineNumber := 1, lineText := "alias a=1".toList
      payload := { name := some ['a'], command := some ['1'] } }, by decide, rfl, rfl⟩

end ShellConfig.Edit

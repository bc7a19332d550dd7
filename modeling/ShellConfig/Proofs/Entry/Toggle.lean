import ShellConfig.Proofs.Section.Label

/-!
# Switching entries

What is read of a text before and after an entry is switched. Main statements: `toggle_eq_ok`, that
a switch changes one of the pieces between line feeds; `exists_lines_of_toggle`, what that means for
the lines; and `toggle_entries`, what it means for the entries.
-/

namespace ShellConfig.Edit

open Text

variable {t key l : Text} {kind : Kind} {limit : Int} {r : EditResult} {ls as bs : List Text}
  {i : Nat}

/-! ### One piece is changed -/

theorem locate_eq_ok_iff :
    locate t kind key limit = .ok (ls, i) ↔
      isEditable kind = true ∧ allBlank key = false ∧ splitOn '\n' t = ls ∧
        ls.findIdx? (isDeclaration kind key limit) = some i := by
  unfold locate
  cases hkind : isEditable kind with
  | false => simp
  | true =>
    cases hkey : allBlank key with
    | true => simp
    | false =>
      simp only [Bool.not_true, Bool.false_eq_true, if_false, true_and]
      constructor
      · intro h
        split at h
        · cases h
        · next hfind =>
          rw [Except.ok.injEq, Prod.mk.injEq] at h
          obtain ⟨rfl, rfl⟩ := h
          exact ⟨rfl, hfind⟩
      · rintro ⟨rfl, hfind⟩
        rw [hfind]

theorem exists_of_findIdx? {p : Text → Bool} (h : ls.findIdx? p = some i) :
    ∃ as l bs, ls = as ++ l :: bs ∧ as.length = i ∧ p l = true ∧ ∀ a ∈ as, p a = false := by
  obtain ⟨hi, hl, hfirst⟩ := List.findIdx?_eq_some_iff_getElem.1 h
  refine ⟨ls.take i, ls[i], ls.drop (i + 1), ?_, ?_, hl, ?_⟩
  · rw [List.getElem_cons_drop, List.take_append_drop]
  · rw [List.length_take, Nat.min_eq_left (Nat.le_of_lt hi)]
  · intro a ha
    obtain ⟨j, hj, rfl⟩ := List.mem_take_iff_getElem.1 ha
    simpa using hfirst j (Nat.lt_of_lt_of_le hj (Nat.min_le_left _ _))

theorem exists_of_locate (h : locate t kind key limit = .ok (ls, i)) :
    ∃ as l bs, ls = as ++ l :: bs ∧ as.length = i ∧ splitOn '\n' t = as ++ l :: bs ∧
      isDeclaration kind key limit l = true ∧
      ∀ a ∈ as, isDeclaration kind key limit a = false := by
  obtain ⟨-, -, rfl, hfind⟩ := locate_eq_ok_iff.1 h
  obtain ⟨as, l, bs, hsplit, hi, hdecl, hfirst⟩ := exists_of_findIdx? hfind
  exact ⟨as, l, bs, hsplit, hi, hsplit, hdecl, hfirst⟩

/-- A line that is switched. -/
def switched (l : Text) : Text := if isCommented l then uncomment l else comment l

theorem toggle_of_locate (h : locate t kind key limit = .ok (as ++ l :: bs, as.length)) :
    toggle t kind key limit = .ok
      { content := join ['\n'] (as ++ switched l :: bs)
        message := about kind key (stateWord (isCommented l))
        lineNumber := as.length + 1
        enabled := isCommented l } := by
  unfold toggle
  rw [h]
  have hget : (as ++ l :: bs)[as.length]?.getD [] = l := by simp
  have hset : ∀ l', (as ++ l :: bs).set as.length l' = as ++ l' :: bs := fun l' => by simp
  simp only [bind, Except.bind, hget, hset]
  rfl

theorem toggle_eq_ok (h : toggle t kind key limit = .ok r) :
    ∃ as l bs, locate t kind key limit = .ok (as ++ l :: bs, as.length) ∧
      (∀ a ∈ as, isDeclaration kind key limit a = false) ∧
      isDeclaration kind key limit l = true ∧ r.content = join ['\n'] (as ++ switched l :: bs) ∧
      r.lineNumber = as.length + 1 ∧ r.enabled = isCommented l := by
  cases hlocate : locate t kind key limit with
  | error e =>
    unfold toggle at h
    rw [hlocate] at h
    cases h
  | ok x =>
    obtain ⟨ls, i⟩ := x
    obtain ⟨as, l, bs, rfl, rfl, -, hdecl, hfirst⟩ := exists_of_locate hlocate
    rw [toggle_of_locate hlocate, Except.ok.injEq] at h
    subst h
    exact ⟨as, l, bs, rfl, hfirst, hdecl, rfl, rfl, rfl⟩

theorem not_mem_switched {l : Text} (h : '\n' ∉ l) : '\n' ∉ switched l := by
  unfold switched
  split
  · exact fun hmem => h ((uncomment_sublist l).subset hmem)
  · exact fun hmem => h (mem_of_mem_comment hmem (by decide) (by decide))

theorem IsSwitchable.switched {l : Text} (h : IsSwitchable l) : IsSwitchable (switched l) := by
  unfold Edit.switched
  split
  · exact h.uncomment
  · exact h.comment (by simpa using ‹¬isCommented l = true›)

/-! ### One line is changed -/

/-- A declaration of an alias that is commented out stands behind the comment sign. -/
theorem declares_of_isCommented {l : Text} (hc : isCommented l = true)
    (h : isDeclaration .aliased key limit l = true) :
    (l.length : Int) ≤ limit ∧ declares key (uncomment l) .aliased = true := by
  simp only [isDeclaration, Bool.and_eq_true, Bool.or_eq_true, decide_eq_true_eq] at h
  refine ⟨h.1.2, h.2.resolve_left fun hd => ?_⟩
  have hkey : Kind.aliased = .history → IsHistoryKey key := fun h => absurd h (by decide)
  obtain ⟨b, w, r, hb, hw, rfl⟩ := exists_firstWord hkey hd
  rw [isCommented_active hw hb] at hc
  cases hc

/-- An alias that is switched on is read, whether the line keeps its carriage return or not. -/
theorem alias?_of_switched {l y : Text} (hc : isCommented l = true)
    (h : isDeclaration .aliased key limit l = true) (hne : key ≠ [])
    (hchars : ∀ c ∈ key, Recognize.isAliasChar c = true)
    (hy : y = switched l ∨ y = dropReturn (switched l)) :
    (y.length : Int) ≤ limit ∧ ∃ v, Recognize.alias? y = some (key, v) := by
  have hswitched : switched l = uncomment l := if_pos hc
  obtain ⟨hlength, hdeclares⟩ := declares_of_isCommented hc h
  obtain ⟨p, v, hp, halias⟩ := Recognize.alias?_of_declares hchars hne hdeclares
  have hle := (uncomment_sublist l).length_le
  rw [hswitched, hp] at hy
  rw [hp] at hle
  rcases hy with rfl | rfl
  · exact ⟨by omega, _, halias v⟩
  · have hle' := length_dropReturn_le (p ++ '=' :: v)
    refine ⟨by omega, ?_⟩
    rw [dropReturn_append_cons (by decide)]
    exact ⟨_, halias _⟩

/-- What a switch does to the lines: one of them, which can be switched, becomes another. If that
is active and declares an alias, the reader finds it. -/
theorem exists_lines_of_toggle (hkey : kind = .history → IsHistoryKey key)
    (h : toggle t kind key limit = .ok r) :
    ∃ as x y bs, t.lines = as ++ ([x] ++ bs) ∧ r.content.lines = as ++ ([y] ++ bs) ∧
      r.lineNumber = as.length + 1 ∧ IsSwitchable x ∧ IsSwitchable y ∧
      (r.enabled = false → isCommented y = true) ∧
      (r.enabled = true → kind = .aliased → (∀ c ∈ key, Recognize.isAliasChar c = true) →
        (y.length : Int) ≤ limit ∧ ∃ v, Recognize.alias? y = some (key, v)) := by
  obtain ⟨as, l, bs, hlocate, -, hdecl, hcontent, hnumber, henabled⟩ := toggle_eq_ok h
  obtain ⟨-, hblank, hsplit, -⟩ := locate_eq_ok_iff.1 hlocate
  have hl := IsSwitchable.of_isDeclaration hkey hdecl
  have hlines := lines_join_middle as l bs (forall_not_mem_of_splitOn hsplit)
  have hlines' := lines_join_middle as (switched l) bs
    (forall_not_mem_exchanged hsplit (not_mem_switched (not_mem_of_splitOn hsplit)))
  rw [← hsplit, join_splitOn] at hlines
  rw [← hcontent] at hlines'
  refine ⟨_, _, _, _, hlines, hlines', by rw [hnumber, List.length_map], ?_, ?_, ?_, ?_⟩
  · split
    · exact hl
    · exact hl.dropReturn
  · split
    · exact hl.switched
    · exact hl.switched.dropReturn
  · intro hdisabled
    have hc : isCommented (switched l) = true := by
      unfold switched
      rw [← henabled, hdisabled]
      exact isCommented_comment l
    split
    · exact hc
    · exact isCommented_dropReturn hc
  · rintro hon rfl hchars
    rw [henabled] at hon
    have hne : key ≠ [] := by
      rintro rfl
      cases hblank
    refine alias?_of_switched hon hdecl hne hchars ?_
    split
    · exact .inl rfl
    · exact .inr rfl

/-! ### Entries -/

/-- **Switching an entry.** If a switch succeeds on a line that no plugin list is open before, what
is read of the other lines stays the same. Nothing is read of a line that is switched off, and of
one that is switched on for an alias, the alias is. -/
theorem toggle_entries (hkey : kind = .history → IsHistoryKey key)
    (h : toggle t kind key limit = .ok r)
    (hopen : Plugins.openAfter false
      ((Line.safe limit t).filter (·.number < r.lineNumber)) = false) :
    (Entry.inSections r.content none limit).filter (·.lineNumber ≠ (r.lineNumber : Int)) =
        (Entry.inSections t none limit).filter (·.lineNumber ≠ (r.lineNumber : Int)) ∧
      (r.enabled = false →
        ∀ e ∈ Entry.inSections r.content none limit, e.lineNumber ≠ r.lineNumber) ∧
      (r.enabled = true → kind = .aliased → (∀ c ∈ key, Recognize.isAliasChar c = true) →
        ∃ e ∈ Entry.inSections r.content none limit,
          e.lineNumber = r.lineNumber ∧ e.kind = .aliased ∧ e.payload.name = some key) := by
  obtain ⟨as, x, y, bs, hx, hy, hnumber, hswitch, hswitch', hoff, hon⟩ :=
    exists_lines_of_toggle hkey h
  have has : Plugins.openAfter false (Line.short limit 1 as) = false := by
    have hfilter : ∀ l ∈ Line.short limit 1 (as ++ ([x] ++ bs)),
        decide (l.number < r.lineNumber) = decide (l.number ≤ as.length) := fun l _ =>
      decide_eq_decide.2 (hnumber ▸ Nat.lt_succ_iff)
    rwa [Line.safe_eq, hx, List.filter_congr hfilter, Line.filter_short_append] at hopen
  have hmiddle := Entry.inSections_middle hx has (by simpa using hswitch.opening?_eq_none)
    (by simpa using fun n => Marker.ofLine?_eq_none_iff.2 (.inr hswitch.readAs?_eq_none))
  have hmiddle' := Entry.inSections_middle hy has (by simpa using hswitch'.opening?_eq_none)
    (by simpa using fun n => Marker.ofLine?_eq_none_iff.2 (.inr hswitch'.readAs?_eq_none))
  refine ⟨?_, ?_, ?_⟩
  · rw [hmiddle, hmiddle', hnumber, List.filter_map, List.filter_map]
    exact congrArg (List.map _) <| (Entry.filter_onLines_ne Kind.all limit as y bs).trans
      (Entry.filter_onLines_ne Kind.all limit as x bs).symm
  · intro hdisabled e he
    have hnone : Entry.onLines Kind.all false (Line.short limit (1 + as.length) [y]) = [] :=
      Entry.onLines_of_isCommented fun l hl => by
        rw [List.mem_singleton.1 (Line.text_mem_of_mem_short hl)]
        exact hoff hdisabled
    rw [hmiddle', hnone, List.append_nil, List.mem_map] at he
    obtain ⟨e, he, rfl⟩ := he
    have hne := Entry.lineNumber_ne_of_mem he
    rw [hnumber]
    exact hne
  · intro henabled haliased hchars
    obtain ⟨hlength, v, halias⟩ := hon henabled haliased hchars
    have he := Entry.mem_onLines_of_alias? (n := r.lineNumber) hlength halias
    have hplace : r.lineNumber = 1 + as.length := by omega
    rw [hplace] at he
    rw [hmiddle', hplace]
    exact ⟨_, List.mem_map_of_mem (List.mem_append_left _ (List.mem_append_right _ he)), rfl, rfl,
      rfl⟩

def sampleText : Text := "## Tools\n# alias ll='ls -l'\nplugins=(git)\n".toList

theorem toggle_entries_commented :
    ∃ r, toggle sampleText .aliased "ll".toList 1000 = .ok r ∧ r.lineNumber = 2 ∧
      (Entry.inSections r.content none 1000).filter (·.lineNumber ≠ 2) =
        (Entry.inSections sampleText none 1000).filter (·.lineNumber ≠ 2) ∧
      ∃ e ∈ Entry.inSections r.content none 1000,
        e.lineNumber = 2 ∧ e.kind = .aliased ∧ e.payload.name = some "ll".toList := by
  have htoggle : toggle sampleText .aliased "ll".toList 1000 =
      .ok ⟨"## Tools\nalias ll='ls -l'\nplugins=(git)\n".toList, "Alias 'll' enabled".toList, 2,
        true, true⟩ := rfl
  have hkind : Kind.aliased = .history → IsHistoryKey "ll".toList := fun h =>
    absurd h (by decide)
  have hopen : Plugins.openAfter false ((Line.safe 1000 sampleText).filter (·.number < 2)) =
      false := rfl
  have hentries := toggle_entries hkind htoggle hopen
  exact ⟨_, htoggle, rfl, hentries.1, hentries.2.2 rfl rfl (List.all_eq_true.1 rfl)⟩

end ShellConfig.Edit

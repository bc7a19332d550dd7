import ShellConfig.Proofs.Files.Temporary

/-!
# Replacing a file

What writing through a temporary file does to a tree. Main statements: `replace_eq_ok`, that a
success changes one place and no other; `replace_eq_error`, that a failure changes none; and
`replace_succeeds`, that nothing but the temporary file can fail where a file can be replaced.
-/

namespace ShellConfig.FileOperation

open FileTree Operation

variable {t u v : FileTree} {p T : Path} {bytes : ByteArray} {mode : Mode} {e : Failure}
  {d q : Place} {w : Text}

/-! ### The temporary file -/

/-- Filling a new temporary file succeeds, so only moving it can fail. The file is then the one
difference to the tree before it was made. -/
theorem fillAndMove_new (hT : t.locate T .entry = .ok q) (hnode : t.node? q = none)
    (hnul : T.hasNul = false) (p : Path) (bytes : ByteArray) (mode : Mode) :
    ∃ v s, fillAndMove T p bytes (some mode) (t.putFile q .empty .secret) = moveOver T p v ∧
      IsUpdate t v q (some (.file bytes mode s)) := by
  let t₁ := t.putFile q .empty .secret
  let t₂ := t₁.putFile q bytes .secret
  let t₃ := t₂.put q (.file bytes mode (.tick t₁.clock))
  have h₁ : IsUpdate t t₁ q (some (.file .empty .secret (.tick t.clock))) :=
    ⟨fun r => node?_putFile t q r _ _, rfl, rfl, length_put_le t q _⟩
  have hbare : IsBare (t.node? q) := by simp [hnode]
  have hlocate : ∀ goal, t₁.locate T goal = .ok q := by
    have hentry := h₁.locate hbare (isBare_file _ _ _) hT (.inr rfl)
    exact locate_of_entry hentry (by simp [h₁.node?_self])
  have hwrite : t₁.write T bytes = .ok t₂ :=
    write_of_file (hlocate .newContent) h₁.node?_self (by decide) bytes
  have h₂ : IsUpdate t t₂ q (some (.file bytes .secret (.tick t₁.clock))) := by
    refine ⟨fun r => ?_, rfl, rfl, ?_⟩
    · rw [node?_putFile, h₁.node?]
      split <;> rfl
    · exact Nat.le_trans (length_put_le_of_node? h₁.node?_self _) h₁.length_le
  have hlocate₂ : t₂.locate T = .ok q := by
    have hentry := h₂.locate hbare (isBare_file _ _ _) hT (.inr rfl)
    exact locate_of_entry hentry (by simp [h₂.node?_self]) .content
  have hchmod : t₂.chmod T mode = .ok t₃ := chmod_of_file hlocate₂ h₂.node?_self mode
  refine ⟨t₃, .tick t₁.clock, ?_, ?_⟩
  · have hw : change T (·.write T bytes) t₁ = .ok () t₂ := change_eq_ok.2 ⟨hnul, hwrite⟩
    have hm : change T (·.chmod T mode) t₂ = .ok () t₃ := change_eq_ok.2 ⟨hnul, hchmod⟩
    unfold fillAndMove
    rw [bind_of_ok hw]
    dsimp only
    rw [bind_of_ok hm]
  · refine ⟨fun r => ?_, rfl, rfl, ?_⟩
    · rw [node?_put, h₂.node?]
      split <;> rfl
    · exact Nat.le_trans (length_put_le_of_node? h₂.node?_self _) h₂.length_le

/-- When the temporary file can be moved over another. What is then at the place of that one is the
one difference to the tree before. -/
theorem moveOver_new (hT : t.locate T .entry = .ok q) (hnode : t.node? q = none)
    (hnul : T.hasNul = false) (hw : t.parentWritable q = true) {s : Stamp}
    (hv : IsUpdate t v q (some (.file bytes mode s))) :
    (∀ u, moveOver T p v = .ok () u → ∃ r, t.locate p .entry = .ok r ∧ p.isNamed = true ∧
      t.parentWritable r = true ∧ (∀ k, t.node? r ≠ some (.dir k)) ∧
      IsUpdate t u r (some (.file bytes mode s))) ∧
    (∀ r, t.locate p .entry = .ok r → p.isNamed = true → t.parentWritable r = true →
      (∀ k, t.node? r ≠ some (.dir k)) → r.isPrefixOf q.dropLast = false →
      ∃ u, moveOver T p v = .ok () u) := by
  have hbare : IsBare (t.node? q) := by simp [hnode]
  have hfile : IsBare (some (.file bytes mode s)) := isBare_file _ _ _
  have hTv := hv.locate hbare hfile hT (.inr rfl)
  have hdirs : ∀ r, (∀ k, v.node? r ≠ some (.dir k)) ↔ ∀ k, t.node? r ≠ some (.dir k) := by
    intro r
    by_cases hr : r = q
    · subst hr
      simp [hv.node?_self, hnode]
    · rw [hv.node?_of_ne hr]
  have hwv := fun r => hv.parentWritable hbare hfile r
  constructor
  · intro u hu
    obtain ⟨-, hren⟩ := change_eq_ok.1 (mapFailure_eq_ok.1 hu)
    obtain ⟨r, hr, hnamed, -, -, hwr, hdir, rfl⟩ := (rename_of_file hTv hv.node?_self).1 hren
    refine ⟨r, hv.locate_back hfile hr, hnamed, hwv r ▸ hwr, (hdirs r).1 hdir, ?_⟩
    refine ⟨fun x => ?_, hv.workingPlace, hv.draw, ?_⟩
    · rw [node?_put, node?_erase, hv.node?]
      by_cases hx : x = q
      · simp [hx, hnode]
      · simp [hx]
    · have hlt := length_erase_lt hv.node?_self
      have hle := length_put_le (v.erase q) r (.file bytes mode s)
      have := hv.length_le
      omega
  · intro r hr hnamed hwr hdir hpre
    have hrv := hv.locate hbare hfile hr (.inr rfl)
    have hren := (rename_of_file (u := _) hTv hv.node?_self).2
      ⟨r, hrv, hnamed, hpre, hwv q ▸ hw, hwv r ▸ hwr, (hdirs r).2 hdir, rfl⟩
    exact ⟨_, mapFailure_eq_ok.2 (change_eq_ok.2 ⟨hnul, hren⟩)⟩

/-! ### Replacing -/

theorem replace_eq_ok (h : replace p bytes (some mode) t = .ok () u) :
    (∃ T v, createTemporary p t = .ok T v) ∧
      ∃ q s, t.locate p .entry = .ok q ∧ p.isNamed = true ∧ t.parentWritable q = true ∧
        (∀ k, t.node? q ≠ some (.dir k)) ∧ IsUpdate t u q (some (.file bytes mode s)) := by
  obtain ⟨T, v, hcreate, hrest⟩ := bind_eq_ok.1 h
  refine ⟨⟨T, v, hcreate⟩, ?_⟩
  obtain ⟨w, d, -, -, hnul, hT, hnode, hw, rfl⟩ := createTemporary_eq_ok hcreate
  obtain ⟨x, s, hfill, hx⟩ := fillAndMove_new hT hnode hnul p bytes mode
  obtain ⟨r, y, hr, hend⟩ := bind_eq_ok.1 hrest
  rcases attempt_eq_ok.1 hr with ⟨_, rfl, hmove⟩ | ⟨e, rfl, hmove⟩
  · simp only [pure_apply, EStateM.Result.ok.injEq, true_and] at hend
    subst hend
    rw [hfill] at hmove
    obtain ⟨q, hq⟩ := (moveOver_new hT hnode hnul hw hx).1 y hmove
    exact ⟨q, s, hq⟩
  · obtain ⟨_, z, -, hthrow⟩ := bind_eq_ok.1 hend
    simp at hthrow

theorem replace_eq_error (h : replace p bytes (some mode) t = .error e u) : Alike t u := by
  rcases bind_eq_error.1 h with hcreate | ⟨T, v, hcreate, hrest⟩
  · rw [createTemporary_eq_error hcreate]
    exact Alike.refl t
  · obtain ⟨w, d, hmem, rfl, hnul, hT, hnode, hw, rfl⟩ := createTemporary_eq_ok hcreate
    obtain ⟨x, s, hfill, hx⟩ := fillAndMove_new hT hnode hnul p bytes mode
    rcases bind_eq_error.1 hrest with hattempt | ⟨r, y, hr, hend⟩
    · exact absurd hattempt attempt_ne_error
    · rcases attempt_eq_ok.1 hr with ⟨_, rfl, -⟩ | ⟨e', rfl, hmove⟩
      · simp at hend
      · -- the temporary file is the only difference, and it can be removed
        rw [hfill] at hmove
        obtain ⟨e'', -, hchange⟩ := mapFailure_eq_error.1 hmove
        obtain ⟨rfl, -⟩ := change_eq_error.1 hchange
        have hbare : IsBare (t.node? (d ++ [w])) := by simp [hnode]
        have hfile : IsBare (some (.file bytes mode s)) := isBare_file _ _ _
        have hTx := hx.locate hbare hfile hT (.inr rfl)
        have hwx := (hx.parentWritable hbare hfile _).trans hw
        have hnamed : ((p.parent.fromRoot t.workingPlace).child w).isNamed = true := by
          simpa using (isStep_of_mem_temporaryNames hmem).2
        have hun : change _ (·.unlink _) y = .ok () (y.erase (d ++ [w])) :=
          change_eq_ok.2 ⟨hnul, unlink_of_file hTx hnamed hx.node?_self hwx⟩
        have habsent := orAbsent_eq_ok.2 (.inl ⟨(), rfl, hun⟩)
        dsimp only at hend
        rw [bind_of_ok habsent] at hend
        simp only [throw_apply, EStateM.Result.error.injEq] at hend
        obtain ⟨-, rfl⟩ := hend
        refine ⟨fun z => ?_, hx.workingPlace, hx.draw, ?_⟩
        · rw [node?_erase, hx.node?]
          by_cases hz : z = d ++ [w]
          · simp [hz, hnode]
          · simp [hz]
        · have := length_erase_lt hx.node?_self
          have := hx.length_le
          omega

/-- A file is replaced if the temporary file can be made and there is no directory in the way. -/
theorem replace_succeeds (wf : t.WellFormed) (hcreate : createTemporary p t = .ok T v)
    (hq : t.locate p .entry = .ok q) (hnamed : p.isNamed = true)
    (hwq : t.parentWritable q = true) (hdir : ∀ k, t.node? q ≠ some (.dir k)) (bytes : ByteArray)
    (mode : Mode) : ∃ u, replace p bytes (some mode) t = .ok () u := by
  obtain ⟨w, d, hmem, -, hnul, hT, hnode, hw, rfl⟩ := createTemporary_eq_ok hcreate
  obtain ⟨x, s, hfill, hx⟩ := fillAndMove_new hT hnode hnul p bytes mode
  -- only a directory can be on the way to the temporary file
  have hpre : q.isPrefixOf (d ++ [w]).dropLast = false := by
    rw [List.dropLast_concat, Bool.eq_false_iff]
    intro hpre
    obtain ⟨ns, rfl⟩ := List.isPrefixOf_iff_prefix.1 hpre
    obtain ⟨k, hk⟩ : ∃ k, t.node? (q ++ ns) = some (.dir k) := by
      unfold parentWritable at hw
      rw [List.dropLast_concat] at hw
      split at hw
      · exact ⟨_, ‹_›⟩
      · cases hw
    by_cases hns : ns = []
    · subst hns
      exact hdir k (by simpa using hk)
    · obtain ⟨m, hm⟩ := wf.above hns hk
      exact hdir m hm
  obtain ⟨u, hu⟩ := (moveOver_new hT hnode hnul hw hx).2 q hq hnamed hwq hdir hpre
  refine ⟨u, ?_⟩
  unfold replace
  rw [bind_of_ok hcreate, bind_of_ok (attempt_of_ok (hfill.trans hu))]
  rfl

end ShellConfig.FileOperation

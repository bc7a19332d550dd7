import Mathlib.Data.List.Perm.Subperm
import ShellConfig.Proofs.Files.Operation
import ShellConfig.Proofs.Files.Update
import ShellConfig.Proofs.Text.Hexadecimal

/-!
# Temporary files

Which file is made beside another, and when one can be made. Main statements:
`createTemporary_eq_ok`, what a success does; `createTemporary_eq_error`, that a failure does
nothing; and `createTemporary_succeeds`, that there is a success where names of the length of
temporary ones can be added.
-/

namespace ShellConfig

namespace FileTree

/-- Names of temporary files are drawn as they should be: what makes them different has eight bytes,
and there are fewer nodes than numbers of eight hexadecimal digits, also when one is added. -/
structure DrawsNames (t : FileTree) : Prop where
  bytes : byteCount t.draw = 8
  noNul : Char.ofNat 0 ∉ t.draw
  few : t.nodes.length + 1 < 16 ^ 8

end FileTree

namespace FileOperation

open FileTree Operation

variable {t u : FileTree} {p T : Path} {ps : List Path} {e : Failure} {mode : Mode} {d q : Place}
  {w name : Text}

/-! ### Names -/

theorem mem_temporaryNames :
    w ∈ temporaryNames t name ↔
      ∃ x, (x = t.draw ∨ ∃ n < t.nodes.length + 1, x = Text.hex 8 n) ∧
        w = '.' :: (name ++ '.' :: (x ++ ".tmp".toList)) := by
  simp only [temporaryNames, List.mem_map, List.mem_cons, List.mem_range]
  constructor
  · rintro ⟨x, rfl | ⟨n, hn, rfl⟩, rfl⟩
    · exact ⟨_, .inl rfl, rfl⟩
    · exact ⟨_, .inr ⟨n, hn, rfl⟩, rfl⟩
  · rintro ⟨x, rfl | ⟨n, hn, rfl⟩, rfl⟩
    · exact ⟨_, .inl rfl, rfl⟩
    · exact ⟨_, .inr ⟨n, hn, rfl⟩, rfl⟩

theorem isStep_of_mem_temporaryNames (h : w ∈ temporaryNames t name) : IsStep w := by
  obtain ⟨x, -, rfl⟩ := mem_temporaryNames.1 h
  constructor
  · intro hw
    have := congrArg List.length hw
    simp [Path.here] at this
  · intro hw
    have := congrArg List.length hw
    simp [Path.up] at this
    omega

theorem byteCount_temporaryName (name x : Text) :
    byteCount ('.' :: (name ++ '.' :: (x ++ ".tmp".toList))) =
      byteCount name + byteCount x + 6 := by
  have htmp : byteCount ".tmp".toList = 4 := by decide
  have hdot : ('.' : Char).utf8Size = 1 := by decide
  simp only [byteCount_cons, byteCount_append, htmp, hdot]
  omega

theorem le_byteCount_of_mem_temporaryNames (ht : byteCount t.draw = 8)
    (h : w ∈ temporaryNames t name) : byteCount name + 14 ≤ byteCount w := by
  obtain ⟨x, hx, rfl⟩ := mem_temporaryNames.1 h
  have hbytes : 8 ≤ byteCount x := by
    rcases hx with rfl | ⟨n, hn, rfl⟩
    · omega
    · rw [byteCount_eq_length fun c hc => Text.utf8Size_of_mem_hex hc]
      exact Text.le_length_hex 8 n
  rw [byteCount_temporaryName]
  omega

theorem byteCount_of_mem_temporaryNames (hbytes : byteCount t.draw = 8)
    (hfew : t.nodes.length < 16 ^ 8) (h : w ∈ temporaryNames t name) :
    byteCount w = byteCount name + 14 := by
  obtain ⟨x, hx, rfl⟩ := mem_temporaryNames.1 h
  have hx8 : byteCount x = 8 := by
    rcases hx with rfl | ⟨n, hn, rfl⟩
    · exact hbytes
    · rw [byteCount_eq_length fun c hc => Text.utf8Size_of_mem_hex hc]
      exact Text.length_hex (by omega) (by omega)
  rw [byteCount_temporaryName]
  omega

theorem noNul_temporaryName (hdraw : Char.ofNat 0 ∉ t.draw) (hname : Char.ofNat 0 ∉ name)
    (h : w ∈ temporaryNames t name) : Char.ofNat 0 ∉ w := by
  obtain ⟨x, hx, rfl⟩ := mem_temporaryNames.1 h
  have hnul : Char.ofNat 0 ∉ x := by
    rcases hx with rfl | ⟨n, hn, rfl⟩
    · exact hdraw
    · intro hmem
      have hnot : ∀ k : Fin 16, Char.ofNat 0 ≠ (k : Nat).digitChar := by decide
      rcases List.mem_append.1 hmem with hmem | hmem
      · exact absurd (List.eq_of_mem_replicate hmem) (by decide)
      · obtain ⟨k, hk, hc⟩ := Text.mem_toDigits_sixteen hmem
        exact hnot ⟨k, hk⟩ hc
  have hdot : Char.ofNat 0 ≠ '.' := by decide
  have htmp : Char.ofNat 0 ∉ ".tmp".toList := by decide
  simp only [List.mem_cons, List.mem_append, hnul, hname, hdot, htmp, or_self, not_false_eq_true]

/-- There are more temporary names than nodes, so one of them is not in use. -/
theorem exists_unused (t : FileTree) (d : Place) (name : Text) :
    ∃ w ∈ temporaryNames t name, t.node? (d ++ [w]) = none := by
  by_contra hall
  push Not at hall
  let numbered (n : Nat) : Place := d ++ ['.' :: (name ++ '.' :: (Text.hex 8 n ++ ".tmp".toList))]
  have hinj : ∀ m n, numbered m = numbered n → m = n := by
    intro m n h
    have h' := List.append_cancel_left h
    simp only [List.cons.injEq, true_and, and_true] at h'
    have h'' := List.append_cancel_left h'
    simp only [List.cons.injEq, true_and] at h''
    exact Text.hex_injective (List.append_cancel_right h'')
  have hnodup : ((List.range (t.nodes.length + 1)).map numbered).Nodup :=
    List.Pairwise.map numbered (fun m n hne h => hne (hinj m n h)) List.nodup_range
  have hsub : (List.range (t.nodes.length + 1)).map numbered ⊆ t.nodes.map Prod.fst := by
    intro r hr
    obtain ⟨n, hn, rfl⟩ := List.mem_map.1 hr
    have hused := hall _ (mem_temporaryNames.2 ⟨_, .inr ⟨n, List.mem_range.1 hn, rfl⟩, rfl⟩)
    obtain ⟨k, hk⟩ := Option.ne_none_iff_exists'.1 hused
    exact List.mem_map_of_mem (mem_nodes hk)
  have hle := (List.subperm_of_subset hnodup hsub).length_le
  simp only [List.length_map, List.length_range] at hle
  omega

/-! ### Making the first that is not there -/

theorem createFirst_eq_ok (h : createFirst mode ps t = .ok T u) :
    T ∈ ps ∧ T.hasNul = false ∧ t.create T mode = .ok u := by
  induction ps with
  | nil => simp [createFirst] at h
  | cons p ps ih =>
    rw [createFirst, bind_eq_ok] at h
    obtain ⟨r, v, hr, hrest⟩ := h
    rcases attempt_eq_ok.1 hr with ⟨_, rfl, hp⟩ | ⟨e, rfl, hp⟩
    · simp only [pure_apply, EStateM.Result.ok.injEq] at hrest
      obtain ⟨rfl, rfl⟩ := hrest
      exact ⟨List.mem_cons_self, change_eq_ok.1 hp⟩
    · obtain ⟨rfl, -⟩ := change_eq_error.1 hp
      dsimp only at hrest
      split at hrest
      · exact (ih hrest).imp_left (List.mem_cons_of_mem p)
      · simp at hrest

theorem createFirst_eq_error (h : createFirst mode ps t = .error e u) : u = t := by
  induction ps with
  | nil =>
    simp only [createFirst, throw_apply, EStateM.Result.error.injEq] at h
    exact h.2.symm
  | cons p ps ih =>
    rw [createFirst, bind_eq_error] at h
    rcases h with h | ⟨r, v, hr, hrest⟩
    · exact absurd h attempt_ne_error
    · rcases attempt_eq_ok.1 hr with ⟨_, rfl, hp⟩ | ⟨e', rfl, hp⟩
      · simp at hrest
      · obtain ⟨rfl, -⟩ := change_eq_error.1 hp
        dsimp only at hrest
        split at hrest
        · exact ih hrest
        · simp only [throw_apply, EStateM.Result.error.injEq] at hrest
          exact hrest.2.symm

theorem createFirst_succeeds
    (hall : ∀ p ∈ ps, p.hasNul = false ∧
      ((∃ u, t.create p mode = .ok u) ∨ t.create p mode = .error .fileExists))
    (hone : ∃ p ∈ ps, ∃ u, t.create p mode = .ok u) : ∃ T u, createFirst mode ps t = .ok T u := by
  induction ps with
  | nil => simp at hone
  | cons p ps ih =>
    obtain ⟨hnul, ⟨u, hu⟩ | hexists⟩ := hall p List.mem_cons_self
    · have hp : change p (·.create p mode) t = .ok () u := change_eq_ok.2 ⟨hnul, hu⟩
      exact ⟨p, u, by rw [createFirst, bind_of_ok (attempt_of_ok hp)]; rfl⟩
    · have hone' : ∃ p ∈ ps, ∃ u, t.create p mode = .ok u := by
        obtain ⟨p', hp', u, hu⟩ := hone
        rcases List.mem_cons.1 hp' with rfl | hp'
        · rw [hexists] at hu
          cases hu
        · exact ⟨p', hp', u, hu⟩
      obtain ⟨T, u, hT⟩ := ih (fun p' hp' => hall p' (List.mem_cons_of_mem p hp')) hone'
      have hp : change p (·.create p mode) t = .error (.system ⟨.fileExists, p, none⟩) t :=
        change_eq_error.2 ⟨rfl, .inr ⟨hnul, .fileExists, hexists, rfl⟩⟩
      exact ⟨T, u, by rw [createFirst, bind_of_ok (attempt_of_error hp)]; exact hT⟩

/-! ### Temporary files -/

theorem createTemporary_eq_ok (h : createTemporary p t = .ok T u) :
    ∃ w d, w ∈ temporaryNames t (p.name?.getD []) ∧
      T = (p.parent.fromRoot t.workingPlace).child w ∧ T.hasNul = false ∧
      t.locate T .entry = .ok (d ++ [w]) ∧ t.node? (d ++ [w]) = none ∧
      t.parentWritable (d ++ [w]) = true ∧ u = t.putFile (d ++ [w]) .empty .secret := by
  obtain ⟨hmem, hnul, hcreate⟩ := createFirst_eq_ok h
  obtain ⟨w, hw, rfl⟩ := List.mem_map.1 hmem
  obtain ⟨q, hq, hnode, hwrite, rfl⟩ := create_eq_ok.1 hcreate
  obtain ⟨-, -, d, -, -, rfl⟩ := (locate_child_iff (isStep_of_mem_temporaryNames hw)).1 hq
  exact ⟨w, d, hw, rfl, hnul, hq, hnode, hwrite, rfl⟩

theorem createTemporary_eq_error (h : createTemporary p t = .error e u) : u = t :=
  createFirst_eq_error h

/-- A temporary file can be made in a directory that may be searched and changed, if names of its
length are not too long. -/
theorem createTemporary_succeeds (hbytes : byteCount t.draw = 8) (hdraw : Char.ofNat 0 ∉ t.draw)
    (hfew : t.nodes.length < 16 ^ 8) (hp : p.hasNul = false)
    (hd : t.locate (p.parent.fromRoot t.workingPlace) = .ok d) (hs : t.Searchable d)
    (hw : ∃ m, t.node? d = some (.dir m) ∧ m.writable = true)
    (hnul : (p.parent.fromRoot t.workingPlace).hasNul = false)
    (hname : byteCount (p.name?.getD []) + 14 ≤ maxNameBytes)
    (hpath : byteCount (p.parent.fromRoot t.workingPlace).stem + byteCount (p.name?.getD []) + 14 ≤
      maxPathBytes) :
    ∃ T u, createTemporary p t = .ok T u := by
  have hwrite : ∀ w, t.parentWritable (d ++ [w]) = true := by
    intro w
    obtain ⟨m, hm, hmw⟩ := hw
    simp [parentWritable, hm, hmw]
  have hnul' : Char.ofNat 0 ∉ p.name?.getD [] := by
    cases hn : p.name? with
    | none => simp
    | some n =>
      rw [Path.eq_child hn, Path.hasNul_child] at hp
      exact hp.2
  have hlocate : ∀ w ∈ temporaryNames t (p.name?.getD []),
      t.locate ((p.parent.fromRoot t.workingPlace).child w) .entry = .ok (d ++ [w]) := by
    intro w hw
    have hlen := byteCount_of_mem_temporaryNames hbytes hfew hw
    refine (locate_child_iff (isStep_of_mem_temporaryNames hw)).2 ⟨?_, by omega, d, hd, hs, rfl⟩
    rw [byteCount_text_child]
    omega
  refine createFirst_succeeds ?_ ?_
  · intro T hT
    obtain ⟨w, hw, rfl⟩ := List.mem_map.1 hT
    refine ⟨Path.hasNul_child.2 ⟨hnul, noNul_temporaryName hdraw hnul' hw⟩, ?_⟩
    cases hnode : t.node? (d ++ [w]) with
    | none => exact .inl ⟨_, create_eq_ok.2 ⟨_, hlocate w hw, hnode, hwrite w, rfl⟩⟩
    | some k => exact .inr (by simp [create, hlocate w hw, hnode])
  · obtain ⟨w, hw, hnode⟩ := exists_unused t d (p.name?.getD [])
    exact ⟨_, List.mem_map.2 ⟨w, hw, rfl⟩, _,
      create_eq_ok.2 ⟨_, hlocate w hw, hnode, hwrite w, rfl⟩⟩

end FileOperation
end ShellConfig

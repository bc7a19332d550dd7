import ShellConfig.Proofs.Settings.Loading
import ShellConfig.Proofs.Settings.Replaced

/-!
# Stored settings

What is written to the file of the settings is read of it afterwards. Main statements:
`read_of_opens`, on any file; `store_eq_ok`, what storing settings does; `load_of_store`, that they
are loaded then; and `isStorable_of_load`, that what was loaded can be stored.
-/

namespace ShellConfig

open Operation FileOperation

/-! ### Writing in place -/

namespace FileTree

variable {b bytes : ByteArray} {f : Path} {goal : Goal} {here p q : Place} {links : Nat} {m : Mode}
  {ns : List Text} {slash : Bool} {st : Stamp} {t u : FileTree}

/-- A walk to where a file may be made also leads to what is there. -/
theorem Leads.to_content (h : Leads t .newContent links slash here ns q) :
    Leads t .content links slash here ns q := by
  induction h with
  | arrive hslash => exact .arrive hslash
  | stay hdir _ ih => exact .stay hdir ih
  | climb hdir _ ih => exact .climb hdir ih
  | vacant hdir hstep hshort _ hnode => exact .vacant hdir hstep hshort (by simp) hnode
  | halt _ _ _ hgoal => cases hgoal
  | follow hdir hstep hshort _ _ hnode _ ih =>
    exact .follow hdir hstep hshort (by simp) (by simp) hnode ih
  | enter hdir hstep hshort _ hnode hlink _ ih =>
    exact .enter hdir hstep hshort (by simp) hnode hlink ih

theorem locate_of_newContent (h : t.locate f .newContent = .ok q) : t.locate f = .ok q := by
  rw [locate_eq_ok_iff] at h ⊢
  exact ⟨h.1, h.2.to_content⟩

/-- A path opens the file at a place, which has a mode: one that is there, or a new one. -/
structure Opens (t : FileTree) (f : Path) (q : Place) (m : Mode) : Prop where
  locate : t.locate f .newContent = .ok q
  node? : (∃ b st, t.node? q = some (.file b m st)) ∨ t.node? q = none ∧ m = .ordinary

theorem write_eq_ok (h : t.write f bytes = .ok u) : ∃ q m, Opens t f q m ∧
    u = t.putFile q bytes m := by
  unfold write at h
  split at h
  · cases h
  · next q hq =>
    split at h
    · next b m st hnode =>
      split at h
      · cases h
        exact ⟨q, m, ⟨hq, .inl ⟨b, st, hnode⟩⟩, rfl⟩
      · cases h
    · cases h
    · cases h
    · next hnode =>
      split at h
      · cases h
        exact ⟨q, .ordinary, ⟨hq, .inr ⟨hnode, rfl⟩⟩, rfl⟩
      · cases h

theorem openEmpty_eq_ok (h : t.openEmpty f = .ok (q, u)) :
    ∃ m, Opens t f q m ∧ u = t.putFile q .empty m := by
  unfold openEmpty at h
  cases hw : t.write f .empty with
  | error e =>
    cases hq : t.locate f .newContent <;> rw [hw, hq] at h <;> cases h
  | ok v =>
    obtain ⟨p, m, hopens, rfl⟩ := write_eq_ok hw
    rw [hw, hopens.locate] at h
    cases h
    exact ⟨m, hopens, rfl⟩

/-- What is filled into it is there as if it had been written at once, one tick later. -/
theorem fill_putFile (t : FileTree) (q : Place) (bytes : ByteArray) (m : Mode) :
    (t.putFile q .empty m).fill q bytes = t.tick.putFile q bytes m := by
  have hnode : (t.putFile q .empty m).node? q = some (.file .empty m (.tick t.clock)) := by
    rw [node?_putFile, if_pos rfl]
  unfold fill
  rw [hnode]
  simp [putFile, put, tick, List.filter_filter]

theorem isUpdate_putFile (t : FileTree) (q : Place) (bytes : ByteArray) (m : Mode) :
    IsUpdate t (t.tick.putFile q bytes m) q (some (.file bytes m (.tick (t.clock + 1)))) :=
  ⟨fun p => node?_putFile t.tick q p bytes m, rfl, rfl, length_put_le t.tick q _⟩

theorem find_of_opens (h : Opens t f q m) (bytes : ByteArray) :
    (t.tick.putFile q bytes m).find f = .ok (q, .file bytes m (.tick (t.clock + 1))) := by
  have hupdate := isUpdate_putFile t q bytes m
  refine find_eq_ok_iff.2 ⟨?_, hupdate.node?_self⟩
  rcases h.node? with ⟨b, st, hnode⟩ | ⟨hnode, -⟩
  · exact hupdate.locate (by simp [hnode]) (isBare_file _ _ _) (locate_of_newContent h.locate)
      (.inl (by simp [hnode]))
  · exact hupdate.locate_made hnode (isBare_file _ _ _) h.locate

/-- It is read, unless the file was there and may not be read. -/
theorem read_of_opens (h : Opens t f q m)
    (hopen : ∀ q b m st, t.find f = .ok (q, .file b m st) → m.readable = true) :
    (t.tick.putFile q bytes m).read f = .ok bytes := by
  refine read_eq_ok.2 ⟨q, m, _, find_of_opens h bytes, ?_⟩
  rcases h.node? with ⟨b, st, hnode⟩ | ⟨-, rfl⟩
  · exact hopen q b m st (find_eq_ok_iff.2 ⟨locate_of_newContent h.locate, hnode⟩)
  · decide

end FileTree

namespace SettingsStore

variable {d f : Path} {env : Environment} {c s : Settings} {t u : FileTree}

/-! ### The file -/

/-- A file of settings in a directory is open: it can be read, or it is not there while the
directory is. -/
inductive IsOpen (t : FileTree) (d : Path) : Prop
  | present {b : ByteArray} (h : t.read (d.child place.fileName) = .ok b)
  | absent {q : Place} {m : Mode} (h : t.find d = .ok (q, .dir m))
    (hnone : t.find (d.child place.fileName) = .error .noEntry)

theorem IsOpen.find (h : IsOpen t d) : ∃ q m, t.find d = .ok (q, .dir m) := by
  cases h with
  | present h =>
    obtain ⟨q, m, st, hfind, -⟩ := FileTree.read_eq_ok.1 h
    exact find_of_find_child ⟨by decide, by decide⟩ hfind
  | absent h hnone => exact ⟨_, _, h⟩

/-- An open file may be read if it is there. -/
theorem IsOpen.readable (h : IsOpen t d) {q : Place} {b : ByteArray} {m : Mode} {st : Stamp}
    (hfind : t.find (d.child place.fileName) = .ok (q, .file b m st)) : m.readable = true := by
  cases h with
  | present h =>
    obtain ⟨q', m', st', hfind', hm⟩ := FileTree.read_eq_ok.1 h
    rw [hfind] at hfind'
    cases hfind'
    exact hm
  | absent _ hnone =>
    rw [hfind] at hnone
    cases hnone

theorem ofBytes_fileText (hvalid : s.IsValid) (hstorable : s.IsStorable env.maxDigits) :
    ofBytes env.settingsLimits (Text.toBytes (fileText s)) = .ok s := by
  unfold ofBytes
  rw [Text.ofBytes?_toBytes]
  exact parse_fileText hvalid hstorable

theorem openFile_eq_ok {q : Place} (h : openFile f t = .ok q u) :
    f.hasNul = false ∧ ∃ m, t.Opens f q m ∧ u = t.putFile q .empty m := by
  unfold openFile at h
  split at h
  · cases h
  · next hnul =>
    split at h
    · next q' u' hopen =>
      cases h
      exact ⟨by simpa using hnul, FileTree.openEmpty_eq_ok hopen⟩
    · cases h

theorem fill_eq_ok {fault? : Option WriteFault} {q : Place} {bytes : ByteArray}
    (h : fill fault? q bytes t = .ok () u) : fault? = none ∧ u = t.fill q bytes := by
  cases fault? with
  | none =>
    cases h
    exact ⟨rfl, rfl⟩
  | some w => cases h

/-- Storing settings makes the directory of their file, opens the file and fills it, if the system
does not fail at that. -/
theorem store_eq_ok (h : store ⟨f, s⟩ env t = .ok () u) :
    ∃ t₁ q m, ensurePath f.parent t = .ok () t₁ ∧ f.hasNul = false ∧ t₁.Opens f q m ∧
      env.writeFault = none ∧ u = t₁.tick.putFile q (Text.toBytes (fileText s)) m := by
  obtain ⟨⟨⟩, t₁, hensure, h⟩ := bind_eq_ok.1 h
  obtain ⟨q, t₂, hopen, h⟩ := bind_eq_ok.1 h
  obtain ⟨hnul, m, hopens, rfl⟩ := openFile_eq_ok hopen
  obtain ⟨hfault, rfl⟩ := fill_eq_ok h
  exact ⟨t₁, q, m, hensure, hnul, hopens, hfault, FileTree.fill_putFile t₁ q _ m⟩

/-- What is stored is loaded. -/
theorem load_of_store (hopen : IsOpen t d) (hvalid : s.IsValid)
    (hstorable : s.IsStorable env.maxDigits)
    (h : store ⟨d.child place.fileName, s⟩ env t = .ok () u) :
    (d.child place.fileName).hasNul = false ∧
      u.read (d.child place.fileName) = .ok (Text.toBytes (fileText s)) ∧
      load env.settingsLimits (d.child place.fileName) u = .ok s u := by
  obtain ⟨t₁, q, m, hensure, hnul, hopens, -, rfl⟩ := store_eq_ok h
  -- the directory is there, so nothing has to be made
  obtain ⟨p, k, hfind⟩ := hopen.find
  have hsame : ensurePath d t = .ok () t :=
    ensureDirectories_of_find (Path.hasNul_child.1 hnul).1 hfind _
  obtain rfl : t = t₁ := by
    rw [Path.parent_child, hsame] at hensure
    exact (EStateM.Result.ok.inj hensure).2
  have hread : (t.tick.putFile q (Text.toBytes (fileText s)) m).read (d.child place.fileName) =
      .ok (Text.toBytes (fileText s)) :=
    FileTree.read_of_opens hopens fun _ _ _ _ => hopen.readable
  refine ⟨hnul, hread, ?_⟩
  rw [load_of_read hnul hread, ofBytes_fileText hvalid hstorable]
  rfl

/-- A text that is loaded is that of settings that are valid and can be stored. -/
theorem isStorable_of_load (h : load env.settingsLimits f t = .ok s u) :
    u = t ∧ s.IsValid ∧ s.IsStorable env.maxDigits := by
  have hkeeps : Keeps id (load env.settingsLimits f) := keeps_load _ f
  refine ⟨hkeeps.of_ok h, ?_⟩
  have hdefault : ∀ {v : FileTree}, (pure {} : FileOperation Settings) v = .ok s u →
      s.IsValid ∧ s.IsStorable env.maxDigits := by
    rintro _ ⟨⟩
    exact ⟨Settings.isValid_default, Settings.isStorable_default env.maxLength_le⟩
  obtain ⟨there, v, -, h⟩ := bind_eq_ok.1 h
  cases there with
  | false => exact hdefault h
  | true =>
    obtain ⟨r, w, -, h⟩ := bind_eq_ok.1 h
    cases r with
    | error e => exact hdefault h
    | ok bytes =>
      dsimp only at h
      cases hbytes : Text.ofBytes? bytes with
      | none =>
        rw [hbytes] at h
        cases h
      | some x =>
        rw [hbytes] at h
        dsimp only at h
        cases hparse : parse env.settingsLimits x with
        | ok s' =>
          rw [hparse] at h
          cases h
          exact isStorable_of_parse hparse
        | error e =>
          rw [hparse] at h
          cases h

end SettingsStore
end ShellConfig

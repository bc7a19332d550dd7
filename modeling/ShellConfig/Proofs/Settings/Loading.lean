import ShellConfig.Proofs.Service.Told
import ShellConfig.Proofs.Settings.Valid

/-!
# Loading settings

What is read of the file that settings are stored in. Main statements: `place_of_read`, that a file
which can be read is found where it is looked for; `ofBytes_of_isLegible` and
`ofBytes_of_not_isLegible`, which bytes stand for settings; and `settings_loaded`, what that means
for a service.
-/

namespace ShellConfig

open Operation FileOperation

namespace SettingsStore

variable {b : ByteArray} {env : Environment} {f : Path} {limits : Json.ReadLimits}
  {s s' : Settings} {t : FileTree}

/-! ### Bytes -/

/-- Bytes that hold settings: those of a text that is a value which passes the check. -/
def Holds (limits : Json.ReadLimits) (b : ByteArray) (s : Settings) : Prop :=
  ∃ x v, b = Text.toBytes x ∧ Json.read limits x = .ok v ∧ Settings.ofJson v = .ok s

/-- Bytes stand for the settings that they hold, and for the defaults if they hold none. -/
def StandFor (limits : Json.ReadLimits) (b : ByteArray) (s : Settings) : Prop :=
  Holds limits b s ∨ (∀ s', ¬Holds limits b s') ∧ s = {}

/-- Bytes that are read to their end: those of a text that breaks no limit of reading. -/
def IsLegible (limits : Json.ReadLimits) (b : ByteArray) : Prop :=
  ∃ x, b = Text.toBytes x ∧ ∀ e, Json.read limits x = .error e → e = .malformed

/-- The settings in bytes, or why these are refused. -/
def ofBytes (limits : Json.ReadLimits) (b : ByteArray) : Except Failure Settings :=
  match Text.ofBytes? b with
  | none => .error .undecodable
  | some x => parse limits x

theorem eq_of_toBytes {x y : Text} (h : Text.toBytes x = Text.toBytes y) : x = y := by
  have hx := Text.ofBytes?_toBytes x
  rw [h, Text.ofBytes?_toBytes] at hx
  exact (Option.some.inj hx).symm

theorem holds_toBytes {x : Text} :
    Holds limits (Text.toBytes x) s ↔
      ∃ v, Json.read limits x = .ok v ∧ Settings.ofJson v = .ok s := by
  constructor
  · rintro ⟨y, v, hbytes, hread, hcheck⟩
    obtain rfl := eq_of_toBytes hbytes
    exact ⟨v, hread, hcheck⟩
  · rintro ⟨v, hread, hcheck⟩
    exact ⟨x, v, rfl, hread, hcheck⟩

theorem Holds.eq (h : Holds limits b s) (h' : Holds limits b s') : s = s' := by
  obtain ⟨x, v, rfl, hread, hcheck⟩ := h
  obtain ⟨w, hread', hcheck'⟩ := holds_toBytes.1 h'
  rw [hread] at hread'
  cases hread'
  rw [hcheck] at hcheck'
  cases hcheck'
  rfl

theorem StandFor.eq_of_holds (h : StandFor limits b s) (h' : Holds limits b s') : s = s' := by
  rcases h with h | ⟨hnone, -⟩
  · exact h.eq h'
  · exact absurd h' (hnone s')

/-- Legible bytes stand for settings. -/
theorem ofBytes_of_isLegible (h : IsLegible limits b) :
    ∃ s, ofBytes limits b = .ok s ∧ StandFor limits b s := by
  obtain ⟨x, rfl, hlimits⟩ := h
  unfold ofBytes parse StandFor
  rw [Text.ofBytes?_toBytes]
  simp only [holds_toBytes]
  cases hread : Json.read limits x with
  | ok v =>
    dsimp only
    cases hcheck : Settings.ofJson v with
    | ok s => exact ⟨s, rfl, .inl ⟨v, rfl, hcheck⟩⟩
    | bad is =>
      refine ⟨{}, rfl, .inr ⟨?_, rfl⟩⟩
      rintro s ⟨_, hv, hs⟩
      cases hv
      rw [hcheck] at hs
      cases hs
  | error e =>
    obtain rfl := hlimits e hread
    refine ⟨{}, rfl, .inr ⟨?_, rfl⟩⟩
    rintro s ⟨_, hv, -⟩
    cases hv

/-- Other bytes are refused. -/
theorem ofBytes_of_not_isLegible (h : ¬IsLegible limits b) :
    ∃ e, ofBytes limits b = .error e ∧ (e = .undecodable ∨ ∃ x, e = .unread x) := by
  unfold ofBytes
  cases hbytes : Text.ofBytes? b with
  | none => exact ⟨.undecodable, rfl, .inl rfl⟩
  | some x =>
    obtain ⟨e, hread, hlimit⟩ : ∃ e, Json.read limits x = .error e ∧ e ≠ .malformed := by
      by_contra hnone
      refine h ⟨x, Text.ofBytes?_eq_some_iff.1 hbytes, fun e hread => ?_⟩
      by_contra hlimit
      exact hnone ⟨e, hread, hlimit⟩
    refine ⟨.unread e, ?_, .inr ⟨e, rfl⟩⟩
    dsimp only
    unfold parse
    rw [hread]
    cases e with
    | malformed => exact absurd rfl hlimit
    | tooManyDigits n => rfl
    | tooDeep o => rfl

theorem StandFor.isValid (h : StandFor limits b s) : s.IsValid := by
  rcases h with ⟨x, v, -, -, hcheck⟩ | ⟨-, rfl⟩
  · exact Settings.isValid_of_ofJson hcheck
  · exact Settings.isValid_default

/-! ### The file -/

theorem map_of_eq_ofExcept {α β : Type} {x : FileOperation α} {r : Except Failure α} (g : α → β)
    (h : x t = ofExcept r t) : (x >>= fun a => pure (g a)) t = ofExcept (r.map g) t := by
  cases r with
  | ok a => exact bind_of_ok h
  | error e => exact bind_of_error h

theorem load_of_read (hnul : f.hasNul = false) (hread : t.read f = .ok b) :
    load limits f t = ofExcept (ofBytes limits b) t := by
  obtain ⟨q, m, stamp, hfind, -⟩ := FileTree.read_eq_ok.1 hread
  have hexists : ask f (·.exists? f) t = .ok true t := by
    refine ask_eq_ok.2 ⟨rfl, .inr ⟨hnul, ?_⟩⟩
    unfold FileTree.exists?
    rw [hfind]
  have hquery : query f (·.read f) t = .ok b t := query_eq_ok.2 ⟨hnul, hread, rfl⟩
  unfold load ofBytes
  rw [bind_of_ok hexists, if_pos rfl, bind_of_ok (attempt_of_ok hquery)]
  dsimp only
  cases Text.ofBytes? b <;> rfl

def path (env : Environment) : Path := (directory env).child place.fileName

/-- Where making a directory fails, and not for want of the one above it, all depends on whether it
is there. -/
theorem ensureDirectories_of_error {d : Path} {e : Failure}
    (h : change d (·.mkdir d) t = .error e t) (he : isAbsence e = false) (n : Nat) :
    ensureDirectories n d t = alreadyThere d e t := by
  cases n with
  | zero =>
    unfold ensureDirectories ensureDirectory
    rw [bind_of_ok (attempt_of_error h)]
    exact congrFun (if_neg (ne_true_of_eq_false he)) t
  | succ n =>
    unfold ensureDirectories
    rw [bind_of_ok (attempt_of_error h)]
    exact congrFun (if_neg (ne_true_of_eq_false he)) t

theorem ensureDirectories_of_find {d : Path} {q : Place} {m : Mode} (hnul : d.hasNul = false)
    (hfind : t.find d = .ok (q, .dir m)) (n : Nat) : ensureDirectories n d t = .ok () t := by
  obtain ⟨hlocate, hnode⟩ := FileTree.find_eq_ok_iff.1 hfind
  have hmkdir : t.mkdir d = .error .fileExists := by
    unfold FileTree.mkdir
    obtain ⟨r, k, hr, hk⟩ : ∃ r k, t.locate d .entry = .ok r ∧ t.node? r = some k := by
      rcases FileTree.locate_entry hlocate with h | ⟨r, target, h, hlink⟩
      · exact ⟨q, _, h, hnode⟩
      · exact ⟨r, _, h, hlink⟩
    rw [hr]
    simp [hk]
  have hchange : change d (·.mkdir d) t = .error (.system ⟨.fileExists, d, none⟩) t :=
    change_eq_error.2 ⟨rfl, .inr ⟨hnul, .fileExists, hmkdir, rfl⟩⟩
  have hthere : alreadyThere d (.system ⟨.fileExists, d, none⟩) t = .ok () t := by
    have hask : ask d (·.isDirectory? d) t = .ok true t := by
      refine ask_eq_ok.2 ⟨rfl, .inr ⟨hnul, ?_⟩⟩
      unfold FileTree.isDirectory?
      rw [hfind]
    unfold alreadyThere
    rw [bind_of_ok hask]
    rfl
  rw [ensureDirectories_of_error hchange rfl, hthere]

/-- Where there is something at a further name, there is a directory. -/
theorem find_of_find_child {d : Path} {n : Text} {q : Place} {k : Node} (hstep : FileTree.IsStep n)
    (h : t.find (d.child n) = .ok (q, k)) : ∃ p m, t.find d = .ok (p, .dir m) := by
  obtain ⟨r, hr⟩ : ∃ r, t.locate (d.child n) .entry = .ok r := by
    rcases FileTree.locate_entry (FileTree.find_eq_ok_iff.1 h).1 with h | ⟨r, -, h, -⟩
    · exact ⟨q, h⟩
    · exact ⟨r, h⟩
  obtain ⟨-, -, p, hp, ⟨m, hm, -⟩, -⟩ := (FileTree.locate_child_iff hstep).1 hr
  exact ⟨p, m, FileTree.find_eq_ok_iff.2 ⟨hp, hm⟩⟩

/-- A file of settings that can be read is found where it is looked for first. -/
theorem place_of_read (hnul : (directory env).hasNul = false) (hread : t.read (path env) = .ok b) :
    place env t = .ok (path env) t := by
  obtain ⟨q, m, stamp, hfind, -⟩ := FileTree.read_eq_ok.1 hread
  obtain ⟨p, m', hdir⟩ := find_of_find_child ⟨by decide, by decide⟩ hfind
  have hensure : ensurePath (directory env) t = .ok () t := ensureDirectories_of_find hnul hdir _
  unfold place
  rw [bind_of_ok (attempt_of_ok hensure)]
  rfl

theorem ofEnvironment_of_read (hnul : (directory env).hasNul = false)
    (hread : t.read (path env) = .ok b) :
    ofEnvironment env t =
      ofExcept ((ofBytes env.settingsLimits b).map (mk (path env))) t := by
  have hnul' : (path env).hasNul = false := Path.hasNul_child.2 ⟨hnul, by decide⟩
  unfold ofEnvironment
  rw [bind_of_ok (place_of_read hnul hread)]
  exact map_of_eq_ofExcept _ (load_of_read hnul' hread)

theorem reload_of_read (env : Environment) {s : SettingsStore} (hnul : s.file.hasNul = false)
    (hread : t.read s.file = .ok b) :
    s.reload env t = ofExcept ((ofBytes env.settingsLimits b).map (mk s.file)) t :=
  map_of_eq_ofExcept _ (load_of_read hnul hread)

end SettingsStore

namespace Service

open SettingsStore

variable {b : ByteArray} {env : Environment} {e : Failure} {s : Settings} {v : Service}

/-! ### The service -/

/-- A service that works with the file of settings of an environment, or has not yet asked for it.
-/
def IsAt (env : Environment) (v : Service) : Prop := ∀ s ∈ v.settings, s.file = path env

theorem settingsStore_of_some {s : SettingsStore} (h : v.settings = some s) :
    settingsStore env v = .ok s v := by
  have hget : (get : ServiceOperation Service) v = .ok v v := rfl
  unfold settingsStore
  rw [bind_of_ok hget, h]
  rfl

theorem settingsStore_of_ok {s : SettingsStore} (h : v.settings = none)
    (hopen : ofEnvironment env v.store.files = .ok s v.store.files) :
    settingsStore env v = .ok s { v with settings := some s } := by
  have hget : (get : ServiceOperation Service) v = .ok v v := rfl
  unfold settingsStore
  rw [bind_of_ok hget, h]
  dsimp only
  rw [bind_of_ok (onFiles_of_ok hopen)]
  rfl

theorem settingsStore_of_error (h : v.settings = none)
    (hopen : ofEnvironment env v.store.files = .error e v.store.files) :
    settingsStore env v = .error e v := by
  have hget : (get : ServiceOperation Service) v = .ok v v := rfl
  unfold settingsStore
  rw [bind_of_ok hget, h]
  exact bind_of_error (onFiles_of_error hopen)

theorem currentSettings_of_read (hnul : (directory env).hasNul = false)
    (hread : v.store.files.read (path env) = .ok b) (hat : v.IsAt env) :
    (∀ s, ofBytes env.settingsLimits b = .ok s →
      currentSettings env v = .ok s { v with settings := some ⟨path env, s⟩ }) ∧
    ∀ e, ofBytes env.settingsLimits b = .error e → currentSettings env v = .error e v := by
  have hnul' : (path env).hasNul = false := Path.hasNul_child.2 ⟨hnul, by decide⟩
  have hreload : ∀ s : SettingsStore, s.file = path env →
      s.reload env v.store.files =
        ofExcept ((ofBytes env.settingsLimits b).map (SettingsStore.mk (path env)))
          v.store.files := by
    intro s hs
    have h := reload_of_read env (hs ▸ hnul' : s.file.hasNul = false) (hs ▸ hread)
    rwa [hs] at h
  have hopen := ofEnvironment_of_read hnul hread
  constructor
  · intro s hb
    rw [hb] at hreload hopen
    unfold currentSettings
    cases hv : v.settings with
    | some s' =>
      rw [bind_of_ok (settingsStore_of_some hv),
        bind_of_ok (onFiles_of_ok (hreload s' (hat s' hv)))]
      rfl
    | none =>
      have hagain : onFiles (reload ⟨path env, s⟩ env) { v with settings := some ⟨path env, s⟩ } =
          .ok ⟨path env, s⟩ { v with settings := some ⟨path env, s⟩ } :=
        onFiles_of_ok (hreload _ rfl)
      rw [bind_of_ok (settingsStore_of_ok hv hopen), bind_of_ok hagain]
      rfl
  · intro e hb
    rw [hb] at hreload hopen
    unfold currentSettings
    cases hv : v.settings with
    | some s' =>
      rw [bind_of_ok (settingsStore_of_some hv)]
      exact bind_of_error (onFiles_of_error (hreload s' (hat s' hv)))
    | none => exact bind_of_error (settingsStore_of_error hv hopen)

/-- **Loading settings.** Where the file of the settings can be read in its directory, opening the
settings and asking for them now succeed if its bytes are legible, and both give the settings that
the bytes stand for: those they hold, and the defaults if they hold none. These pass their own
check again. Bytes that are no text or break a limit of reading make both fail. The limits are those
of the environment, whatever they are. -/
theorem settings_loaded (hnul : (directory env).hasNul = false)
    (hread : v.store.files.read (path env) = .ok b) (hat : v.IsAt env) :
    (IsLegible env.settingsLimits b → ∃ s, StandFor env.settingsLimits b s ∧
      Settings.ofJson s.toJson = .ok s ∧
      ofEnvironment env v.store.files = .ok ⟨path env, s⟩ v.store.files ∧
      currentSettings env v = .ok s { v with settings := some ⟨path env, s⟩ }) ∧
    (¬IsLegible env.settingsLimits b → ∃ e, (e = .undecodable ∨ ∃ x, e = .unread x) ∧
      ofEnvironment env v.store.files = .error e v.store.files ∧
      currentSettings env v = .error e v) := by
  have hopen := ofEnvironment_of_read hnul hread
  obtain ⟨hok, herror⟩ := currentSettings_of_read hnul hread hat
  constructor
  · intro hlegible
    obtain ⟨s, hb, hstand⟩ := ofBytes_of_isLegible hlegible
    rw [hb] at hopen
    exact ⟨s, hstand, Settings.ofJson_toJson hstand.isValid, hopen, hok s hb⟩
  · intro hlegible
    obtain ⟨e, hb, he⟩ := ofBytes_of_not_isLegible hlegible
    rw [hb] at hopen
    exact ⟨e, he, hopen, herror e hb⟩

/-- A service that has not yet asked for its settings, with some bytes in their file. -/
def serviceWithSettings (b : ByteArray) : Service :=
  { sampleService
      [([".zshrc_manager".toList], .dir .directory),
        ([".zshrc_manager".toList, "config.json".toList], .file b .ordinary (.set 0))] with
    settings := none }

/-- A file that chooses the length of a preview. -/
def sevenLines : Text := "\x7b\"preview_max_lines\": 7\x7d".toList

/-- A byte that does not occur in text. -/
def noTextByte : ByteArray := ⟨#[0xFF]⟩

theorem isAt_serviceWithSettings (b : ByteArray) : (serviceWithSettings b).IsAt sampleEnvironment :=
  fun _ h => nomatch h

theorem settings_loaded_sevenLines :
    (directory sampleEnvironment).hasNul = false ∧
      (serviceWithSettings (Text.toBytes sevenLines)).store.files.read (path sampleEnvironment) =
        .ok (Text.toBytes sevenLines) ∧
      (serviceWithSettings (Text.toBytes sevenLines)).IsAt sampleEnvironment ∧
      IsLegible sampleEnvironment.settingsLimits (Text.toBytes sevenLines) ∧
      ∃ v', currentSettings sampleEnvironment (serviceWithSettings (Text.toBytes sevenLines)) =
        .ok { previewLines := 7 } v' := by
  have hnul : (directory sampleEnvironment).hasNul = false := by decide
  have hread : (serviceWithSettings (Text.toBytes sevenLines)).store.files.read
      (path sampleEnvironment) = .ok (Text.toBytes sevenLines) := by cbv
  have hat := isAt_serviceWithSettings (Text.toBytes sevenLines)
  obtain ⟨v, hvalue, hcheck⟩ : ∃ v,
      Json.read sampleEnvironment.settingsLimits sevenLines = .ok v ∧
      Settings.ofJson v = .ok { previewLines := 7 } :=
    ⟨.object [("preview_max_lines".toList, .nat 7)], by cbv, by cbv⟩
  have hlegible : IsLegible sampleEnvironment.settingsLimits (Text.toBytes sevenLines) := by
    refine ⟨sevenLines, rfl, fun e he => ?_⟩
    rw [hvalue] at he
    cases he
  obtain ⟨s, hstand, -, -, hcurrent⟩ := (settings_loaded hnul hread hat).1 hlegible
  obtain rfl : s = { previewLines := 7 } :=
    hstand.eq_of_holds (holds_toBytes.2 ⟨v, hvalue, hcheck⟩)
  exact ⟨hnul, hread, hat, hlegible, _, hcurrent⟩

/-- A file of settings of one byte that is no text can be read, yet opening the settings and asking
for them fail. -/
theorem settings_not_loaded :
    (directory sampleEnvironment).hasNul = false ∧
      (serviceWithSettings noTextByte).store.files.read (path sampleEnvironment) = .ok noTextByte ∧
      (serviceWithSettings noTextByte).IsAt sampleEnvironment ∧
      ofEnvironment sampleEnvironment (serviceWithSettings noTextByte).store.files =
        .error .undecodable (serviceWithSettings noTextByte).store.files ∧
      currentSettings sampleEnvironment (serviceWithSettings noTextByte) =
        .error .undecodable (serviceWithSettings noTextByte) := by
  have hnul : (directory sampleEnvironment).hasNul = false := by decide
  have hread : (serviceWithSettings noTextByte).store.files.read (path sampleEnvironment) =
      .ok noTextByte := by cbv
  have hat := isAt_serviceWithSettings noTextByte
  have hbytes : ofBytes sampleEnvironment.settingsLimits noTextByte = .error .undecodable := by cbv
  have hopen := ofEnvironment_of_read hnul hread
  rw [hbytes] at hopen
  exact ⟨hnul, hread, hat, hopen, (currentSettings_of_read hnul hread hat).2 _ hbytes⟩

end Service
end ShellConfig

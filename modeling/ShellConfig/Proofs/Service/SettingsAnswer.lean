import ShellConfig.Proofs.Service.ChangeAnswer
import ShellConfig.Proofs.Settings.Stored

/-!
# Settings replaced by a client

What a client is told of the settings once it has replaced some of them. Main statements:
`save_eq_ok`, what saving does; `load_of_answer`, what is in the file after an answer of success;
`respond_of_load`, what is told of the settings in the file; and `settings_replaced`, which puts
them together.
-/

namespace ShellConfig

open Operation FileOperation

namespace Service

open SettingsStore Settings

variable {a : Response} {b : Json} {c s : Settings} {d f p : Path} {env : Environment}
  {ms ns : List (Text × Json)} {name : Text} {r : Request} {v v' v₁ : Service}

/-! ### The request -/

theorem isInRange_of_bodyValue (h : bodyValue env r = .ok (some b)) :
    Json.IsInRange env.maxDigits b := by
  obtain ⟨-, t, -, hread⟩ := bodyValue_eq_ok.1 h
  exact Json.isInRange_of_read hread

theorem bodyRecord_eq_ok {α : Type} {check : List (Text × Json) → Checked α} {b? : Option Json}
    {x : α} (h : bodyRecord check b? = .ok x) :
    ∃ ms, b? = some (.object ms) ∧ check ms = .ok x := by
  have h := Checked.inside_eq_ok.1 h
  cases b? with
  | none => cases h
  | some b =>
    cases b with
    | object ms => exact ⟨ms, rfl, h⟩
    | _ => cases h

theorem isStorable_of_currentSettings (h : currentSettings env v = .ok s v₁) :
    s.IsValid ∧ s.IsStorable env.maxDigits := by
  obtain ⟨st, u, -, h⟩ := bind_eq_ok.1 h
  obtain ⟨st', w, hreload, h⟩ := bind_eq_ok.1 h
  obtain ⟨⟨⟩, x, hkeep, h⟩ := bind_eq_ok.1 h
  cases h
  obtain ⟨y, hreload, -⟩ := onStore_eq_ok.1 hreload
  obtain ⟨t, hreload, -⟩ := StoreOperation.onFiles_eq_ok.1 hreload
  obtain ⟨s', z, hload, h⟩ := bind_eq_ok.1 hreload
  cases h
  exact (isStorable_of_load hload).2

theorem save_of_bad {is : List Issue} (hsettings : v.settings = some ⟨f, s⟩)
    (h : s.update ms = .bad is) : save env ms v = .error (.invalid is) v := by
  unfold save
  rw [bind_of_ok (settingsStore_of_some hsettings)]
  dsimp only
  rw [h]
  rfl

/-- Settings that pass it are kept before they are stored. -/
theorem save_of_ok (hsettings : v.settings = some ⟨f, s⟩) (h : s.update ms = .ok c) :
    save env ms v =
      onFiles (SettingsStore.store ⟨f, c⟩ env) { v with settings := some ⟨f, c⟩ } := by
  have hkeep : keep ⟨f, c⟩ v = .ok () { v with settings := some ⟨f, c⟩ } := rfl
  unfold save
  rw [bind_of_ok (settingsStore_of_some hsettings)]
  dsimp only
  rw [h]
  exact bind_of_ok hkeep

/-- Saving replaces settings, keeps them and stores them. -/
theorem save_eq_ok (hsettings : v.settings = some ⟨f, s⟩) :
    save env ms v = .ok () v' ↔ ∃ c u, s.update ms = .ok c ∧
      SettingsStore.store ⟨f, c⟩ env v.store.files = .ok () u ∧
      v' = { v with settings := some ⟨f, c⟩, store := { v.store with files := u } } := by
  cases hupdate : s.update ms with
  | bad is =>
    rw [save_of_bad hsettings hupdate]
    refine ⟨nofun, ?_⟩
    rintro ⟨c, u, hc, -⟩
    cases hc
  | ok c =>
    rw [save_of_ok hsettings hupdate]
    constructor
    · intro h
      obtain ⟨w, hfiles, rfl⟩ := onStore_eq_ok.1 h
      obtain ⟨u, hstore, rfl⟩ := StoreOperation.onFiles_eq_ok.1 hfiles
      exact ⟨c, u, rfl, hstore, rfl⟩
    · rintro ⟨c', u, hc, hstore, rfl⟩
      cases hc
      exact onStore_eq_ok.2 ⟨_, StoreOperation.onFiles_of_ok hstore, rfl⟩

/-- Success is told only of settings that were saved. -/
theorem save_of_updateSettings (hload : currentSettings env v = .ok s v₁)
    (h : updateSettings env ms v = .ok a v') (hstatus : a.status = 200) :
    save env ms v₁ = .ok () v' := by
  unfold updateSettings at h
  rw [bind_of_ok hload] at h
  obtain ⟨x, u, hattempt, h⟩ := bind_eq_ok.1 h
  rcases attempt_eq_ok.1 hattempt with ⟨⟨⟩, rfl, hsave⟩ | ⟨e, rfl, -⟩
  · cases h
    exact hsave
  · cases e <;> cases h <;> cases hstatus

theorem save_of_answer (hfind : Route.find r = .ok (.updateSettings, name))
    (hload : currentSettings env v = .ok s v₁) (hanswer : answer env r v = (a, v'))
    (hstatus : a.status = 200) :
    ∃ ms ns, bodyValue env r = .ok (some (.object ms)) ∧ checkUpdate ms = .ok ns ∧
      save env ns v₁ = .ok () v' := by
  have hrun := respond_of_answer hanswer hstatus
  unfold respond at hrun
  rw [hfind] at hrun
  obtain ⟨b, hbody, haccept⟩ := withBody_eq_ok hrun hstatus
  obtain ⟨ns, hrecord, hupdate⟩ := accept_eq_ok haccept hstatus
  obtain ⟨ms, rfl, hcheck⟩ := bodyRecord_eq_ok hrecord
  exact ⟨ms, ns, hbody, hcheck, save_of_updateSettings hload hupdate hstatus⟩

theorem answer_of_save (hfind : Route.find r = .ok (.updateSettings, name))
    (hload : currentSettings env v = .ok s v₁) (hbody : bodyValue env r = .ok (some (.object ms)))
    (hcheck : checkUpdate ms = .ok ns) (hsave : save env ns v₁ = .ok () v') :
    answer env r v = (done "Configuration updated".toList, v') := by
  have hupdate : updateSettings env ns v = .ok (done "Configuration updated".toList) v' := by
    unfold updateSettings
    rw [bind_of_ok hload, bind_of_ok (attempt_of_ok hsave)]
    rfl
  have hrecord : bodyRecord checkUpdate (some (.object ms)) = .ok ns :=
    Checked.inside_eq_ok.2 hcheck
  refine answer_of_respond ?_
  unfold respond
  rw [hfind]
  change run env r name .updateSettings v = _
  unfold run withBody
  rw [hbody]
  dsimp only
  rw [hrecord]
  exact hupdate

/-! ### The answer -/

/-- Settings can be shown unless their path is no text. -/
theorem isShowable_toMembers (hpath : ∀ ps, c.path ≠ some (.broken ps)) (t : Text) :
    (Json.object (c.toMembers ++ [("resolved_path".toList, .text t)])).isShowable = true := by
  have hwording : (Json.ofWording? c.path).isShowable = true := by
    cases hw : c.path with
    | none => rfl
    | some w =>
      cases w with
      | text x => rfl
      | broken ps => exact absurd hw (hpath ps)
  have hformat : (Json.ofText? (c.headingFormat.map HeadingFormat.name)).isShowable = true := by
    cases c.headingFormat <;> rfl
  simp [toMembers, Json.isShowable, Json.membersShowable, hwording, hformat, Json.nat]

theorem shown_toMembers (hpath : ∀ ps, c.path ≠ some (.broken ps)) (t : Text) :
    Response.shown (.object (c.toMembers ++ [("resolved_path".toList, .text t)])) =
      .ok (.object (c.toMembers ++ [("resolved_path".toList, .text t)])) :=
  if_pos (isShowable_toMembers hpath t)

/-- The settings in the file are told if they can be shown, with the path of the file that they
select. -/
theorem respond_of_load (hfind : Route.find r = .ok (.settings, name))
    (hsettings : v.settings = some ⟨f, s⟩)
    (hload : load env.settingsLimits f v.store.files = .ok c v.store.files)
    (htarget : c.target? env.homeOf = some p) :
    respond env r v =
      .ok (.shown (.object (c.toMembers ++ [("resolved_path".toList, .text p.text)])))
        { v with settings := some ⟨f, c⟩ } := by
  have hreload : reload ⟨f, s⟩ env v.store.files = .ok ⟨f, c⟩ v.store.files := bind_of_ok hload
  have hcurrent : currentSettings env v = .ok c { v with settings := some ⟨f, c⟩ } := by
    unfold currentSettings
    rw [bind_of_ok (settingsStore_of_some hsettings), bind_of_ok (onFiles_of_ok hreload)]
    rfl
  have hselected : target env c { v with settings := some ⟨f, c⟩ } =
      .ok p { v with settings := some ⟨f, c⟩ } := by
    unfold target
    rw [htarget]
    rfl
  unfold respond
  rw [hfind]
  change settingsAnswer env v = _
  unfold settingsAnswer
  rw [bind_of_ok hcurrent, bind_of_ok hselected]
  rfl

/-- What a request that replaces settings has left in memory and in the file if it is answered with
success. -/
theorem load_of_answer (hfind : Route.find r = .ok (.updateSettings, name))
    (hload : currentSettings env v = .ok s v₁)
    (hfile : v₁.settings = some ⟨d.child place.fileName, s⟩) (hopen : IsOpen v₁.store.files d)
    (hanswer : answer env r v = (a, v')) (hstatus : a.status = 200) :
    ∃ ms c, bodyValue env r = .ok (some (.object ms)) ∧ Replaces ms s c ∧
      v'.settings = some ⟨d.child place.fileName, c⟩ ∧
      (d.child place.fileName).hasNul = false ∧
      v'.store.files.read (d.child place.fileName) = .ok (Text.toBytes (fileText c)) ∧
      load env.settingsLimits (d.child place.fileName) v'.store.files = .ok c v'.store.files := by
  obtain ⟨hvalid, hstorable⟩ := isStorable_of_currentSettings hload
  obtain ⟨ms, ns, hbody, hcheck, hsave⟩ := save_of_answer hfind hload hanswer hstatus
  obtain ⟨c, u, hupdate, hstore, rfl⟩ := (save_eq_ok hfile).1 hsave
  have hreplaces : Replaces ms s c :=
    replaces_of_checkUpdate hcheck ((update_eq_ok hvalid).1 hupdate)
  have hrange : ∀ m ∈ ms, Json.IsInRange env.maxDigits m.2 := by
    cases isInRange_of_bodyValue hbody with
    | object hms => exact hms
  exact ⟨ms, c, hbody, hreplaces, rfl,
    load_of_store hopen (hreplaces.isValid hvalid)
      (hreplaces.isStorable env.maxLength_le hstorable hrange) hstore⟩

/-- **Replacing settings.** Once its settings are loaded from a file that can be read, or that is
missing in its directory, a service that answers a request to replace some of them with success has
in this file the settings in which each that the body names is what is checked of its new value and
each other is as it was loaded. Opening the settings anew gives these, and so does asking for them,
unless the path among them is no text or begins with a user whose home directory is not known. -/
theorem settings_replaced {put get : Request} {name' : Text}
    (hput : Route.find put = .ok (.updateSettings, name))
    (hget : Route.find get = .ok (.settings, name')) (hload : currentSettings env v = .ok s v₁)
    (hfile : v₁.settings = some ⟨d.child place.fileName, s⟩) (hopen : IsOpen v₁.store.files d)
    (hanswer : answer env put v = (a, v')) (hstatus : a.status = 200) :
    ∃ ms c, bodyValue env put = .ok (some (.object ms)) ∧ Replaces ms s c ∧
      load env.settingsLimits (d.child place.fileName) v'.store.files = .ok c v'.store.files ∧
      (d = directory env →
        ofEnvironment env v'.store.files = .ok ⟨path env, c⟩ v'.store.files) ∧
      ∀ p, c.target? env.homeOf = some p → (∀ ps, c.path ≠ some (.broken ps)) →
        (answer env get v').1 =
          .ok (.object (c.toMembers ++ [("resolved_path".toList, .text p.text)])) := by
  obtain ⟨ms, c, hbody, hreplaces, hkept, hnul, hread, hreload⟩ :=
    load_of_answer hput hload hfile hopen hanswer hstatus
  refine ⟨ms, c, hbody, hreplaces, hreload, ?_, fun p htarget hpath => ?_⟩
  · rintro rfl
    have hplace := place_of_read (Path.hasNul_child.1 hnul).1 hread
    exact (bind_of_ok hplace).trans (bind_of_ok hreload)
  · rw [answer_of_respond (respond_of_load hget hkept hreload htarget), shown_toMembers hpath]

/-! ### Settings that were stored -/

/-- A service that has not yet asked for its settings, which are in their file. -/
def storedService (s : Settings) : Service := serviceWithSettings (Text.toBytes (fileText s))

def loadedService (s : Settings) : Service :=
  { storedService s with settings := some ⟨path sampleEnvironment, s⟩ }

def settingsRequest (body : Text) : Request where
  method := "PUT".toList
  path := "/api/config".toList
  body := body

theorem read_serviceWithSettings (b : ByteArray) :
    (serviceWithSettings b).store.files.read (path sampleEnvironment) = .ok b := by cbv

theorem isOpen_loadedService (s : Settings) :
    IsOpen (loadedService s).store.files (directory sampleEnvironment) :=
  .present (read_serviceWithSettings _)

theorem currentSettings_stored (hvalid : s.IsValid)
    (hstorable : s.IsStorable sampleEnvironment.maxDigits) :
    currentSettings sampleEnvironment (storedService s) = .ok s (loadedService s) :=
  (currentSettings_of_read (by decide) (read_serviceWithSettings _)
    (isAt_serviceWithSettings _)).1 s (ofBytes_fileText hvalid hstorable)

theorem store_serviceWithSettings (b : ByteArray) (c : Settings) :
    ∃ u, SettingsStore.store ⟨path sampleEnvironment, c⟩ sampleEnvironment
      (serviceWithSettings b).store.files = .ok () u := by
  have hfind : (serviceWithSettings b).store.files.find (directory sampleEnvironment) =
      .ok ([".zshrc_manager".toList], .dir .directory) := by cbv
  have hensure : ensurePath (directory sampleEnvironment) (serviceWithSettings b).store.files =
      .ok () (serviceWithSettings b).store.files :=
    ensureDirectories_of_find (by decide) hfind _
  obtain ⟨q, u, hopen⟩ : ∃ q u, openFile (path sampleEnvironment)
      (serviceWithSettings b).store.files = .ok q u := ⟨_, _, by cbv⟩
  exact ⟨_, bind_eq_ok.2 ⟨(), _, hensure, bind_eq_ok.2 ⟨q, u, hopen, rfl⟩⟩⟩

theorem answer_storedService (hvalid : s.IsValid)
    (hstorable : s.IsStorable sampleEnvironment.maxDigits)
    (hbody : bodyValue sampleEnvironment r = .ok (some (.object ms)))
    (hfind : Route.find r = .ok (.updateSettings, name)) (hcheck : checkUpdate ms = .ok ns)
    (hupdate : s.update ns = .ok c) :
    ∃ v', answer sampleEnvironment r (storedService s) =
      (done "Configuration updated".toList, v') := by
  obtain ⟨u, hstore⟩ := store_serviceWithSettings (Text.toBytes (fileText s)) c
  have hsave : save sampleEnvironment ns (loadedService s) = .ok () _ :=
    (save_eq_ok rfl).2 ⟨c, u, hupdate, hstore, rfl⟩
  exact ⟨_, answer_of_save hfind (currentSettings_stored hvalid hstorable) hbody hcheck hsave⟩

/-- Settings with a format and a short preview. -/
def hashSettings : Settings := { previewLines := 7, headingFormat := some .hash }

theorem isStorable_hashSettings : hashSettings.IsStorable sampleEnvironment.maxDigits := by
  have hseven : 7 < 10 ^ sampleEnvironment.maxDigits :=
    (by decide : 7 < 10 ^ 1).trans_le (Nat.pow_le_pow_right (by decide) (by decide))
  exact { isStorable_default sampleEnvironment.maxLength_le with
    path := nofun
    previewLines := hseven }

/-- A length written as a text, and no format. -/
def lengthBody : Text := "\x7b\"max_line_length\":\"80\",\"section_format\":null\x7d".toList

theorem settings_replaced_length :
    let v := storedService hashSettings
    let c : Settings := { maxLineLength := 80, previewLines := 7 }
    Route.find (settingsRequest lengthBody) = .ok (.updateSettings, []) ∧
      Route.find (plainRequest "GET" "/api/config") = .ok (.settings, []) ∧
      currentSettings sampleEnvironment v = .ok hashSettings (loadedService hashSettings) ∧
      IsOpen (loadedService hashSettings).store.files (directory sampleEnvironment) ∧
      ∃ a v', answer sampleEnvironment (settingsRequest lengthBody) v = (a, v') ∧
        a.status = 200 ∧
        ofEnvironment sampleEnvironment v'.store.files =
          .ok ⟨path sampleEnvironment, c⟩ v'.store.files ∧
        (answer sampleEnvironment (plainRequest "GET" "/api/config") v').1 =
          .ok (.object (c.toMembers ++ [("resolved_path".toList, .word "/.zshrc")])) := by
  intro v c
  have hvalid : hashSettings.IsValid := ⟨by decide, by decide, by decide⟩
  have hload := currentSettings_stored hvalid isStorable_hashSettings
  have hdecode : Json.decode? (Text.toBytes lengthBody) = some lengthBody := by decide +kernel
  have hread : Json.read sampleEnvironment.bodyLimits lengthBody = .ok (.object
      [("max_line_length".toList, .text "80".toList), ("section_format".toList, .null)]) := by cbv
  have hbody : bodyValue sampleEnvironment (settingsRequest lengthBody) = .ok (some (.object
      [("max_line_length".toList, .text "80".toList), ("section_format".toList, .null)])) :=
    bodyValue_eq_ok.2 ⟨List.cons_ne_nil _ _, _, hdecode, hread⟩
  have hcheck : checkUpdate [("max_line_length".toList, .text "80".toList),
      ("section_format".toList, .null)] =
      .ok [("max_line_length".toList, .int 80), ("section_format".toList, .null)] := by cbv
  have hupdate : Replaces [("max_line_length".toList, .int 80), ("section_format".toList, .null)]
      hashSettings c := ⟨rfl, rfl, rfl, rfl, rfl, rfl, rfl⟩
  obtain ⟨v', hanswer⟩ := answer_storedService hvalid isStorable_hashSettings hbody rfl hcheck
    ((update_eq_ok hvalid).2 hupdate)
  have hopen := isOpen_loadedService hashSettings
  have hget : Route.find (plainRequest "GET" "/api/config") = .ok (.settings, []) := rfl
  obtain ⟨ms, c', hbody', hreplaces, -, hnew, htold⟩ :=
    settings_replaced rfl hget hload rfl hopen hanswer rfl
  cases hbody.symm.trans hbody'
  obtain rfl : c' = c := hreplaces.eq hvalid (replaces_of_checkUpdate hcheck hupdate)
  have hshown : ∀ ps, c.path ≠ some (.broken ps) :=
    fun _ => (Option.some_ne_none _).symm
  exact ⟨rfl, hget, hload, hopen, _, v', hanswer, rfl, hnew rfl, htold _ rfl hshown⟩

/-- Half of a character that takes two, as a path. -/
def halfBody : Text := "\x7b\"zshrc_path\":\"\\ud800\"\x7d".toList

/-- A path that is no text is stored like any other, yet the settings cannot be told then. -/
theorem settings_replaced_not_told :
    let v := storedService {}
    let ms := [("zshrc_path".toList, Json.brokenText [.half 0xD800])]
    let c : Settings := { path := some (.broken [.half 0xD800]) }
    Route.find (settingsRequest halfBody) = .ok (.updateSettings, []) ∧
      Route.find (plainRequest "GET" "/api/config") = .ok (.settings, []) ∧
      currentSettings sampleEnvironment v = .ok {} (loadedService {}) ∧
      IsOpen (loadedService {}).store.files (directory sampleEnvironment) ∧
      bodyValue sampleEnvironment (settingsRequest halfBody) = .ok (some (.object ms)) ∧
      Replaces ms {} c ∧
      (∃ p, c.target? sampleEnvironment.homeOf = some p) ∧
      ∃ a v', answer sampleEnvironment (settingsRequest halfBody) v = (a, v') ∧
        a.status = 200 ∧
        load sampleEnvironment.settingsLimits (path sampleEnvironment) v'.store.files =
          .ok c v'.store.files ∧
        (answer sampleEnvironment (plainRequest "GET" "/api/config") v').1 = .broken := by
  intro v ms c
  have hdefault := isStorable_default sampleEnvironment.maxLength_le
  have hload := currentSettings_stored isValid_default hdefault
  have hdecode : Json.decode? (Text.toBytes halfBody) = some halfBody := by decide +kernel
  have hread : Json.read sampleEnvironment.bodyLimits halfBody = .ok (.object ms) := by cbv
  have hbody : bodyValue sampleEnvironment (settingsRequest halfBody) = .ok (some (.object ms)) :=
    bodyValue_eq_ok.2 ⟨List.cons_ne_nil _ _, _, hdecode, hread⟩
  have hcheck : checkUpdate ms = .ok ms := by cbv
  have hreplaces : Replaces ms {} c := ⟨rfl, rfl, rfl, rfl, rfl, rfl, rfl⟩
  obtain ⟨v', hanswer⟩ := answer_storedService isValid_default hdefault hbody rfl hcheck
    ((update_eq_ok isValid_default).2 hreplaces)
  have hopen := isOpen_loadedService {}
  obtain ⟨ms', c', hbody', hreplaces', hkept, -, -, hreload⟩ :=
    load_of_answer rfl hload rfl hopen hanswer rfl
  cases hbody.symm.trans hbody'
  obtain rfl : c' = c := hreplaces'.eq isValid_default hreplaces
  have htarget : c.target? sampleEnvironment.homeOf = some _ := rfl
  have hget : Route.find (plainRequest "GET" "/api/config") = .ok (.settings, []) := rfl
  refine ⟨rfl, hget, hload, hopen, hbody, hreplaces, ⟨_, htarget⟩, _, v', hanswer, rfl, hreload, ?_⟩
  rw [answer_of_respond (respond_of_load hget hkept hreload htarget)]
  rfl

end Service
end ShellConfig

import NotePress.Cli.Basic
import NotePress.Proofs.ListedProfiles
import NotePress.Proofs.WrittenFiles

/-!
# Settings files that are changed

The tool changes the profiles of a settings file: it loads a store, makes the changes one after the
other, and saves what the last one gives. A refused change ends the call before anything is saved,
so the disk stays as it is (`Cli.profiles_of_refused`). Accepted changes are saved over the file
(`Cli.readBytes_of_accepted`), also where a fresh store was loaded in place of settings that could
not be read; `failed_edits_keep_settings` says what then keeps the file.
-/

namespace NotePress

namespace Cli

variable {here path : Text} {d d' : Disk} {events : List StoreEvent} {json : Bool} {s : Store}

/-- Without changes nothing is written. -/
theorem profiles_nil (settings : Option Text) : (profiles here d settings [] json).2 = d := rfl

/-- **A refused change writes nothing**, whatever was accepted in front of it. -/
theorem profiles_of_refused {e : StoreError}
    (h : applyAll (Store.load d (Path.join here path)) events = .error e) :
    profiles here d (some path) events json = (failed [] ⟨e.message, []⟩, d) := by
  cases events with
  | nil => cases h
  | cons event rest =>
    have hchange : changeProfiles here d (some path) (event :: rest) =
        .error ⟨e.message, []⟩ := by
      unfold changeProfiles storeOf
      simp only [h]
      rfl
    unfold profiles
    rw [hchange]
    rfl

/-- Accepted changes write the store that the last one gives. -/
theorem profiles_of_accepted (hne : events ≠ [])
    (h : applyAll (Store.load d (Path.join here path)) events = .ok s)
    (hsave : s.save d (Path.join here path) = .ok d') :
    (profiles here d (some path) events json).2 = d' := by
  obtain ⟨event, rest, rfl⟩ := List.exists_cons_of_ne_nil hne
  have hchange : changeProfiles here d (some path) (event :: rest) = .ok (s, d') := by
    unfold changeProfiles storeOf
    simp only [h]
    show Except.bind (Except.mapError _ (s.save d (Path.join here path))) _ = _
    rw [hsave]
    rfl
  unfold profiles
  rw [hchange]
  rfl

/-- **Accepted changes replace the file.** -/
theorem readBytes_of_accepted {bytes : List UInt8} (hne : events ≠ [])
    (hfile : d.readBytes (Path.join here path) = .ok bytes)
    (h : applyAll (Store.load d (Path.join here path)) events = .ok s) :
    (profiles here d (some path) events json).2.readBytes (Path.join here path) =
      .ok (Text.encode (s.textFor (Path.join here path))) := by
  obtain ⟨d', hsave⟩ :=
    Disk.exists_write_of_readBytes (Text.encode (s.textFor (Path.join here path))) hfile
  rw [profiles_of_accepted hne h hsave]
  exact Disk.readBytes_of_write hsave

theorem perform_profiles {σ : Type} {u : Surroundings σ} {state : σ × Disk}
    {settings create delete activate : Option Text} :
    perform u (.profiles settings create delete activate json) state =
      ((profiles u.here state.2 settings (eventsOf create delete activate) json).1, state.1,
        (profiles u.here state.2 settings (eventsOf create delete activate) json).2) := rfl

/-- Settings that cannot be read count as a fresh store. -/
theorem load_of_unloadable {path : Text}
    (h : ∀ t s, d.readText path = .ok t → Store.parse t ≠ .ok s) :
    Store.load d path = .fresh := by
  unfold Store.load
  cases hread : d.readText path with
  | error e => rfl
  | ok t =>
    show Store.parseOrFresh t = .fresh
    unfold Store.parseOrFresh
    cases hparse : Store.parse t with
    | error e => rfl
    | ok s => exact absurd hparse (h t s hread)

end Cli

/-- **When changes that fail keep the settings file.** If a change is refused, the call fails and
the disk is as before. If the file holds no settings that can be read, it keeps its bytes exactly
when no change is asked for, or a change to a fresh store is refused, or the store that the changes
make of a fresh one is written in just these bytes. -/
theorem failed_edits_keep_settings {σ : Type} {u : Cli.Surroundings σ} {before after : σ × Disk}
    {path : Text} {create delete activate : Option Text} {json : Bool} {bytes : List UInt8}
    {answer : Cli.Answer} (hfile : before.2.readBytes (Path.join u.here path) = .ok bytes)
    (hafter : Cli.perform u (.profiles (some path) create delete activate json) before =
      (answer, after)) :
    (∀ e, Cli.applyAll (Store.load before.2 (Path.join u.here path))
        (Cli.eventsOf create delete activate) = .error e → answer.code = 1 ∧ after = before) ∧
    ((∀ t s, before.2.readText (Path.join u.here path) = .ok t → Store.parse t ≠ .ok s) →
      (after.2.readBytes (Path.join u.here path) = .ok bytes ↔
        Cli.eventsOf create delete activate = [] ∨
        (∃ e, Cli.applyAll .fresh (Cli.eventsOf create delete activate) = .error e) ∨
        ∃ s, Cli.applyAll .fresh (Cli.eventsOf create delete activate) = .ok s ∧
          Text.encode (s.textFor (Path.join u.here path)) = bytes)) := by
  rw [Cli.perform_profiles, Prod.mk.injEq] at hafter
  obtain ⟨rfl, rfl⟩ := hafter
  generalize Cli.eventsOf create delete activate = events
  refine ⟨fun e hrefused => ?_, fun hunloadable => ?_⟩
  · rw [Cli.profiles_of_refused hrefused]
    exact ⟨rfl, rfl⟩
  · have hload := Cli.load_of_unloadable hunloadable
    by_cases hnone : events = []
    · rw [hnone, Cli.profiles_nil]
      exact iff_of_true hfile (.inl rfl)
    · cases happly : Cli.applyAll .fresh events with
      | error e =>
        rw [Cli.profiles_of_refused (hload.symm ▸ happly)]
        exact iff_of_true hfile (.inr (.inl ⟨e, rfl⟩))
      | ok s =>
        rw [Cli.readBytes_of_accepted hnone hfile (hload.symm ▸ happly)]
        simp [hnone]

/-- A directory without programs. -/
def homeSurroundings : Cli.Surroundings Unit where
  here := "/home".toList
  temporary := "/tmp".toList
  compilerSetting := none
  pathOf? := fun _ _ => none
  run := fun job state => (.error (.notFound job.invocation.command), state)
  workspace := ⟨"/tmp/vault-export".toList, "document.md".toList⟩

/-- Settings in which the margin of a profile is a number. -/
def mistypedSettings : List (Data × Data) :=
  [(.text "profiles".toList, .map
    [(.text "Thesis".toList, .map [(.text "margin".toList, .int 2)])])]

/-- The text of the settings. -/
def mistypedText : Text := Json.writePretty 0 (.map mistypedSettings)

/-- A disk with a settings file. -/
def homeDisk (bytes : List UInt8) : Disk :=
  ⟨[(["home".toList], .directory), (["home".toList, "s.yaml".toList], .file bytes)]⟩

theorem parse_mistypedText : Store.parse mistypedText = .error .badProfile := by
  have hread : Yaml.read? mistypedText = some (.map mistypedSettings) :=
    (Json.read?_writePretty (by decide) (by decide)).trans rfl
  rw [Store.parse_of_read?_map hread]
  rfl

/-- Where the settings are. -/
def homeSettings : Text := Path.join homeSurroundings.here "s.yaml".toList

theorem readBytes_homeDisk (bytes : List UInt8) :
    (homeDisk bytes).readBytes homeSettings = .ok bytes := rfl

theorem unloadable_mistypedText : ∀ t s,
    (homeDisk (Text.encode mistypedText)).readText homeSettings = .ok t → Store.parse t ≠ .ok s := by
  intro t s hread
  unfold Disk.readText at hread
  rw [readBytes_homeDisk] at hread
  simp only [Except.bind, Text.decode?_encode, Except.ok.injEq] at hread
  rw [← hread, parse_mistypedText]
  nofun

/-- Asks for changes of the mistyped settings. -/
def askMistyped (create delete activate : Option Text) : Cli.Request :=
  .profiles (some "s.yaml".toList) create delete activate false

/-- A refused change keeps settings that cannot be read. -/
theorem failed_edits_keep_settings_mistyped : ∃ answer d',
    Cli.perform homeSurroundings (askMistyped (some "Slides".toList) none (some "Gone".toList))
        ((), homeDisk (Text.encode mistypedText)) = (answer, (), d') ∧
      answer.code = 1 ∧ d'.readBytes homeSettings = .ok (Text.encode mistypedText) := by
  have hgone : Cli.applyAll .fresh
      (Cli.eventsOf (some "Slides".toList) none (some "Gone".toList)) =
      .error (.unknownProfile "Gone".toList) := rfl
  have hunloadable := unloadable_mistypedText
  generalize mistypedText = t at hunloadable ⊢
  have hload := Cli.load_of_unloadable hunloadable
  rcases hafter : Cli.perform homeSurroundings
    (askMistyped (some "Slides".toList) none (some "Gone".toList)) ((), homeDisk (Text.encode t))
    with ⟨answer, ⟨⟩, d'⟩
  obtain ⟨hrefused, hkept⟩ := @failed_edits_keep_settings Unit homeSurroundings
    ((), homeDisk (Text.encode t)) ((), d') "s.yaml".toList _ _ _ _ _ answer
    (readBytes_homeDisk _) hafter
  exact ⟨answer, d', rfl, (hrefused _ ((congrArg (Cli.applyAll · _) hload).trans hgone)).1,
    (hkept hunloadable).mpr (.inr (.inl ⟨_, hgone⟩))⟩

/-- The settings that are written in place of those that cannot be read. -/
def slidesStore : Store := ⟨Store.defaultName, [(Store.defaultName, {}), ("Slides".toList, {})]⟩

/-- **Settings that cannot be read are lost**: a profile is added to a fresh store, which is written
over them. -/
theorem unloaded_settings_lost :
    (homeDisk (Text.encode mistypedText)).readBytes homeSettings = .ok (Text.encode mistypedText) ∧
      Store.parse mistypedText = .error .badProfile ∧
      (Cli.perform homeSurroundings (askMistyped (some "Slides".toList) none none)
        ((), homeDisk (Text.encode mistypedText))).2.2.readBytes homeSettings =
        .ok (Text.encode slidesStore.toYaml) ∧
      Text.encode slidesStore.toYaml ≠ Text.encode mistypedText := by
  refine ⟨readBytes_homeDisk _, parse_mistypedText, ?_, by decide +kernel⟩
  have hadded : Cli.applyAll .fresh (Cli.eventsOf (some "Slides".toList) none none) =
      .ok slidesStore := rfl
  have htext : slidesStore.textFor homeSettings = slidesStore.toYaml := if_neg (by decide)
  have hunloadable := unloadable_mistypedText
  generalize mistypedText = t at hunloadable ⊢
  have hload := Cli.load_of_unloadable hunloadable
  rw [← htext, askMistyped, Cli.perform_profiles]
  exact Cli.readBytes_of_accepted (List.cons_ne_nil _ _) (readBytes_homeDisk _)
    ((congrArg (Cli.applyAll · _) hload).trans hadded)

end NotePress

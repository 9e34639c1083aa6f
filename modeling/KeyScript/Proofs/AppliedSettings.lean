import KeyScript.Proofs.AcceptedSettings

/-!
What an accepted settings document does to settings. The schema lets a value pass
only if the reader of its name can read it, so applying the document never fails:
it changes the settings that it gives a value to and no others, and every value
that it puts in place is one that a run can work with.
-/

namespace KeyScript

open Yaml (Value)

namespace Schema

theorem read_of_duration {v : Value} (passed : Rule.duration.check v = none) :
    ∃ text length, v.text? = some text ∧ Duration.read text = .ok length ∧ 0 ≤ length := by
  simp only [Rule.check] at passed
  split at passed
  · cases passed
  · rename_i text given
    by_cases valid : isDuration text
    · simp only [isDuration] at valid
      split at valid
      · rename_i length read
        exact ⟨text, length, given, read, of_decide_eq_true valid⟩
      · cases valid
    · simp [valid] at passed

theorem bool_of_truth {v : Value} (passed : Rule.truth.check v = none) :
    ∃ b, v.bool? = some b := by
  simp only [Rule.check] at passed
  split at passed
  · exact Option.isSome_iff_exists.mp ‹_›
  · cases passed

theorem int_of_millis {v : Value} (passed : Rule.millis.check v = none) :
    ∃ n, v.int? = some n ∧ InRange n := by
  cases whole : v.int? with
  | none => simp [Rule.check, whole] at passed
  | some n => exact ⟨n, rfl, inRange_of_check passed whole⟩

theorem word_of_oneOf {words : List Text} {v : Value}
    (passed : (Rule.oneOf words).check v = none) : ∃ word ∈ words, v.text? = some word := by
  simp only [Rule.check] at passed
  split at passed
  · rename_i found
    obtain ⟨word, given, member⟩ := (Option.any_eq_true ..).mp found
    exact ⟨word, List.contains_iff_mem.mp member, given⟩
  · cases passed

end Schema

/-- The value that a document gives to a name. -/
def Yaml.Value.given? (doc : Value) (name : String) : Option Value :=
  match doc with
  | .map entries _ => entries.lookup (.text (utf8 name))
  | _ => none

/-- The words for log levels that a document can use. -/
def Level.words : List (Text × Level) :=
  [(utf8 "debug", debug), (utf8 "info", info), (utf8 "warn", warn), (utf8 "error", error)]

theorem Level.read_of_mem_words {word : Text} {level : Level} (h : (word, level) ∈ words) :
    word ≠ [] ∧ Level.read word = .ok level := by
  simp only [words, List.mem_cons, Prod.mk.injEq, List.not_mem_nil, or_false] at h
  rcases h with ⟨rfl, rfl⟩ | ⟨rfl, rfl⟩ | ⟨rfl, rfl⟩ | ⟨rfl, rfl⟩ <;> exact ⟨by decide, rfl⟩

/-- A setting that a document has given a value to was read from it by `Reads`; any other is what
it was before. -/
def Overlays {α : Type} (given : Option Value) (before after : α) (Reads : Value → Prop) : Prop :=
  match given with
  | none => after = before
  | some v => Reads v

theorem overlays_of_cases {α : Type} {given : Option Value} {before after : α}
    {Reads : Value → Prop} (absent : given = none → after = before)
    (present : ∀ v, given = some v → Reads v) : Overlays given before after Reads := by
  cases given with
  | none => exact absent rfl
  | some v => exact present v rfl

/-- The settings `after` are those `before` with a document over them, and what comes from the
document is in its range. -/
structure Settings.Under (doc : Value) (before after : Settings) : Prop where
  pause : Overlays (doc.given? "pause") before.pause after.pause fun v =>
    ∃ text, v.text? = some text ∧ Duration.read text = .ok after.pause ∧ 0 ≤ after.pause
  failSafe : Overlays (doc.given? "failsafe") before.failSafe after.failSafe fun v =>
    v.bool? = some after.failSafe
  defaultDelay : Overlays (doc.given? "default_delay") before.defaultDelay after.defaultDelay
    fun v => v.int? = some after.defaultDelay ∧ InRange after.defaultDelay
  logLevel : Overlays (doc.given? "log_level") before.logLevel after.logLevel fun v =>
    ∃ word, v.text? = some word ∧ (word, after.logLevel) ∈ Level.words
  backend : Overlays (doc.given? "backend") before.backend after.backend fun v =>
    v.text? = some after.backend ∧ after.backend ∈ [Backend.xdotool, Backend.dryRun]

namespace Overrides

theorem ofEntries_eq (entries : List (Yaml.Atom × Value)) :
    let doc := Value.map entries false
    ofEntries entries =
      { version := ((doc.given? "version").bind Value.text?).getD []
        pause := ((doc.given? "pause").bind Value.text?).getD []
        failSafe := (doc.given? "failsafe").bind Value.bool?
        defaultDelay := (doc.given? "default_delay").bind Value.int?
        logLevel := ((doc.given? "log_level").bind Value.text?).getD []
        backend := ((doc.given? "backend").bind Value.text?).getD [] } :=
  rfl

section

variable {entries : List (Yaml.Atom × Value)}
  (accepted : Schema.failings (.map entries false) = [])
include accepted

theorem pauseOver_ofEntries (present : Nanos) :
    ∃ pause, (ofEntries entries).pauseOver present = .ok pause ∧
      Overlays ((Value.map entries false).given? "pause") present pause fun v =>
        ∃ text, v.text? = some text ∧ Duration.read text = .ok pause ∧ 0 ≤ pause := by
  cases given : (Value.map entries false).given? "pause" with
  | none => exact ⟨present, by simp [pauseOver, ofEntries_eq, given], rfl⟩
  | some v =>
      obtain ⟨text, length, found, read, low⟩ :=
        Schema.read_of_duration (Schema.check_of_accepted accepted (by decide) given)
      -- The empty text asks for nothing, but the schema does not let it pass.
      have filled : text ≠ [] := by
        rintro rfl
        cases read
      refine ⟨length, ?_, text, found, read, low⟩
      simp [pauseOver, ofEntries_eq, given, found, filled, read]

theorem logLevelOver_ofEntries (present : Level) :
    ∃ level, (ofEntries entries).logLevelOver present = .ok level ∧
      Overlays ((Value.map entries false).given? "log_level") present level fun v =>
        ∃ word, v.text? = some word ∧ (word, level) ∈ Level.words := by
  cases given : (Value.map entries false).given? "log_level" with
  | none => exact ⟨present, by simp [logLevelOver, ofEntries_eq, given], rfl⟩
  | some v =>
      have known : (utf8 "log_level", .oneOf (Level.words.map (·.1))) ∈ Schema.rules := by decide
      obtain ⟨word, listed, found⟩ :=
        Schema.word_of_oneOf (Schema.check_of_accepted accepted known given)
      obtain ⟨⟨_, level⟩, member, rfl⟩ := List.mem_map.mp listed
      obtain ⟨filled, read⟩ := Level.read_of_mem_words member
      refine ⟨level, ?_, _, found, member⟩
      simp [logLevelOver, ofEntries_eq, given, found, filled, read]

theorem apply_ofEntries (s : Settings) :
    ∃ s', (ofEntries entries).apply s = (s', none) ∧ s.Under (.map entries false) s' := by
  obtain ⟨pause, readPause, pauseOk⟩ := pauseOver_ofEntries accepted s.pause
  obtain ⟨level, readLevel, levelOk⟩ := logLevelOver_ofEntries accepted s.logLevel
  simp only [apply, readPause, readLevel]
  refine ⟨_, rfl, pauseOk, overlays_of_cases ?_ ?_, overlays_of_cases ?_ ?_, levelOk,
    overlays_of_cases ?_ ?_⟩
  · intro absent
    simp [ofEntries_eq, absent]
  · intro v given
    obtain ⟨b, found⟩ :=
      Schema.bool_of_truth (Schema.check_of_accepted accepted (by decide) given)
    simp [ofEntries_eq, given, found]
  · intro absent
    simp [ofEntries_eq, absent]
  · intro v given
    obtain ⟨n, found, range⟩ :=
      Schema.int_of_millis (Schema.check_of_accepted accepted (by decide) given)
    simp [ofEntries_eq, given, found, range]
  · intro absent
    simp [ofEntries_eq, absent]
  · intro v given
    have known : (utf8 "backend", .oneOf [Backend.xdotool, Backend.dryRun]) ∈ Schema.rules := by
      decide
    obtain ⟨word, listed, found⟩ :=
      Schema.word_of_oneOf (Schema.check_of_accepted accepted known given)
    have filled : word ≠ [] := by
      rintro rfl
      revert listed
      decide
    simpa [ofEntries_eq, given, found, filled] using listed

end

/-- Applying what an accepted document asks for never fails. -/
theorem apply_of_accepted {t : Text} {o : Overrides} (h : ofText t = .ok o) (s : Settings) :
    ∃ doc s', Value.ofText? t = some doc ∧ o.apply s = (s', none) ∧ s.Under doc s' := by
  simp only [ofText] at h
  split at h
  · cases h
  · rename_i doc read
    obtain ⟨rfl, rfl⟩ | ⟨entries, rfl, accepted, rfl⟩ := ofValue_cases h
    · exact ⟨_, s, read, rfl, rfl, rfl, rfl, rfl, rfl⟩
    · obtain ⟨s', applied, under⟩ := apply_ofEntries accepted s
      exact ⟨_, s', read, applied, under⟩

end Overrides

namespace Settings

theorem Under.backend_mem {doc : Value} {s s' : Settings} (h : s.Under doc s')
    (before : s.backend ∈ [Backend.xdotool, Backend.dryRun]) :
    s'.backend ∈ [Backend.xdotool, Backend.dryRun] := by
  have overlays := h.backend
  simp only [Overlays] at overlays
  split at overlays
  · rw [overlays]
    exact before
  · exact overlays.2

theorem ofText_backend {t : Text} {s : Settings} (h : ofText t = .ok s) :
    s.backend ∈ [Backend.xdotool, Backend.dryRun] := by
  simp only [ofText] at h
  split at h
  · cases h
  · rename_i o read
    obtain ⟨doc, s', -, applied, under⟩ := Overrides.apply_of_accepted read {}
    rw [applied] at h
    cases h
    exact under.backend_mem (by decide)

theorem load_backend {disk : Disk} {home path : Text} {s : Settings}
    (h : load disk home path = .ok s) : s.backend ∈ [Backend.xdotool, Backend.dryRun] := by
  obtain rfl | ⟨t, read⟩ := load_eq_ok h
  · decide
  · exact ofText_backend read

theorem ofText_ne_override {t : Text} {cause : LoadCause} (h : ofText t = .error cause)
    (fault : OverrideFault) : cause ≠ .override fault := by
  simp only [ofText] at h
  split at h
  · cases h
    simp
  · rename_i o read
    obtain ⟨doc, s', -, applied, -⟩ := Overrides.apply_of_accepted read {}
    rw [applied] at h
    cases h

theorem load_ne_override {disk : Disk} {home path : Text} {fault : LoadFault}
    (h : load disk home path = .error fault) (f : OverrideFault) :
    fault.cause ≠ .override f := by
  simp only [load] at h
  split at h
  · cases h
    simp
  · split at h
    · split at h
      · cases h
      · cases h
        simp
    · split at h
      · cases h
      · rename_i read
        cases h
        exact ofText_ne_override read f

end Settings

theorem Outlet.ofSettings_of_backend {s : Settings}
    (h : s.backend ∈ [Backend.xdotool, Backend.dryRun]) (standIn : Bool) :
    ∃ outlet, Outlet.ofSettings s standIn = .ok outlet := by
  simp only [ofSettings]
  split
  · exact ⟨_, rfl⟩
  · split
    · exact ⟨_, rfl⟩
    · split
      · exact ⟨_, rfl⟩
      · simp_all

theorem Options.settings_backend {o : Options} {w : Surroundings} {s : Settings}
    (unasked : o.backend = none) (h : o.settings w = .ok s) :
    s.backend ∈ [Backend.xdotool, Backend.dryRun] := by
  simp only [settings] at h
  split at h
  · cases h
  · rename_i file loaded
    split at h
    · cases h
    · cases h
      simp only [unasked, Option.getD_none]
      split
      · decide
      · exact Settings.load_backend loaded

/-- Whatever the schema accepts can be applied, to any settings: those that the document gives no
value to stay as they are, and the others get one that is in range. So no settings file fails when
it is applied, and without a flag for it the backend is always one that there is. -/
theorem accepted_settings_apply :
    (∀ t o, Overrides.ofText t = .ok o → ∀ s : Settings, ∃ doc s',
      Value.ofText? t = some doc ∧ o.apply s = (s', none) ∧ s.Under doc s') ∧
    (∀ disk home path fault, Settings.load disk home path = .error fault →
      ∀ f, fault.cause ≠ .override f) ∧
    ∀ (o : Options) (w : Surroundings) (s : Settings), o.backend = none → o.settings w = .ok s →
      ∀ standIn, ∃ outlet, Outlet.ofSettings s standIn = .ok outlet := by
  refine ⟨fun t o accepted s => Overrides.apply_of_accepted accepted s, ?_, ?_⟩
  · intro disk home path fault failed f
    exact Settings.load_ne_override failed f
  · intro o w s unasked found standIn
    exact Outlet.ofSettings_of_backend (Options.settings_backend unasked found) standIn

/-- Three settings come from the file and two are what they were. -/
theorem accepted_settings_apply_some :
    let text := utf8 "version: 1.0.0\npause: 1m30s\nlog_level: debug\nbackend: dry-run\n"
    let before : Settings := { failSafe := false, defaultDelay := 7 }
    let after : Settings :=
      { pause := 90000000000, failSafe := false, defaultDelay := 7, logLevel := Level.debug,
        backend := Backend.dryRun }
    let w : Surroundings := { disk := fun _ => .ok (.file text), home := [] }
    (∃ o doc, Overrides.ofText text = .ok o ∧ Value.ofText? text = some doc ∧
      o.apply before = (after, none) ∧ before.Under doc after) ∧
    ∃ s outlet, ({ config := utf8 "c" } : Options).settings w = .ok s ∧
      Outlet.ofSettings s false = .ok outlet := by
  intro text before after w
  have computed : ((Overrides.ofText text).toOption.map (·.apply before) = some (after, none)) ∧
      (({ config := utf8 "c" } : Options).settings w).toOption.isSome := by
    decide +kernel
  obtain ⟨applies, -, opens⟩ := accepted_settings_apply
  constructor
  · cases accepted : Overrides.ofText text with
    | error fault => simp [accepted, Except.toOption] at computed
    | ok o =>
        obtain ⟨doc, s', read, applied, under⟩ := applies text o accepted before
        rw [accepted] at computed
        have result : o.apply before = (after, none) := Option.some.inj computed.1
        obtain rfl : s' = after := congrArg Prod.fst (applied.symm.trans result)
        exact ⟨o, doc, rfl, read, result, under⟩
  · cases found : ({ config := utf8 "c" } : Options).settings w with
    | error fault => simp [found, Except.toOption] at computed
    | ok s =>
        obtain ⟨outlet, opened⟩ := opens _ w s rfl found false
        exact ⟨s, outlet, rfl, opened⟩

end KeyScript

import KeyScript.CommandLine.Perform

/-!
What settings can be relied on. A document is accepted when no rule of the
schema fails, so each value that is taken from it passes the rule of its name,
and whatever the flags put in its place passes a check of its own.
-/

namespace KeyScript

/-- A wait that may be asked for, in milliseconds. -/
def InRange (ms : Int) : Prop :=
  0 ≤ ms ∧ ms ≤ maxMillis

instance (ms : Int) : Decidable (InRange ms) :=
  inferInstanceAs (Decidable (_ ∧ _))

namespace Schema

open Yaml (Value)

/-- An accepted document satisfies the rule of every name that it gives a value to. -/
theorem check_of_accepted {entries : List (Yaml.Atom × Value)} {repeated : Bool} {name : Text}
    {rule : Rule} {v : Value} (accepted : failings (.map entries repeated) = [])
    (known : (name, rule) ∈ rules) (given : entries.lookup (.text name) = some v) :
    rule.check v = none := by
  have count := congrArg List.length accepted
  simp only [failings, List.length_mergeSort, List.length_nil, List.length_eq_zero_iff,
    List.append_eq_nil_iff, List.filterMap_eq_nil_iff] at count
  have passed := count.2 (name, rule) known
  simpa only [given, Option.bind_some, checkEntry, Option.map_eq_none_iff] using passed

/-- The bound of the schema is the one that commands keep to. -/
theorem longestDelay_eq : longestDelay = maxMillis := rfl

theorem inRange_of_check {v : Value} (passed : Rule.millis.check v = none) {n : Int}
    (whole : v.int? = some n) : InRange n := by
  simp only [Rule.check, whole] at passed
  by_cases low : n < 0
  · simp [low] at passed
  · by_cases high : (longestDelay : Int) < n
    · simp [low, high] at passed
    · exact ⟨Int.not_lt.mp low, longestDelay_eq ▸ Int.not_lt.mp high⟩

end Schema

namespace Overrides

/-- An accepted document is empty, or a mapping that no rule complains about. -/
theorem ofValue_cases {v : Yaml.Value} {o : Overrides} (h : ofValue v = .ok o) :
    v = .atom .null ∧ o = {} ∨
      ∃ entries, v = .map entries false ∧ Schema.failings v = [] ∧ o = ofEntries entries := by
  unfold ofValue at h
  split at h
  · cases h
    exact .inl ⟨rfl, rfl⟩
  · split at h
    · cases h
    · split at h
      · rename_i accepted
        split at h
        · cases h
        · rename_i once
          rw [Bool.not_eq_true] at once
          subst once
          simp only [checkVersion] at h
          split at h
          · cases h
            exact .inr ⟨_, rfl, accepted, rfl⟩
          · cases h
      · cases h

theorem ofValue_inRange {v : Yaml.Value} {o : Overrides} (h : ofValue v = .ok o) {n : Int}
    (asked : o.defaultDelay = some n) : InRange n := by
  obtain ⟨-, rfl⟩ | ⟨entries, rfl, accepted, rfl⟩ := ofValue_cases h
  · cases asked
  · obtain ⟨given, found, whole⟩ := Option.bind_eq_some_iff.mp asked
    apply Schema.inRange_of_check _ whole
    exact Schema.check_of_accepted accepted (by decide) found

theorem apply_defaultDelay {o : Overrides} {s s' : Settings} (h : o.apply s = (s', none)) :
    s'.defaultDelay = o.defaultDelay.getD s.defaultDelay := by
  simp only [apply] at h
  split at h
  · cases h
  · split at h
    · cases h
    · cases h
      rfl

end Overrides

theorem Settings.ofText_inRange {t : Text} {s : Settings} (h : Settings.ofText t = .ok s) :
    InRange s.defaultDelay := by
  simp only [Settings.ofText] at h
  split at h
  · cases h
  · rename_i o read
    split at h
    · rename_i applied
      cases h
      rw [Overrides.apply_defaultDelay applied]
      cases asked : o.defaultDelay with
      | none => decide
      | some n =>
          simp only [Overrides.ofText] at read
          split at read
          · cases read
          · exact Overrides.ofValue_inRange read asked
    · cases h

/-- Settings that were loaded are the usual ones or those of some text. -/
theorem Settings.load_eq_ok {disk : Disk} {home path : Text} {s : Settings}
    (h : Settings.load disk home path = .ok s) : s = {} ∨ ∃ t, Settings.ofText t = .ok s := by
  simp only [Settings.load] at h
  split at h
  · cases h
  · split at h
    · split at h
      · cases h
        exact .inl rfl
      · cases h
    · split at h
      · rename_i read
        cases h
        exact .inr ⟨_, read⟩
      · cases h

/-- Whatever settings file is accepted, its default delay is in range. -/
theorem Settings.load_inRange {disk : Disk} {home path : Text} {s : Settings}
    (h : Settings.load disk home path = .ok s) : InRange s.defaultDelay := by
  obtain rfl | ⟨t, read⟩ := Settings.load_eq_ok h
  · decide
  · exact Settings.ofText_inRange read

namespace Options

theorem delayOver_inRange {o : Options} {present d : Int} (before : InRange present)
    (h : o.delayOver present = .ok d) : InRange d := by
  simp only [delayOver] at h
  split at h
  · cases h
    exact before
  · split at h
    · cases h
    · split at h
      · cases h
      · rename_i low high
        cases h
        exact ⟨Int.not_lt.mp low, Int.not_lt.mp high⟩

/-- Whatever settings file and flags are accepted together, the default delay is in range. -/
theorem settings_inRange {o : Options} {w : Surroundings} {s : Settings}
    (h : o.settings w = .ok s) : InRange s.defaultDelay := by
  simp only [settings] at h
  split at h
  · cases h
  · rename_i file loaded
    split at h
    · cases h
    · rename_i d asked
      cases h
      exact delayOver_inRange (Settings.load_inRange loaded) asked

end Options

end KeyScript

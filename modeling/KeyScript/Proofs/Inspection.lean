import Mathlib.Data.List.Basic
import KeyScript.Proofs.DelayRange
import KeyScript.Proofs.Difference
import KeyScript.Proofs.Lines
import KeyScript.Proofs.Watching
import KeyScript.Proofs.Words

/-!
The ways to look at a script without running it. All of them load it and look at
its plan, so they fail alike and, when they do not, they show the same plan. The
path and the settings are in what is shown, or nowhere; they are not in what the
digest is taken of.
-/

namespace KeyScript
namespace Text

theorem newline_notMem_ofInt (n : Int) : newline ∉ ofInt n :=
  notMem_ofInt (by decide) (by decide) n

theorem newline_notMem_chord {keys : List Text} (h : ∀ key ∈ keys, newline ∉ key) :
    newline ∉ Action.chord keys := by
  have plus : newline ∉ utf8 "+" := by decide
  induction keys with
  | nil => exact List.not_mem_nil
  | cons key rest ih =>
      obtain ⟨first, others⟩ := List.forall_mem_cons.mp h
      cases rest with
      | nil => simpa [Action.chord, join] using first
      | cons next rest =>
          rw [Action.chord, join, List.intercalate_cons_cons, List.mem_append, List.mem_append,
            not_or, not_or]
          exact ⟨⟨first, plus⟩, ih others⟩

theorem newline_notMem_hexNat (width n : Nat) : newline ∉ hexNat width n := by
  have digits : ∀ d < 16, hexDigit d ≠ newline := by decide
  induction width generalizing n with
  | zero => exact List.not_mem_nil
  | succ width ih =>
      rw [hexNat, List.mem_append, List.mem_singleton, not_or]
      exact ⟨ih _, (digits _ (Nat.mod_lt n (by decide))).symm⟩

theorem newline_notMem_encode {c : Char} (h : c ≠ '\n') : newline ∉ String.utf8EncodeChar c :=
  notMem_encode (by decide) h

theorem newline_notMem_escape (g : Glyph) : newline ∉ g.escape '"' := by
  have number {front : Text} (free : newline ∉ front) (width n : Nat) :
      newline ∉ front ++ hexNat width n := by
    rw [List.mem_append, not_or]
    exact ⟨free, newline_notMem_hexNat width n⟩
  cases g with
  | stray b =>
      rw [Glyph.escape, hexByte_eq]
      exact number (by decide) 2 b.toNat
  | char c =>
      have letters : ∀ letter, shortEscape c = some letter → letter ≠ '\n' := by
        intro letter h
        simp only [shortEscape] at h
        split at h <;> cases h
        all_goals decide
      rw [Glyph.escape, escapeChar]
      split
      · rename_i marked
        rw [List.mem_append, not_or]
        refine ⟨by decide, newline_notMem_encode ?_⟩
        rintro rfl
        cases marked
      · split
        · rename_i printable
          apply newline_notMem_encode
          rintro rfl
          cases printable
        · split
          · rename_i letter short
            rw [List.mem_append, not_or]
            exact ⟨by decide, newline_notMem_encode (letters letter short)⟩
          · dsimp only
            split
            · exact number (by decide) 2 c.toNat
            · split
              · exact number (by decide) 4 c.toNat
              · exact number (by decide) 8 c.toNat

theorem newline_notMem_quote (t : Text) : newline ∉ t.quote := by
  rw [quote, List.mem_append, List.mem_append, not_or, not_or, List.mem_flatMap]
  refine ⟨⟨by decide, ?_⟩, by decide⟩
  rintro ⟨g, -, found⟩
  exact newline_notMem_escape g found

end Text

section

variable {source : Source} {cs : List Command} (h : source.commands = .ok cs)
include h

theorem solid_keys : ∀ c ∈ cs, ∀ key ∈ c.keys, key.Solid := by
  have parsed {raw : Text} {line : Int} {recent : List Command} {c : Command}
      (_ : ∀ b ∈ recent, ∀ key ∈ b.keys, key.Solid)
      (hp : Command.parse raw line (some recent) = .ok c) : ∀ key ∈ c.keys, key.Solid := by
    obtain ⟨deed, read, rfl⟩ | ⟨count, -, rfl⟩ := parse_cases hp
    · cases (read_plain read).2 with
      | inl none =>
          intro key hk
          rw [Command.keys, none] at hk
          cases hk
      | inr read => exact solid_of_mem_keys read
    · exact fun key hk => absurd hk List.not_mem_nil
  exact readLines_forall parsed (fun _ hc => absurd hc List.not_mem_nil)
    (Source.commands_eq_ok h)

theorem newline_notMem_action : ∀ c ∈ cs, newline ∉ (Step.ofCommand c).action := by
  intro c hc
  have keys : ∀ key ∈ c.keys, newline ∉ key := by
    intro key hk
    exact Text.notMem_of_solid (by decide) (by decide) (solid_keys h c hc key hk)
  have text : newline ∉ c.text := by
    cases (commands_fit h c hc).text with
    | inl none => simp [none]
    | inr behind =>
        obtain ⟨word, raw⟩ := behind
        intro found
        apply newline_notMem_raw h c hc
        rw [raw]
        exact List.mem_append_right _ (List.mem_cons_of_mem _ found)
  cases c with
  | again raw line count target =>
      rw [action_again, shownAgain]
      split
      · rw [List.mem_append, not_or]
        exact ⟨by decide, Text.newline_notMem_ofInt _⟩
      · simp only [List.mem_append, not_or]
        exact ⟨⟨⟨by decide, Text.newline_notMem_ofInt _⟩, by decide⟩, Text.newline_notMem_ofInt _⟩
  | plain raw line deed =>
      rw [action_plain]
      cases deed with
      | comment t => exact text
      | typeText t => exact Text.newline_notMem_quote t
      | press keys' => exact Text.newline_notMem_chord keys
      | delay ms | setDefaultDelay ms =>
          simp only [Deed.shown, List.mem_append, not_or]
          exact ⟨⟨by decide, Text.newline_notMem_ofInt _⟩, by decide⟩

/-- A listing has one line for each command. -/
theorem length_physicalLines_listed :
    (physicalLines (cs.flatMap fun c => (Step.ofCommand c).listed)).length = cs.length := by
  let body (c : Command) : Text :=
    (Text.ofInt (shownLine c.line)).padLeft 4 ++ utf8 "  " ++ c.verb.name.padRight 13 ++
      utf8 "  " ++ (Step.ofCommand c).action
  have free : ∀ line ∈ cs.map body, newline ∉ line := by
    intro line member
    obtain ⟨c, hc, rfl⟩ := List.mem_map.mp member
    have verb : newline ∉ c.verb.name := by cases c.verb <;> decide
    have number := Text.newline_notMem_ofInt (shownLine c.line)
    have spaces (n : Nat) : newline ∉ List.replicate n 32 :=
      fun found => absurd (List.eq_of_mem_replicate found) (by decide)
    simp only [body, Text.padLeft, Text.padRight, List.mem_append, not_or]
    exact ⟨⟨⟨⟨⟨spaces _, number⟩, by decide⟩, verb, spaces _⟩, by decide⟩,
      newline_notMem_action h c hc⟩
  have lines := Text.physicalLines_flatMap free
  rw [List.flatMap_map] at lines
  change (physicalLines (cs.flatMap fun c => body c ++ [newline])).length = _
  rw [lines, List.length_map]

/-- A command for each line that is not blank. -/
theorem length_commands :
    cs.length = ((physicalLines source.text).filter fun line => !line.trim.isEmpty).length := by
  have raws := congrArg List.length (commands_raw h)
  rw [List.length_map, List.length_map] at raws
  rw [raws, Source.lines_eq (Source.fault_eq_none h), List.map_map, List.filter_map,
    List.length_map]
  congr 2
  funext line
  simp only [Function.comp_apply, Text.trim_dropReturn]

end

theorem LoadFault.exitCode_failure (fault : LoadFault) (path : Text) :
    (fault.failure path).exitCode = (fault.failure []).exitCode := by
  cases fault <;> rfl

theorem LoadFault.exitCode_failure_ne_zero (fault : LoadFault) (path : Text) :
    (fault.failure path).exitCode ≠ 0 := by
  have filled : (fault.failure path).isEmpty = false := by cases fault <;> rfl
  rw [Failure.exitCode, filled, if_neg Bool.false_ne_true]
  repeat' split
  all_goals decide

/-- The ways to look at a script without running it. -/
inductive Inspection where
  | check
  | listing
  | binary

namespace Inspection

def task : Inspection → Task
  | .check => .check
  | .listing | .binary => .plan

/-- The options that make the task this one; all others are left open. -/
def Chosen (o : Options) : Inspection → Prop
  | .check => o.watch = false
  | .listing => o.format = utf8 "text"
  | .binary => o.format = utf8 "cbor"

/-- A command line that asks for this at a path, with flags and settings that are accepted. -/
def Asked (way : Inspection) (w : Surroundings) (words : List Text) (path : Text) : Prop :=
  ∃ o settings, Invocation.ofWords words = .ok (.work way.task o path) ∧ way.Chosen o ∧
    o.settings w = .ok settings

/-- What is printed of a script with a number of statements, a binary form, and a line for each
step. -/
def shown (count : Nat) (bytes steps path : Text) : Inspection → Text
  | .check =>
    path ++ utf8 ": ok, " ++ Text.ofNat count ++ utf8 " statements, digest " ++
      (blake2b256 bytes).hex.take 12 ++ [newline]
  | .listing =>
    utf8 "source: " ++ path ++ [newline] ++ utf8 "digest: " ++ (blake2b256 bytes).hex ++
      [newline] ++ steps
  | .binary => bytes

/-- What is printed of a plan. -/
def present (path : Text) (plan : Plan) : Inspection → Text
  | .check => CommandLine.okLine path (.ofPlan plan)
  | .listing => plan.listing
  | .binary => plan.encode

theorem present_eq (way : Inspection) (path : Text) (cs : List Command) :
    way.present path (Plan.ofCommands path cs) =
      way.shown cs.length (Plan.ofCommands [] cs).encode
        (cs.flatMap fun c => (Step.ofCommand c).listed) path := by
  have bytes : (Plan.ofCommands path cs).encode = (Plan.ofCommands [] cs).encode :=
    Plan.encode_congr rfl
  cases way with
  | check =>
      simp only [present, shown, CommandLine.okLine, Loaded.ofPlan, shortened, Plan.digest, bytes]
      rw [Plan.ofCommands, List.length_map]
  | listing =>
      simp only [present, shown, Plan.listing, Plan.digest, bytes]
      simp only [Plan.ofCommands, List.flatMap_map]
  | binary => exact bytes

/-- Every way loads the script, and shows its plan or fails as the load does. -/
theorem Asked.finish {way : Inspection} {w : Surroundings} {words : List Text} {path : Text}
    (h : way.Asked w words path) {content : Text} (holds : w.disk path = .ok (.file content)) :
    match Source.commands { text := content } with
    | .ok cs =>
      (Finish.ofWords w words).code = 0 ∧
        (Finish.ofWords w words).output = way.present path (Plan.ofCommands path cs)
    | .error fault =>
      (Finish.ofWords w words).code = (fault.failure path).exitCode ∧
        (Finish.ofWords w words).output = [] := by
  obtain ⟨o, settings, asked, chosen, accepted⟩ := h
  let script : Script := { path := path, delay := settings.defaultDelay }
  have prepared : CommandLine.prepare w o path = .ok (settings, script) := by
    simp only [CommandLine.prepare, accepted, CommandLine.findScript, Script.find, holds, script]
  have told : (Watch.reload script w.disk none).outcome =
      (Watch.told path (Source.commands { text := content })).map Loaded.plan := by
    rw [Reload.outcome, Watch.reload_result, Script.fileCommands, Script.sourceAt, holds]
    rfl
  have finish : Finish.ofWords w words =
      { CommandLine.loadAndPrint w settings script (way.present path) with
        colours := w.colourErr && !o.noColour } := by
    cases way with
    | check =>
        have once : o.watch = false := chosen
        simp only [Finish.ofWords, asked, task, CommandLine.perform, CommandLine.check, prepared,
          once]
        rfl
    | listing =>
        have format : o.format = utf8 "text" := chosen
        simp only [Finish.ofWords, asked, task, CommandLine.perform, CommandLine.plan, prepared,
          CommandLine.planForm, format]
        rfl
    | binary =>
        have format : o.format = utf8 "cbor" := chosen
        have other : utf8 "cbor" ≠ utf8 "text" := by decide
        simp only [Finish.ofWords, asked, task, CommandLine.perform, CommandLine.plan, prepared,
          CommandLine.planForm, format, if_neg other]
        rfl
  rw [finish]
  simp only [CommandLine.loadAndPrint, told]
  cases Source.commands { text := content } with
  | ok cs => exact ⟨rfl, List.append_nil _⟩
  | error fault => exact ⟨rfl, rfl⟩

/-- All ways to look at a text, at any paths and with any flags and settings, end with this code
and print what is shown for the path. -/
def Agree (content : Text) (code : Nat) (shown : Text → Inspection → Text) : Prop :=
  ∀ (way : Inspection) (w : Surroundings) (words : List Text) (path : Text),
    way.Asked w words path → w.disk path = .ok (.file content) →
      (Finish.ofWords w words).code = code ∧ (Finish.ofWords w words).output = shown path way

end Inspection

/-- The ways to look at a script agree. When its text cannot be loaded all of them fail with the
same code and print nothing. When it can, the digests are those of the bytes of the binary form, and
the number of statements is that of the steps in the listing and of the lines that are not blank.
Neither the bytes nor the lines of the steps depend on the path or the settings. -/
theorem inspections_agree (content : Text) :
    let count := ((physicalLines content).filter fun line => !line.trim.isEmpty).length
    (∃ fault code, Source.commands { text := content } = .error fault ∧ code ≠ 0 ∧
      Inspection.Agree content code fun _ _ => []) ∨
    ∃ cs bytes steps, Source.commands { text := content } = .ok cs ∧
      bytes = (Plan.ofCommands [] cs).encode ∧ (physicalLines steps).length = count ∧
      Inspection.Agree content 0 (Inspection.shown count bytes steps) := by
  intro count
  cases loads : Source.commands { text := content } with
  | error fault =>
      refine .inl ⟨fault, _, rfl, fault.exitCode_failure_ne_zero [], ?_⟩
      intro way w words path asked holds
      have finish := asked.finish holds
      simp only [loads] at finish
      exact ⟨finish.1.trans (fault.exitCode_failure path), finish.2⟩
  | ok cs =>
      have counted : cs.length = count := length_commands loads
      refine .inr ⟨cs, _, cs.flatMap fun c => (Step.ofCommand c).listed, rfl, rfl,
        (length_physicalLines_listed loads).trans counted, ?_⟩
      intro way w words path asked holds
      have finish := asked.finish holds
      simp only [loads] at finish
      exact ⟨finish.1, by rw [finish.2, way.present_eq, counted]⟩

/-- A comment with a stray byte, a blank line, and a carriage return at the end of a line, at two
paths, one of them with a line feed in it. -/
theorem inspections_agree_unusual :
    let content := utf8 "REM " ++ [255, 0] ++ utf8 "\n \nGUI-r\x0d\nREPEAT 2"
    let other := utf8 "a\nb"
    let w : Surroundings :=
      { disk := fun path =>
          if path = utf8 "s" ∨ path = other then .ok (.file content) else .error .notFound
        home := [] }
    let listing := [utf8 "plan", utf8 "-vv", utf8 "--default-delay", utf8 "7", other]
    ∃ bytes steps, (physicalLines steps).length = 3 ∧
      (Finish.ofWords w [utf8 "check", utf8 "s"]).output =
        utf8 "s: ok, 3 statements, digest " ++ (blake2b256 bytes).hex.take 12 ++ [newline] ∧
      (Finish.ofWords w listing).output =
        utf8 "source: a\nb\ndigest: " ++ (blake2b256 bytes).hex ++ [newline] ++ steps ∧
      (Finish.ofWords w [utf8 "plan", utf8 "--format", utf8 "cbor", utf8 "s"]).output = bytes := by
  intro content other w listing
  have count : ((physicalLines content).filter fun line => !line.trim.isEmpty).length = 3 := by
    decide +kernel
  have loads : (Source.commands { text := content }).isOk = true := by decide +kernel
  obtain ⟨fault, code, failed, -⟩ | ⟨cs, bytes, steps, -, -, lines, agree⟩ :=
    inspections_agree content
  · rw [failed] at loads
    cases loads
  · rw [count] at lines agree
    have front : utf8 "s" ++ utf8 ": ok, " ++ Text.ofNat 3 ++ utf8 " statements, digest " =
        utf8 "s: ok, 3 statements, digest " := by
      decide +kernel
    have head : utf8 "source: " ++ other ++ [newline] ++ utf8 "digest: " =
        utf8 "source: a\nb\ndigest: " := by
      decide +kernel
    have asked : Inspection.listing.Asked w listing other :=
      ⟨{ defaultDelay := some 7, verbose := 2 }, { defaultDelay := 7, logLevel := Level.debug },
        rfl, rfl, rfl⟩
    refine ⟨bytes, steps, lines, ?_, ?_, ?_⟩
    · rw [← front]
      exact (agree .check w _ (utf8 "s") ⟨{}, {}, rfl, rfl, rfl⟩ rfl).2
    · rw [← head]
      exact (agree .listing w listing other asked rfl).2
    · exact (agree .binary w _ (utf8 "s") ⟨{ format := utf8 "cbor" }, {}, rfl, rfl, rfl⟩ rfl).2

end KeyScript

import Mathlib.Data.List.Forall2
import KeyScript.CommandLine.Perform
import KeyScript.Proofs.PlanRun
import KeyScript.Proofs.Spelling

/-!
Plans without differences. Differences are found by comparing what people read
of the steps, and this determines all of a step that came from a script but the
text of its line. That text is for messages only: plans that agree otherwise run
alike.
-/

namespace KeyScript

/-- Steps that are the same but for the texts of their lines. -/
structure Step.Agrees (a b : Step) : Prop where
  line : a.line = b.line
  verb : a.verb = b.verb
  text : a.text = b.text
  millis : a.millis = b.millis
  count : a.count = b.count
  keys : a.keys = b.keys
  target : a.target = b.target
  skipsDelay : a.skipsDelay = b.skipsDelay

namespace Diff

theorem modifiedBetween_eq_nil {old new : List Text} (length : old.length = new.length) :
    modifiedBetween old new = [] ↔ old = new := by
  have pairs : old = new ↔ old.length = new.length ∧ ∀ {a b}, (a, b) ∈ old.zip new → a = b := by
    rw [← List.forall₂_iff_zip, List.forall₂_eq_eq_eq]
  rw [modifiedBetween, List.filterMap_eq_nil_iff, pairs]
  constructor
  · intro none
    refine ⟨length, fun {before after} pair => ?_⟩
    rw [← List.zipIdx_map_fst 1 (old.zip new)] at pair
    obtain ⟨⟨_, position⟩, found, rfl⟩ := List.mem_map.mp pair
    by_contra other
    have kept := none _ found
    simp [other] at kept
  · rintro ⟨-, same⟩ ⟨⟨before, after⟩, position⟩ found
    have equal : before = after := same (List.fst_mem_of_mem_zipIdx found)
    simp [equal]

theorem isEmpty_between (old new : List Text) : (between old new).isEmpty ↔ old = new := by
  simp only [isEmpty, between, Bool.and_eq_true, List.isEmpty_iff, List.map_eq_nil_iff,
    List.zipIdx_eq_nil_iff, List.drop_eq_nil_iff]
  constructor
  · rintro ⟨⟨added, removed⟩, modified⟩
    exact (modifiedBetween_eq_nil (Nat.le_antisymm removed added)).mp modified
  · rintro rfl
    exact ⟨⟨Nat.le_refl _, Nat.le_refl _⟩, (modifiedBetween_eq_nil rfl).mpr rfl⟩

end Diff

theorem shownLine_inj {m n : Int} (hm : IsInt64 m) (hn : IsInt64 n)
    (h : shownLine m = shownLine n) : m = n := by
  simp only [IsInt64] at hm hn
  simp only [shownLine, wrap64, Int.bmod_def] at h
  omega

theorem space_notMem_ofInt (n : Int) : 32 ∉ Text.ofInt n :=
  Text.notMem_ofInt (by decide) (by decide) n

/-- A description falls into its three parts at its spaces. -/
theorem Step.describe_inj {a b : Step} (ha : 32 ∉ a.verb) (hb : 32 ∉ b.verb)
    (h : a.describe = b.describe) :
    shownLine a.line = shownLine b.line ∧ a.verb = b.verb ∧ a.action = b.action := by
  have space : utf8 " " = [32] := by decide
  simp only [describe, space, List.append_assoc, List.singleton_append,
    List.append_cancel_left_eq] at h
  obtain ⟨lines, rest⟩ :=
    Text.append_cons_inj (space_notMem_ofInt _) (space_notMem_ofInt _) h
  obtain ⟨verbs, actions⟩ := Text.append_cons_inj ha hb rest
  exact ⟨Text.ofInt_inj lines, verbs, actions⟩

theorem Verb.name_inj {v w : Verb} (h : v.name = w.name) : v = w := by
  have kinds := congrArg Verb.ofName? h
  rw [ofName?_name, ofName?_name] at kinds
  exact Option.some.inj kinds

theorem Verb.space_notMem_name (v : Verb) : 32 ∉ v.name := by
  cases v <;> decide

/-- What is shown of a command that stands on its own. -/
def Deed.shown : Deed → Text
  | .comment text => text
  | .delay ms => utf8 "wait " ++ Text.ofInt ms ++ utf8 "ms"
  | .setDefaultDelay ms => utf8 "default delay " ++ Text.ofInt ms ++ utf8 "ms"
  | .typeText text => text.quote
  | .press keys => Action.chord keys

theorem action_plain (raw : Text) (line : Int) (deed : Deed) :
    (Step.ofCommand (.plain raw line deed)).action = deed.shown := by
  have verb : (Step.ofCommand (.plain raw line deed)).verb = deed.verb.name := rfl
  rw [Step.action, verb, Verb.ofName?_name]
  cases deed <;> rfl

theorem ofInt_between_inj {front back : Text} {m n : Int}
    (h : front ++ Text.ofInt m ++ back = front ++ Text.ofInt n ++ back) : m = n :=
  Text.ofInt_inj (List.append_cancel_left (List.append_cancel_right h))

/-- Deeds of the same kind are told apart by what is shown of them. -/
theorem Deed.shown_inj {d e : Deed} (hd : ∀ key ∈ d.keys, Key.isName key)
    (he : ∀ key ∈ e.keys, Key.isName key) (kinds : d.verb = e.verb) (h : d.shown = e.shown) :
    d = e := by
  cases d with
  | comment text =>
      cases e with
      | comment text' => exact congrArg Deed.comment h
      | delay | setDefaultDelay | typeText | press => cases kinds
  | delay ms =>
      cases e with
      | delay ms' => exact congrArg Deed.delay (Int.ofNat.inj (ofInt_between_inj h))
      | comment | setDefaultDelay | typeText | press => cases kinds
  | setDefaultDelay ms =>
      cases e with
      | setDefaultDelay ms' =>
          exact congrArg Deed.setDefaultDelay (Int.ofNat.inj (ofInt_between_inj h))
      | comment | delay | typeText | press => cases kinds
  | typeText text =>
      cases e with
      | typeText text' => exact congrArg Deed.typeText (Text.quote_inj h)
      | comment | delay | setDefaultDelay | press => cases kinds
  | press keys =>
      cases e with
      | press keys' =>
          have apart := fun key hk => Key.apart_of_isName (hd key hk)
          have apart' := fun key hk => Key.apart_of_isName (he key hk)
          exact congrArg Deed.press (Key.chord_inj apart apart' h)
      | comment | delay | setDefaultDelay | typeText => cases kinds

def shownAgain (target count : Int) : Text :=
  if target = noLine then utf8 "nothing x" ++ Text.ofInt count
  else utf8 "line " ++ Text.ofInt (shownLine target) ++ utf8 " x" ++ Text.ofInt count

theorem action_again (raw : Text) (line : Int) (count : Nat) (target : Command) :
    (Step.ofCommand (.again raw line count target)).action = shownAgain target.line count := by
  have verb : (Step.ofCommand (.again raw line count target)).verb = Verb.again.name := rfl
  rw [Step.action, verb, Verb.ofName?_name]
  rfl

theorem shownAgain_inj {target target' count count' : Int} (ht : IsInt64 target)
    (ht' : IsInt64 target') (h : shownAgain target count = shownAgain target' count') :
    target = target' ∧ count = count' := by
  have first {s t : Text} (same : utf8 "nothing x" ++ s = utf8 "line " ++ t) : False := by
    have letters : some (110 : UInt8) = some 108 := congrArg List.head? same
    exact absurd letters (by decide)
  simp only [shownAgain] at h
  split at h
  · rename_i none
    split at h
    · rename_i none'
      exact ⟨none.trans none'.symm, Text.ofInt_inj (List.append_cancel_left h)⟩
    · rw [List.append_assoc, List.append_assoc] at h
      exact (first h).elim
  · split at h
    · rw [List.append_assoc, List.append_assoc] at h
      exact (first h.symm).elim
    · have mark : utf8 " x" = [32, 120] := by decide
      simp only [mark, List.append_assoc, List.cons_append, List.nil_append,
        List.append_cancel_left_eq] at h
      obtain ⟨lines, rest⟩ :=
        Text.append_cons_inj (space_notMem_ofInt _) (space_notMem_ofInt _) h
      exact ⟨shownLine_inj ht ht' (Text.ofInt_inj lines),
        Text.ofInt_inj (List.cons.inj rest).2⟩

theorem Step.Agrees.action {a b : Step} (h : a.Agrees b) {v : Verb}
    (known : Verb.ofName? a.verb = some v) : a.action = b.action := by
  have known' : Verb.ofName? b.verb = some v := h.verb ▸ known
  rw [Step.action, Step.action, known, known', h.text, h.millis, h.keys, h.count, h.target]
  cases v <;> rfl

theorem Step.Agrees.describe {a b : Step} (h : a.Agrees b) {v : Verb}
    (known : Verb.ofName? a.verb = some v) : a.describe = b.describe := by
  rw [Step.describe, Step.describe, h.line, h.verb, h.action known]

/-- Steps of commands agree exactly if they are described the same way. -/
theorem describe_ofCommand_iff {c c' : Command} (sized : (Step.ofCommand c).Sized)
    (sized' : (Step.ofCommand c').Sized) (names : ∀ key ∈ c.keys, Key.isName key)
    (names' : ∀ key ∈ c'.keys, Key.isName key) :
    (Step.ofCommand c).describe = (Step.ofCommand c').describe ↔
      (Step.ofCommand c).Agrees (Step.ofCommand c') := by
  have line {s : Step} (h : s.Sized) : IsInt64 s.line := h.numbers _ (by simp [Step.numbers])
  have target {s : Step} (h : s.Sized) : IsInt64 s.target := h.numbers _ (by simp [Step.numbers])
  constructor
  · intro same
    obtain ⟨lines, verbs, actions⟩ :=
      Step.describe_inj c.verb.space_notMem_name c'.verb.space_notMem_name same
    have lines := shownLine_inj (line sized) (line sized') lines
    have kinds : c.verb = c'.verb := Verb.name_inj verbs
    cases c with
    | plain raw line deed =>
        cases c' with
        | plain raw' line' deed' =>
            rw [action_plain, action_plain] at actions
            obtain rfl := Deed.shown_inj names names' kinds actions
            exact ⟨lines, rfl, rfl, rfl, rfl, rfl, rfl, rfl⟩
        | again raw' line' count' target' => exact absurd kinds deed.verb_ne_again
    | again raw line count t =>
        cases c' with
        | plain raw' line' deed' => exact absurd kinds.symm deed'.verb_ne_again
        | again raw' line' count' t' =>
            rw [action_again, action_again] at actions
            obtain ⟨targets, counts⟩ := shownAgain_inj (target sized) (target sized') actions
            exact ⟨lines, rfl, rfl, rfl, counts, rfl, targets, rfl⟩
  · intro agrees
    exact agrees.describe (Verb.ofName?_name c.verb)

theorem forall₂_map_eq {α β : Type} {f : α → β} {as bs : List α} :
    as.map f = bs.map f ↔ List.Forall₂ (fun a b => f a = f b) as bs := by
  rw [← List.forall₂_eq_eq_eq, List.forall₂_map_left_iff, List.forall₂_map_right_iff]

theorem isEmpty_ofPlans {source source' : Source} {cs cs' : List Command}
    (h : source.commands = .ok cs) (h' : source'.commands = .ok cs')
    (short : IsInt64 source.text.length) (short' : IsInt64 source'.text.length)
    (name name' : Text) :
    (Diff.ofPlans (Plan.ofCommands name cs) (Plan.ofCommands name' cs')).isEmpty ↔
      List.Forall₂ Step.Agrees (cs.map Step.ofCommand) (cs'.map Step.ofCommand) := by
  have pairs : ∀ c ∈ cs, ∀ c' ∈ cs',
      ((Step.ofCommand c).describe = (Step.ofCommand c').describe ↔
        (Step.ofCommand c).Agrees (Step.ofCommand c')) := fun c hc c' hc' =>
    describe_ofCommand_iff (sized_ofCommand h short c hc) (sized_ofCommand h' short' c' hc')
      (commands_fit h c hc).names (commands_fit h' c' hc').names
  rw [Diff.ofPlans, Diff.isEmpty_between, forall₂_map_eq]
  simp only [Plan.ofCommands, List.forall₂_map_left_iff, List.forall₂_map_right_iff]
  rw [List.forall₂_iff_zip, List.forall₂_iff_zip]
  refine and_congr_right fun _ => forall₂_congr fun c c' => forall_congr' fun pair => ?_
  exact pairs c (List.of_mem_zip pair).1 c' (List.of_mem_zip pair).2

namespace Diff

theorem suffix_block {title : Text} {changes : List Change} {lines : Change → Text}
    (some : changes ≠ []) (ended : ∀ c, [newline] <:+ lines c) :
    [newline, newline] <:+ block title changes lines := by
  obtain ⟨front, last, rfl⟩ := (List.eq_nil_or_concat changes).resolve_left some
  obtain ⟨line, eq⟩ := ended last
  rw [block, if_neg (by simp)]
  refine ⟨title ++ [newline] ++ front.flatMap lines ++ line, ?_⟩
  simp [← eq]

theorem report_of_isEmpty {d : Diff} (h : d.isEmpty) (colours : Bool) :
    d.report colours = utf8 "No differences found.\n" := by
  have parts := h
  simp only [isEmpty, Bool.and_eq_true] at parts
  obtain ⟨⟨added, removed⟩, modified⟩ := parts
  rw [report, block, block, block, if_pos added, if_pos removed, if_pos modified, if_pos h]
  rfl

theorem report_of_not_isEmpty {d : Diff} (h : ¬ d.isEmpty) (colours : Bool) :
    [newline, newline] <:+ d.report colours := by
  have modifiedEnd : ∀ c, [newline] <:+ modifiedLines colours c := fun c => ⟨_, rfl⟩
  have addedEnd : ∀ c, [newline] <:+ addedLines colours c := fun c => ⟨_, rfl⟩
  have removedEnd : ∀ c, [newline] <:+ removedLines colours c := fun c => ⟨_, rfl⟩
  have absent (title : Text) (lines : Change → Text) : block title [] lines = [] := rfl
  rw [report, if_neg h, List.append_nil]
  by_cases removed : d.removed = []
  · rw [removed, absent, List.append_nil]
    by_cases added : d.added = []
    · rw [added, absent, List.append_nil]
      have modified : d.modified ≠ [] := fun modified => h (by simp [isEmpty, *])
      exact suffix_block modified modifiedEnd
    · exact (suffix_block added addedEnd).trans (List.suffix_append _ _)
  · exact (suffix_block removed removedEnd).trans (List.suffix_append _ _)

end Diff

theorem Reload.outcome_eq_ok {r : Reload} {q : Plan} (h : r.outcome = .ok q) :
    ∃ loaded, r.result = .ok loaded ∧ loaded.plan = q := by
  rw [outcome] at h
  cases result : r.result with
  | error f =>
      rw [result] at h
      cases h
  | ok loaded =>
      rw [result] at h
      exact ⟨loaded, rfl, Except.ok.inj h⟩

/-- A watcher ends with these words exactly if there is no difference: otherwise an empty line
comes last. -/
theorem CommandLine.announce_none_iff {path : Text} {colours : Bool} {p q : Plan} {again : Reload}
    (h : again.outcome = .ok q) :
    utf8 "No differences found.\n" <:+ (announce path colours (some p) again).1 ↔
      (Diff.ofPlans p q).isEmpty := by
  obtain ⟨loaded, result, rfl⟩ := Reload.outcome_eq_ok h
  have printed : (Diff.ofPlans p loaded.plan).report colours <:+
      (announce path colours (some p) again).1 := by
    simp only [announce, result]
    exact List.suffix_append _ _
  constructor
  · intro said
    by_contra some
    have ended := (Diff.report_of_not_isEmpty some colours).trans printed
    exact absurd (List.suffix_of_suffix_length_le ended said (by decide)) (by decide)
  · intro empty
    rwa [Diff.report_of_isEmpty empty] at printed

section

variable {σ : Type} {host : Host σ}

/-- Results that differ in nothing but why they stopped early. -/
inductive Alike : Option (Outcome σ) → Option (Outcome σ) → Prop
  | missing : Alike none none
  | finished (m : Machine σ) : Alike (some (m, none)) (some (m, none))
  | stopped (m : Machine σ) (f f' : Fault) : Alike (some (m, some f)) (some (m, some f'))

theorem Alike.onward {x y : Option (Outcome σ)} (h : Alike x y)
    {next next' : Machine σ → Option (Outcome σ)} (later : ∀ m, Alike (next m) (next' m)) :
    Alike (Step.onward next x) (Step.onward next' y) := by
  cases h with
  | missing => exact .missing
  | finished m => exact later m
  | stopped m f f' => exact .stopped m f f'

theorem alike_wait (a b : Step) (ms : Int) (m : Machine σ) :
    Alike (some (a.wait host ms m)) (some (b.wait host ms m)) := by
  simp only [Step.wait]
  rcases host.sleep (nanosOfMillis ms) m.host with ⟨state, _ | f⟩
  · exact .finished _
  · exact .stopped _ _ _

theorem alike_act (a b : Step) (action : Action) (m : Machine σ) :
    Alike (some (a.act host action m)) (some (b.act host action m)) := by
  simp only [Step.act]
  cases host.keyboard with
  | none => exact .stopped _ _ _
  | some perform =>
      simp only
      rcases perform action m.host with ⟨state, _ | f⟩
      · exact .finished _
      · exact .stopped _ _ _

theorem alike_rounds {once once' : Machine σ → Option (Outcome σ)}
    (h : ∀ m, Alike (once m) (once' m)) (n : Nat) (m : Machine σ) :
    Alike (Step.rounds once n m) (Step.rounds once' n m) := by
  induction n generalizing m with
  | zero => exact .finished m
  | succ n ih =>
      rw [Step.rounds, Step.rounds]
      exact (h m).onward ih

namespace Step.Agrees

theorem own {a b : Step} (h : a.Agrees b) (m : Machine σ) :
    Alike (a.own host m) (b.own host m) := by
  rw [Step.own, Step.own, h.verb, h.millis, h.text, h.keys]
  cases Verb.ofName? b.verb with
  | none => exact .missing
  | some v =>
      cases v with
      | comment | setDefaultDelay => exact .finished _
      | delay => exact alike_wait a b _ m
      | typeText | press => exact alike_act a b _ m
      | again => exact .missing

theorem find? {steps steps' : List Step} (h : List.Forall₂ Step.Agrees steps steps') (n : Int) :
    (steps.find? (fun t => t.line == n) = none ∧ steps'.find? (fun t => t.line == n) = none) ∨
      ∃ t t', steps.find? (fun t => t.line == n) = some t ∧
        steps'.find? (fun t => t.line == n) = some t' ∧ t.Agrees t' := by
  induction h with
  | nil => exact .inl ⟨rfl, rfl⟩
  | @cons a b _ _ first _ ih =>
      simp only [List.find?_cons, first.line]
      cases b.line == n with
      | true => exact .inr ⟨a, b, rfl, rfl, first⟩
      | false => exact ih

variable {steps steps' : List Step} (all : List.Forall₂ Step.Agrees steps steps')
include all

theorem body {a b : Step} (h : a.Agrees b) (depth : Nat) (m : Machine σ) :
    Alike (a.body host steps depth m) (b.body host steps' depth m) := by
  induction depth generalizing a b m with
  | zero => exact h.own m
  | succ depth ih =>
      rw [Step.body, Step.body, h.verb, h.target, h.count]
      split
      · split
        · exact .finished m
        · obtain ⟨none, none'⟩ | ⟨t, t', some, some', targets⟩ := find? all b.target
          · rw [none, none']
            exact .missing
          · rw [some, some']
            exact alike_rounds (fun m => ih targets m) _ m
      · exact h.own m

theorem perform {a b : Step} (h : a.Agrees b) (m : Machine σ) :
    Alike (a.perform host steps m) (b.perform host steps' m) := by
  have front : Alike (some (if a.skipsDelay then (m, none) else a.wait host m.delay m))
      (some (if b.skipsDelay then (m, none) else b.wait host m.delay m)) := by
    rw [h.skipsDelay]
    split
    · exact .finished m
    · exact alike_wait a b _ m
  rw [Step.perform, Step.perform, all.length_eq]
  exact front.onward (h.body all _)

theorem performEach {rest rest' : List Step} (h : List.Forall₂ Step.Agrees rest rest')
    (m : Machine σ) :
    Alike (Step.performEach host steps rest m) (Step.performEach host steps' rest' m) := by
  induction h generalizing m with
  | nil => exact .finished m
  | cons first _ ih =>
      rw [Step.performEach, Step.performEach]
      exact (first.perform all m).onward ih

end Step.Agrees
end

/-- Runs that do the same, both to the end or both not, and leave the same default delay. -/
structure Behaviour.Alike (b b' : Behaviour) : Prop where
  events : b.events = b'.events
  success : b.fault = none ↔ b'.fault = none
  delay : b.delay = b'.delay

theorem Alike.behaviour {μ : Type} {out out' : Option (Outcome (Rehearsal μ))} {b b' : Behaviour}
    (h : KeyScript.Alike out out') (hb : out.map .ofOutcome = some b)
    (hb' : out'.map .ofOutcome = some b') : b.Alike b' := by
  cases h with
  | missing => cases hb
  | finished m =>
      cases hb
      cases hb'
      exact ⟨rfl, Iff.rfl, rfl⟩
  | stopped m f f' =>
      cases hb
      cases hb'
      exact ⟨rfl, by simp [Behaviour.ofOutcome], rfl⟩

variable {μ : Type} (guard : Guard μ)

theorem Plan.behaviour_alike {p q : Plan} (h : List.Forall₂ Step.Agrees p.steps q.steps) {d : Int}
    {r : Rehearsal μ} {b b' : Behaviour} (hb : p.behaviour guard d r = some b)
    (hb' : q.behaviour guard d r = some b') : b.Alike b' :=
  (Step.Agrees.performEach h h _).behaviour hb hb'

/-- Two scripts that were loaded, of whatever bytes their texts are, have plans without differences
exactly if these have the same number of steps and agree at every position on all but the texts
of the lines. It is then, and only then, that a watcher ends its message by saying so, and both
scripts do the same whatever the guard refuses, whenever the run is called off and whatever the
default delay is at the start. -/
theorem diff_isEmpty_iff {s s' loaded loaded' : Script} {source source' : Source}
    (accepted : s.loadFrom source = .ok loaded) (accepted' : s'.loadFrom source' = .ok loaded')
    (short : IsInt64 source.text.length) (short' : IsInt64 source'.text.length)
    (name name' : Text) :
    let p := Plan.ofCommands name loaded.commands
    let q := Plan.ofCommands name' loaded'.commands
    ((Diff.ofPlans p q).isEmpty ↔ List.Forall₂ Step.Agrees p.steps q.steps) ∧
      ∀ (path : Text) (colours : Bool) (again : Reload), again.outcome = .ok q →
        let printed := (CommandLine.announce path colours (some p) again).1
        (utf8 "No differences found.\n" <:+ printed ↔ (Diff.ofPlans p q).isEmpty) ∧
          (utf8 "No differences found.\n" <:+ printed →
            ∀ (noted : Bool) (disk : Disk) (r : Rehearsal μ) (d : Int),
              (({ loaded with delay := d } : Script).behaviour guard noted disk r).Alike
                (({ loaded' with delay := d } : Script).behaviour guard noted disk r)) := by
  intro p q
  have empty : (Diff.ofPlans p q).isEmpty ↔ List.Forall₂ Step.Agrees p.steps q.steps := by
    obtain ⟨cs, commands, rfl⟩ := Script.loadFrom_eq_ok_iff.mp accepted
    obtain ⟨cs', commands', rfl⟩ := Script.loadFrom_eq_ok_iff.mp accepted'
    exact isEmpty_ofPlans commands commands' short short' name name'
  refine ⟨empty, fun path colours again outcome => ?_⟩
  intro printed
  have said : utf8 "No differences found.\n" <:+ printed ↔ (Diff.ofPlans p q).isEmpty :=
    CommandLine.announce_none_iff outcome
  refine ⟨said, fun none noted disk r d => ?_⟩
  exact Plan.behaviour_alike guard (empty.mp (said.mp none))
    (Plan.behaviour_loaded guard noted disk r d accepted name)
    (Plan.behaviour_loaded guard noted disk r d accepted' name')

/-- Another spelling of a chord with the separator as a key, of a wait and of a repetition makes no
difference; the text has a quote and a character that is shown as an escape. -/
theorem diff_isEmpty_iff_respelled :
    let guard : Guard Unit := fun memory _ => (memory, none)
    let first : Source := ⟨utf8 "CTRL-+\nDELAY 05\nSTRING \"\x07\nREPEAT 2", none⟩
    let second : Source := ⟨utf8 "CONTROL  +\nDELAY 5\nSTRING \"\x07\nREPEAT 02", none⟩
    let s : Script := { path := utf8 "a" }
    let loaded := (s.tryLoadFrom first).1
    let loaded' := (s.tryLoadFrom second).1
    let p := Plan.ofCommands s.path loaded.commands
    let q := Plan.ofCommands s.path loaded'.commands
    let again : Reload := ⟨some .written, loaded', .ok (.ofPlan q), []⟩
    p.steps ≠ q.steps ∧ List.Forall₂ Step.Agrees p.steps q.steps ∧
      utf8 "No differences found.\n" <:+ (CommandLine.announce s.path true (some p) again).1 ∧
      ∀ (noted : Bool) (disk : Disk) (r : Rehearsal Unit) (d : Int),
        (({ loaded with delay := d } : Script).behaviour guard noted disk r).Alike
          (({ loaded' with delay := d } : Script).behaviour guard noted disk r) := by
  intro guard first second s loaded loaded' p q again
  have computed : (s.tryLoadFrom first).2 = none ∧ (s.tryLoadFrom second).2 = none ∧
      p.steps ≠ q.steps ∧ (Diff.ofPlans p q).isEmpty := by decide +kernel
  obtain ⟨ok, ok', other, none⟩ := computed
  obtain ⟨empty, watched⟩ := diff_isEmpty_iff guard (Script.loadFrom_of_none ok)
    (Script.loadFrom_of_none ok') (by decide +kernel) (by decide +kernel) s.path s.path
  obtain ⟨said, alike⟩ := watched s.path true again rfl
  exact ⟨other, empty.mp none, said.mpr none, alike (said.mpr none)⟩

end KeyScript

import KeyScript.Keyboard.Xdotool

/-!
The fail-safe over a whole sequence of actions. The outside may answer anything
and change at any time, and the sequence goes on whatever happened to the action
before. No key is pressed and no text is typed unless the size of the screen and
the place of the pointer were asked for just before, for the same action, and
the pointer was not in a corner.
-/

namespace KeyScript

structure Call where
  program : Text
  arguments : List Text
  answer : Except Failure Text

namespace Call

/-- Keys are pressed or text is typed. -/
def Injects (c : Call) : Prop :=
  c.arguments.head? = some (utf8 "key") ∨ c.arguments.head? = some (utf8 "type")

instance (c : Call) : Decidable c.Injects :=
  inferInstanceAs (Decidable (_ ∨ _))

/-- What is read off the answer, unless the program failed. -/
def reading (read : Text → Option (Int × Int)) (c : Call) : Option (Int × Int) :=
  c.answer.toOption.bind read

end Call

def sizeQuery : List Text :=
  [utf8 "getdisplaygeometry"]

def placeQuery : List Text :=
  [utf8 "getmouselocation", utf8 "--shell"]

def AtCorner (x y width height : Int) : Prop :=
  (x = 0 ∨ x = wrap64 (width - 1)) ∧ (y = 0 ∨ y = wrap64 (height - 1))

theorem inCorner_iff {x y width height : Int} :
    inCorner x y width height = true ↔ AtCorner x y width height := by
  simp [inCorner, AtCorner]

/-- The two queries of the fail-safe, with answers that can be read. -/
structure Finds (geometry pointer : Call) (width height x y : Int) : Prop where
  size : geometry.arguments = sizeQuery
  place : pointer.arguments = placeQuery
  measured : geometry.reading readGeometry = some (width, height)
  located : pointer.reading readPointer = some (x, y)

def Clear (geometry pointer : Call) : Prop :=
  ∃ width height x y, Finds geometry pointer width height x y ∧ ¬ AtCorner x y width height

def Cornered (geometry pointer : Call) : Prop :=
  ∃ width height x y, Finds geometry pointer width height x y ∧ AtCorner x y width height

/-- The ways through the fail-safe: the calls that it makes, and why it refuses. -/
inductive Checked : List Call → Option Failure → Prop
  | unmeasured {geometry : Call} {f : Failure} (size : geometry.arguments = sizeQuery)
      (unread : geometry.reading readGeometry = none) (filled : f ≠ []) (other : f ≠ [.failSafe]) :
      Checked [geometry] (some f)
  | unlocated {geometry pointer : Call} {f : Failure} (size : geometry.arguments = sizeQuery)
      (place : pointer.arguments = placeQuery) (unread : pointer.reading readPointer = none)
      (filled : f ≠ []) (other : f ≠ [.failSafe]) : Checked [geometry, pointer] (some f)
  | cornered {geometry pointer : Call} (h : Cornered geometry pointer) :
      Checked [geometry, pointer] (some [.failSafe])
  | clear {geometry pointer : Call} (h : Clear geometry pointer) :
      Checked [geometry, pointer] none

section

variable {σ : Type} (desk : Desk σ) (i : Injection)

/-- A desk with a log of the programs that are run. -/
def Desk.logged : Desk (σ × List Call) where
  run program arguments s :=
    match desk.run program arguments s.1 with
    | (after, answer) => ((after, s.2 ++ [⟨program, arguments, answer⟩]), answer)
  sleep length s :=
    match desk.sleep length s.1 with
    | (after, f) => ((after, s.2), f)

variable {desk} in
theorem Desk.run_logged {program : Text} {arguments : List Text} {s after : σ}
    {answer : Except Failure Text} (h : desk.run program arguments s = (after, answer))
    (log : List Call) :
    desk.logged.run program arguments (s, log) =
      ((after, log ++ [⟨program, arguments, answer⟩]), answer) := by
  simp only [logged, h]

/-- With a log the same comes out, and the log is longer by the calls. -/
def Logs (plain : σ → σ × Option Failure)
    (logged : σ × List Call → (σ × List Call) × Option Failure) (s : σ) (calls : List Call) : Prop :=
  ∀ log, logged (s, log) = (((plain s).1, log ++ calls), (plain s).2)

namespace Injection

theorem checkPointer_logged (geometry : Call) (size : geometry.arguments = sizeQuery)
    {width height : Int} (measured : geometry.reading readGeometry = some (width, height)) (s : σ) :
    ∃ pointer, Checked [geometry, pointer] (i.checkPointer desk width height s).2 ∧
      Logs (i.checkPointer desk width height) (i.checkPointer desk.logged width height) s
        [pointer] := by
  rcases h : desk.run i.binary [utf8 "getmouselocation", utf8 "--shell"] s with
    ⟨after, e | printed⟩
  · refine ⟨⟨i.binary, placeQuery, .error e⟩, ?_, fun log => ?_⟩
    · simp only [checkPointer, h]
      exact .unlocated size rfl rfl (by simp) (by simp)
    · simp only [checkPointer, h, Desk.run_logged h]
      rfl
  · refine ⟨⟨i.binary, placeQuery, .ok printed⟩, ?_, fun log => ?_⟩
    · simp only [checkPointer, h]
      cases located : readPointer printed with
      | none => exact .unlocated size rfl located (by simp) (by simp)
      | some place =>
          obtain ⟨x, y⟩ := place
          have finds : Finds geometry ⟨i.binary, placeQuery, .ok printed⟩ width height x y :=
            ⟨size, rfl, measured, located⟩
          by_cases corner : inCorner x y width height
          · simp only [corner, if_true]
            exact .cornered ⟨width, height, x, y, finds, inCorner_iff.mp corner⟩
          · simp only [corner]
            exact .clear ⟨width, height, x, y, finds, fun h => corner (inCorner_iff.mpr h)⟩
    · simp only [checkPointer, h, Desk.run_logged h]
      cases readPointer printed <;> rfl

/-- The fail-safe runs the same with a log, which grows by the calls of one way through it. -/
theorem check_logged (s : σ) :
    ∃ calls, Checked calls (i.check desk s).2 ∧
      Logs (i.check desk) (i.check desk.logged) s calls := by
  rcases h : desk.run i.binary [utf8 "getdisplaygeometry"] s with ⟨mid, e | printed⟩
  · refine ⟨[⟨i.binary, sizeQuery, .error e⟩], ?_, fun log => ?_⟩
    · simp only [check, h]
      exact .unmeasured rfl rfl (by simp) (by simp)
    · simp only [check, h, Desk.run_logged h]
      rfl
  · cases measured : readGeometry printed with
    | none =>
        refine ⟨[⟨i.binary, sizeQuery, .ok printed⟩], ?_, fun log => ?_⟩
        · simp only [check, h, measured]
          exact .unmeasured rfl measured (by simp) (by simp)
        · simp only [check, h, Desk.run_logged h, measured]
          rfl
    | some found =>
        obtain ⟨width, height⟩ := found
        obtain ⟨pointer, checked, logs⟩ := checkPointer_logged desk i
          ⟨i.binary, sizeQuery, .ok printed⟩ rfl measured mid
        refine ⟨[⟨i.binary, sizeQuery, .ok printed⟩, pointer], ?_, fun log => ?_⟩
        · simp only [check, h, measured]
          exact checked
        · simp only [check, h, Desk.run_logged h, measured]
          rw [logs, List.append_assoc]
          rfl

theorem inject_logged (arguments : List Text) (s : σ) :
    Logs (i.inject desk arguments) (i.inject desk.logged arguments) s
      [⟨i.binary, arguments, (desk.run i.binary arguments s).2⟩] := by
  intro log
  rcases h : desk.run i.binary arguments s with ⟨after, e | printed⟩
  · simp only [inject, h, Desk.run_logged h]
  · simp only [inject, h, Desk.run_logged h]
    rfl

end Injection

/-- One action of a sequence: the calls that were made for it, and whether it failed. -/
structure Attempt where
  action : Action
  calls : List Call
  result : Option Failure

namespace Attempt

/-- The queries of the attempt were answered, and the pointer was found outside the corners. -/
def Cleared (a : Attempt) : Prop :=
  ∃ geometry pointer, [geometry, pointer] <+: a.calls ∧ Clear geometry pointer

def InCorner (a : Attempt) : Prop :=
  ∃ geometry pointer, [geometry, pointer] <+: a.calls ∧ Cornered geometry pointer

end Attempt

inductive Performed (i : Injection) : Attempt → Prop
  | idle {action : Action} (h : action.arguments = none) : Performed i ⟨action, [], none⟩
  | refused {action : Action} {arguments : List Text} {calls : List Call} {f : Failure}
      (on : i.failSafe = true) (h : action.arguments = some arguments)
      (checked : Checked calls (some f)) : Performed i ⟨action, calls, some f⟩
  | passed {action : Action} {arguments : List Text} {calls : List Call}
      (on : i.failSafe = true) (h : action.arguments = some arguments)
      (checked : Checked calls none) (answer : Except Failure Text) (result : Option Failure) :
      Performed i ⟨action, calls ++ [⟨i.binary, arguments, answer⟩], result⟩
  | unguarded {action : Action} {arguments : List Text} (off : i.failSafe = false)
      (h : action.arguments = some arguments) (answer : Except Failure Text)
      (result : Option Failure) :
      Performed i ⟨action, [⟨i.binary, arguments, answer⟩], result⟩

namespace Injection

theorem perform_logged (action : Action) (s : σ) :
    ∃ calls, Performed i ⟨action, calls, (i.perform desk action s).2⟩ ∧
      Logs (i.perform desk action) (i.perform desk.logged action) s calls := by
  cases h : action.arguments with
  | none =>
      refine ⟨[], ?_, fun log => ?_⟩
      · simp only [perform, h]
        exact .idle h
      · simp only [perform, h, List.append_nil]
  | some arguments =>
      by_cases on : i.failSafe
      · obtain ⟨calls, checked, logs⟩ := i.check_logged desk s
        rcases hc : i.check desk s with ⟨mid, _ | f⟩
        · refine ⟨calls ++ [⟨i.binary, arguments, (desk.run i.binary arguments mid).2⟩], ?_,
            fun log => ?_⟩
          · rw [hc] at checked
            exact .passed on h checked _ _
          · simp only [perform, h, on, if_true, logs log, hc]
            rw [i.inject_logged desk arguments mid, List.append_assoc]
        · refine ⟨calls, ?_, fun log => ?_⟩
          · rw [hc] at checked
            simp only [perform, h, on, if_true, hc]
            exact .refused on h checked
          · simp only [perform, h, on, if_true, logs log, hc]
      · refine ⟨[⟨i.binary, arguments, (desk.run i.binary arguments s).2⟩], ?_, fun log => ?_⟩
        · exact .unguarded (by simpa using on) h _ _
        · simp only [perform, h, on]
          exact i.inject_logged desk arguments s log

/-- Performs actions one after another with a log, each whatever came of those before it. -/
def attempts : List Action → σ → List Attempt
  | [], _ => []
  | action :: rest, s =>
    match i.perform desk.logged action (s, []) with
    | ((after, calls), result) => ⟨action, calls, result⟩ :: attempts rest after

/-- The log of a sequence of actions, from its start to its end. -/
def log (actions : List Action) (s : σ) : List Call :=
  (actions.foldl (fun state action => (i.perform desk.logged action state).1) (s, [])).2

theorem attempts_cons (action : Action) (rest : List Action) (s : σ) :
    ∃ calls, Performed i ⟨action, calls, (i.perform desk action s).2⟩ ∧
      Logs (i.perform desk action) (i.perform desk.logged action) s calls ∧
      i.attempts desk (action :: rest) s =
        ⟨action, calls, (i.perform desk action s).2⟩ ::
          i.attempts desk rest (i.perform desk action s).1 := by
  obtain ⟨calls, performed, logs⟩ := i.perform_logged desk action s
  refine ⟨calls, performed, logs, ?_⟩
  simp only [attempts, logs [], List.nil_append]

theorem map_attempts (actions : List Action) (s : σ) :
    (i.attempts desk actions s).map Attempt.action = actions := by
  induction actions generalizing s with
  | nil => rfl
  | cons action rest ih =>
      obtain ⟨calls, -, -, attempts⟩ := i.attempts_cons desk action rest s
      rw [attempts, List.map_cons, ih]

theorem performed_attempts (actions : List Action) (s : σ) :
    ∀ a ∈ i.attempts desk actions s, Performed i a := by
  induction actions generalizing s with
  | nil => exact fun a ha => absurd ha List.not_mem_nil
  | cons action rest ih =>
      obtain ⟨calls, performed, -, attempts⟩ := i.attempts_cons desk action rest s
      rw [attempts]
      exact List.forall_mem_cons.mpr ⟨performed, ih _⟩

theorem log_eq (actions : List Action) (s : σ) :
    i.log desk actions s = (i.attempts desk actions s).flatMap Attempt.calls := by
  suffices grows : ∀ log, (actions.foldl
      (fun state action => (i.perform desk.logged action state).1) (s, log)).2 =
        log ++ (i.attempts desk actions s).flatMap Attempt.calls from grows []
  induction actions generalizing s with
  | nil => exact fun log => (List.append_nil log).symm
  | cons action rest ih =>
      intro log
      obtain ⟨calls, -, logs, attempts⟩ := i.attempts_cons desk action rest s
      rw [List.foldl_cons, logs, ih, attempts, List.flatMap_cons, List.append_assoc]

end Injection
end

theorem arguments_eq_none_iff {action : Action} :
    action.arguments = none ↔ action.keys = [] ∧ action.text = [] := by
  cases action with
  | hotkey keys => cases keys <;> simp [Action.arguments, Action.keys, Action.text]
  | type text => cases text <;> simp [Action.arguments, Action.keys, Action.text]

theorem injects_of_arguments {action : Action} {arguments : List Text}
    (h : action.arguments = some arguments) (program : Text) (answer : Except Failure Text) :
    Call.Injects ⟨program, arguments, answer⟩ := by
  cases action with
  | hotkey keys =>
      cases keys with
      | nil => cases h
      | cons key keys =>
          cases h
          exact .inl rfl
  | type text =>
      cases text with
      | nil => cases h
      | cons b text =>
          cases h
          exact .inr rfl

theorem not_injects_size {call : Call} (h : call.arguments = sizeQuery) : ¬ call.Injects := by
  rw [Call.Injects, h]
  decide

theorem not_injects_place {call : Call} (h : call.arguments = placeQuery) : ¬ call.Injects := by
  rw [Call.Injects, h]
  decide

theorem Checked.not_injects {calls : List Call} {result : Option Failure}
    (h : Checked calls result) : ∀ call ∈ calls, ¬ call.Injects := by
  have both {geometry pointer : Call} (size : geometry.arguments = sizeQuery)
      (place : pointer.arguments = placeQuery) : ∀ call ∈ [geometry, pointer], ¬ call.Injects :=
    List.forall_mem_cons.mpr
      ⟨not_injects_size size, List.forall_mem_singleton.mpr (not_injects_place place)⟩
  cases h with
  | unmeasured size => exact List.forall_mem_singleton.mpr (not_injects_size size)
  | unlocated size place => exact both size place
  | cornered h | clear h =>
      obtain ⟨_, _, _, _, finds, -⟩ := h
      exact both finds.size finds.place

/-- When the pointer was found and the action refused all the same, it was in a corner. -/
theorem Checked.corner_of_finds {calls : List Call} {f : Failure} (h : Checked calls (some f))
    {geometry pointer : Call} (front : [geometry, pointer] <+: calls) {width height x y : Int}
    (finds : Finds geometry pointer width height x y) :
    f = [.failSafe] ∧ AtCorner x y width height := by
  cases h with
  | unmeasured => exact absurd front.length_le (Nat.not_succ_le_self 1)
  | unlocated size place unread =>
      cases front.eq_of_length rfl
      rw [finds.located] at unread
      cases unread
  | cornered h =>
      cases front.eq_of_length rfl
      obtain ⟨_, _, _, _, finds', corner⟩ := h
      cases finds.measured.symm.trans finds'.measured
      cases finds.located.symm.trans finds'.located
      exact ⟨rfl, corner⟩

/-- A refusal is a failure, and is the bare one of the fail-safe only for a pointer in a corner. -/
theorem Checked.refusal {action : Action} {calls : List Call} {f : Failure}
    (h : Checked calls (some f)) :
    f ≠ [] ∧ (f = [.failSafe] ↔ Attempt.InCorner ⟨action, calls, some f⟩) := by
  have bare : Attempt.InCorner ⟨action, calls, some f⟩ → f = [.failSafe] := by
    rintro ⟨geometry, pointer, front, width, height, x, y, finds, -⟩
    exact (h.corner_of_finds front finds).1
  cases h with
  | unmeasured _ _ filled other => exact ⟨filled, fun same => absurd same other, bare⟩
  | unlocated _ _ _ filled other => exact ⟨filled, fun same => absurd same other, bare⟩
  | cornered h => exact ⟨List.cons_ne_nil _ _, fun _ => ⟨_, _, List.prefix_rfl, h⟩, bare⟩

namespace Performed

variable {i : Injection} {a : Attempt}

/-- What injects is the last call of an attempt, behind two queries that found no corner. -/
theorem clear_before (h : Performed i a) (on : i.failSafe = true) {before after : List Call}
    {call : Call} (split : a.calls = before ++ call :: after) (injects : call.Injects) :
    ∃ geometry pointer, before = [geometry, pointer] ∧ after = [] ∧ Clear geometry pointer := by
  have member : call ∈ before ++ call :: after := List.mem_append_right _ List.mem_cons_self
  cases h with
  | idle =>
      rw [← split] at member
      exact absurd member List.not_mem_nil
  | refused on some checked =>
      rw [← split] at member
      exact absurd injects (checked.not_injects call member)
  | passed on some checked answer result =>
      -- a call in front of the last one is a query
      rcases List.eq_nil_or_concat after with rfl | ⟨after, last, rfl⟩
      · obtain ⟨rfl, -⟩ := List.append_inj' split rfl
        cases checked with
        | clear h => exact ⟨_, _, rfl, rfl, h⟩
      · rw [List.concat_eq_append, ← List.cons_append, ← List.append_assoc] at split
        obtain ⟨rfl, -⟩ := List.append_inj' split rfl
        exact absurd injects (checked.not_injects call
          (List.mem_append_right _ List.mem_cons_self))
  | unguarded off => exact absurd on (by simp [off])

theorem passes (h : Performed i a) (on : i.failSafe = true) (cleared : a.Cleared) :
    ∃ call, a.calls.getLast? = some call ∧ a.action.arguments = some call.arguments := by
  obtain ⟨geometry, pointer, front, width, height, x, y, finds, away⟩ := cleared
  cases h with
  | idle => exact absurd front.length_le (Nat.not_succ_le_zero 1)
  | refused on some checked => exact absurd (checked.corner_of_finds front finds).2 away
  | passed on some checked answer result => exact ⟨_, List.getLast?_concat, some⟩
  | unguarded off => exact absurd on (by simp [off])

theorem blocked (h : Performed i a) (on : i.failSafe = true)
    (filled : a.action.keys ≠ [] ∨ a.action.text ≠ []) (uncleared : ¬ a.Cleared) :
    (∀ call ∈ a.calls, ¬ call.Injects) ∧
      ∃ f, f ≠ [] ∧ a.result = some f ∧ (f = [.failSafe] ↔ a.InCorner) := by
  cases h with
  | idle none =>
      obtain ⟨keys, text⟩ := arguments_eq_none_iff.mp none
      exact absurd filled (by simp [keys, text])
  | refused on some checked =>
      obtain ⟨failed, bare⟩ := checked.refusal
      exact ⟨checked.not_injects, _, failed, rfl, bare⟩
  | passed on some checked answer result =>
      cases checked with
      | clear h => exact absurd ⟨_, _, List.prefix_append _ _, h⟩ uncleared
  | unguarded off => exact absurd on (by simp [off])

theorem unguarded_calls (h : Performed i a) (off : i.failSafe = false) :
    a.calls.map Call.arguments = a.action.arguments.toList := by
  cases h with
  | idle none => rw [none]; rfl
  | refused on | passed on => exact absurd on (by simp [off])
  | unguarded off some => rw [some]; rfl

end Performed

/-- A place in a list that was put together lies in one of its parts. -/
theorem flatMap_eq_append_cons {α β : Type} {f : α → List β} {as : List α} {before after : List β}
    {b : β} (h : as.flatMap f = before ++ b :: after) :
    ∃ front a rest left right, as = front ++ a :: rest ∧ f a = left ++ b :: right ∧
      before = front.flatMap f ++ left ∧ after = right ++ rest.flatMap f := by
  induction as generalizing before with
  | nil => exact absurd h.symm (by simp)
  | cons a as ih =>
      have later (t : List β) (here : before = f a ++ t) (there : as.flatMap f = t ++ b :: after) :
          ∃ front a' rest left right, a :: as = front ++ a' :: rest ∧ f a' = left ++ b :: right ∧
            before = front.flatMap f ++ left ∧ after = right ++ rest.flatMap f := by
        obtain ⟨front, a', rest, left, right, rfl, part, rfl, behind⟩ := ih there
        exact ⟨a :: front, a', rest, left, right, rfl, part, by simp [here], behind⟩
      rw [List.flatMap_cons] at h
      obtain ⟨t, here, there⟩ | ⟨t, here, there⟩ := List.append_eq_append_iff.mp h
      · exact later t here there
      · cases t with
        | nil => exact later [] (by simp [here]) there.symm
        | cons b' t =>
            obtain ⟨rfl, rfl⟩ := List.cons.inj there
            exact ⟨[], a, as, before, t, rfl, here, rfl, rfl⟩

/-- Whatever the programs answer and however that changes, and whatever came of the actions before:
with the fail-safe on, every call of a sequence of actions that presses keys or types text comes
right behind the two queries for the same action, and these found the pointer outside the corners
of the screen. When they did so for an action, it is performed. Otherwise it fails and nothing is
pressed or typed for it, and the failure is the bare one of the fail-safe exactly if the pointer
was found in a corner. With the fail-safe off the log holds the actions and nothing else. -/
theorem fail_safe_guards {σ : Type} (desk : Desk σ) (i : Injection) (actions : List Action)
    (s : σ) :
    let attempts := i.attempts desk actions s
    let log := i.log desk actions s
    attempts.map Attempt.action = actions ∧ log = attempts.flatMap Attempt.calls ∧
      (i.failSafe = true →
        (∀ before call after, log = before ++ call :: after → call.Injects →
          ∃ front a rest geometry pointer, attempts = front ++ a :: rest ∧
            before = front.flatMap Attempt.calls ++ [geometry, pointer] ∧
            a.calls = [geometry, pointer, call] ∧ Clear geometry pointer) ∧
        ∀ a ∈ attempts, a.action.keys ≠ [] ∨ a.action.text ≠ [] →
          (a.Cleared →
            ∃ call, a.calls.getLast? = some call ∧ a.action.arguments = some call.arguments) ∧
          (¬ a.Cleared → (∀ call ∈ a.calls, ¬ call.Injects) ∧
            ∃ f, f ≠ [] ∧ a.result = some f ∧ (f = [.failSafe] ↔ a.InCorner))) ∧
      (i.failSafe = false →
        (∀ call ∈ log, call.Injects) ∧
        ∀ a ∈ attempts, a.calls.map Call.arguments = a.action.arguments.toList) := by
  intro attempts log
  have performed : ∀ a ∈ attempts, Performed i a := i.performed_attempts desk actions s
  have parts : log = attempts.flatMap Attempt.calls := i.log_eq desk actions s
  refine ⟨i.map_attempts desk actions s, parts, fun on => ⟨?_, ?_⟩, fun off => ⟨?_, ?_⟩⟩
  · intro before call after split injects
    rw [parts] at split
    obtain ⟨front, a, rest, left, right, whole, calls, rfl, -⟩ := flatMap_eq_append_cons split
    have member : a ∈ attempts := whole ▸ List.mem_append_right _ List.mem_cons_self
    obtain ⟨geometry, pointer, rfl, rfl, clear⟩ :=
      (performed a member).clear_before on calls injects
    exact ⟨front, a, rest, geometry, pointer, whole, rfl, calls, clear⟩
  · intro a ha filled
    exact ⟨(performed a ha).passes on, (performed a ha).blocked on filled⟩
  · intro call hc
    rw [parts] at hc
    obtain ⟨a, ha, hc⟩ := List.mem_flatMap.mp hc
    have only := (performed a ha).unguarded_calls off
    have member : call.arguments ∈ a.action.arguments.toList := only ▸ List.mem_map_of_mem hc
    exact injects_of_arguments (Option.mem_toList.mp member) call.program call.answer
  · intro a ha
    exact (performed a ha).unguarded_calls off

/-- The pointer is moved to a corner behind the first action, and the second one is refused. -/
theorem fail_safe_guards_moved :
    let desk : Desk Nat :=
      ⟨fun _ arguments n => (n + 1, .ok (
        if arguments = placeQuery then utf8 (if n < 3 then "X=5\nY=0\n" else "Y=0\nX=799\n")
        else utf8 "800 600\n")), fun _ n => (n, none)⟩
    let i : Injection := { binary := utf8 "xdotool", pause := 0, failSafe := true }
    let actions : List Action := [.hotkey [utf8 "ctrl", utf8 "+"], .type [], .type (utf8 "a")]
    let attempts := i.attempts desk actions 0
    let log := i.log desk actions 0
    log.map Call.arguments = [sizeQuery, placeQuery,
        [utf8 "key", utf8 "--clearmodifiers", utf8 "ctrl+plus"], sizeQuery, placeQuery] ∧
      attempts.map Attempt.result = [none, none, some [.failSafe]] ∧
      ∀ before call after, log = before ++ call :: after → call.Injects →
        ∃ front a rest geometry pointer, attempts = front ++ a :: rest ∧
          before = front.flatMap Attempt.calls ++ [geometry, pointer] ∧
          a.calls = [geometry, pointer, call] ∧ Clear geometry pointer := by
  intro desk i actions attempts log
  obtain ⟨-, -, on, -⟩ := fail_safe_guards desk i actions 0
  exact ⟨by decide +kernel, by decide +kernel, (on rfl).1⟩

end KeyScript

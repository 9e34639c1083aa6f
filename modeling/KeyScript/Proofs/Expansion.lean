import KeyScript.Keyboard.Rehearsal
import KeyScript.Proofs.Links
import KeyScript.Proofs.Loading
import KeyScript.Proofs.Moves

/-!
What a run does when nothing fails, told from the list of commands alone. The
expansion of a list needs no machine and no repetition within a repetition: it
gives each command its wait and its events by looking at the commands in front
of it. A run does exactly that, whoever its host is.
-/

namespace KeyScript

/-- A wait of whole milliseconds, at its true length. -/
def Event.wait (ms : Int) : Event :=
  .sleep (ms * 1000000)

/-- What a command that is no repetition does after its wait. -/
def Command.ownEvents (c : Command) : List Event :=
  match c.verb with
  | .delay => [.wait c.millis]
  | .typeText => [.act (.type c.text)]
  | .press => [.act (.hotkey c.keys)]
  | .comment | .setDefaultDelay | .again => []

/-- The default delay after commands: the last one that was set, or `d`. -/
def lastDelay (d : Int) (cs : List Command) : Int :=
  match cs.reverse.find? fun c => c.verb == .setDefaultDelay with
  | some c => c.millis
  | none => d

/-- The index of the nearest command before `i` that is no repetition. -/
def plainBefore (cs : List Command) : Nat → Option Nat
  | 0 => none
  | i + 1 => if cs[i]?.any fun c => c.verb != .again then some i else plainBefore cs i

/-- How often the command at `j` is done at `i`, when all between are repetitions. -/
def rounds (cs : List Command) (j i : Nat) : Nat :=
  ((cs.take (i + 1)).drop (j + 1)).foldl (fun n c => n * c.count) 1

/-- What the command at an index does after its wait. -/
def bodyAt (cs : List Command) (i : Nat) : List Event :=
  match cs[i]? with
  | none => []
  | some c =>
    if c.verb = .again then
      match plainBefore cs i with
      | none => []
      | some j => (List.replicate (rounds cs j i) ((cs[j]?.map Command.ownEvents).getD [])).flatten
    else c.ownEvents

/-- The wait in front of the command at an index; comments do not wait. -/
def waitAt (d : Int) (cs : List Command) (i : Nat) : List Event :=
  if cs[i]?.any Command.skipsDelay then [] else [.wait (lastDelay d (cs.take i))]

/-- All that commands do from the default delay `d` on. -/
def expansion (d : Int) (cs : List Command) : List Event :=
  (List.range cs.length).flatMap fun i => waitAt d cs i ++ bodyAt cs i

def Move.event? : Move → Option Event
  | .wait _ ms => some (.sleep (nanosOfMillis ms))
  | .act _ action => some (.act action)
  | .note _ | .setDelay _ => none

/-- What a host sees of moves apart from the log. -/
def eventsOf (xs : List Move) : List Event :=
  xs.filterMap Move.event?

theorem eventsOf_append (xs ys : List Move) :
    eventsOf (xs ++ ys) = eventsOf xs ++ eventsOf ys :=
  List.filterMap_append

theorem eventsOf_flatten_replicate (n : Nat) (xs : List Move) :
    eventsOf (List.replicate n xs).flatten = (List.replicate n (eventsOf xs)).flatten := by
  induction n with
  | zero => rfl
  | succ n ih =>
      rw [List.replicate_succ, List.flatten_cons, eventsOf_append, ih, List.replicate_succ,
        List.flatten_cons]

theorem flatten_replicate_mul {α : Type} (m n : Nat) (l : List α) :
    (List.replicate m (List.replicate n l).flatten).flatten =
      (List.replicate (n * m) l).flatten := by
  induction m with
  | zero => simp
  | succ m ih =>
      rw [List.replicate_succ, List.flatten_cons, ih, ← List.flatten_append,
        List.replicate_append_replicate, Nat.mul_succ, Nat.add_comm]

/-- A wait within bounds has its true length. -/
theorem nanosOfMillis_eq {ms : Int} (low : 0 ≤ ms) (high : ms ≤ maxMillis) :
    nanosOfMillis ms = ms * 1000000 := by
  simp only [maxMillis] at high
  exact Int.bmod_eq_of_le (by omega) (by omega)

theorem eventsOf_frontMoves (d : Int) (c : Command) :
    eventsOf (c.frontMoves false d) =
      if c.skipsDelay then [] else [.sleep (nanosOfMillis d)] := by
  simp only [Command.frontMoves, Bool.false_or]
  split <;> rfl

theorem eventsOf_plain (raw : Text) (line : Int) {deed : Deed} (h : deed.millis ≤ maxMillis) :
    eventsOf (Command.plain raw line deed).bodyMoves = (Command.plain raw line deed).ownEvents := by
  cases deed with
  | delay ms =>
      have hms : (ms : Int) ≤ maxMillis := Int.ofNat_le.mpr h
      simp only [Command.bodyMoves, Deed.moves, eventsOf, Command.ownEvents, Event.wait,
        List.filterMap_cons, Move.event?, nanosOfMillis_eq (Int.natCast_nonneg ms) hms]
      rfl
  | comment text | setDefaultDelay ms | typeText text | press keys => rfl

theorem eventsOf_again (raw : Text) (line : Int) (count : Nat) (target : Command) :
    eventsOf (Command.again raw line count target).bodyMoves =
      (List.replicate count (eventsOf target.bodyMoves)).flatten := by
  rw [Command.bodyMoves, eventsOf_flatten_replicate]
  rfl

theorem plainBefore_lt {cs : List Command} {i j : Nat} (h : plainBefore cs i = some j) :
    j < i := by
  induction i with
  | zero => cases h
  | succ i ih =>
      simp only [plainBefore] at h
      split at h
      · cases h
        exact Nat.lt_succ_self _
      · exact Nat.lt_succ_of_lt (ih h)

theorem rounds_succ {cs : List Command} {j i : Nat} {c : Command} (hj : j ≤ i)
    (hc : cs[i + 1]? = some c) : rounds cs j (i + 1) = rounds cs j i * c.count := by
  have hlen : i + 1 < cs.length := (List.getElem?_eq_some_iff.mp hc).1
  have htake : (cs.take (i + 1 + 1)).drop (j + 1) = (cs.take (i + 1)).drop (j + 1) ++ [c] := by
    rw [List.take_add_one, hc,
      List.drop_append_of_le_length (by rw [List.length_take]; omega)]
    rfl
  simp only [rounds, htake, List.foldl_append, List.foldl_cons, List.foldl_nil]

theorem rounds_self (cs : List Command) (i : Nat) : rounds cs i i = 1 := by
  rw [rounds, List.drop_eq_nil_of_le (List.length_take_le _ _)]
  rfl

theorem bodyAt_plain {cs : List Command} {i : Nat} {c : Command} (hc : cs[i]? = some c)
    (plain : c.verb ≠ .again) : bodyAt cs i = c.ownEvents := by
  simp only [bodyAt, hc, plain, ite_false]

/-- A repetition does what the command in front of it does, as often as it says. -/
theorem bodyAt_again {cs : List Command} {i : Nat} {c t : Command}
    (hc : cs[i + 1]? = some c) (again : c.verb = .again) (ht : cs[i]? = some t) :
    bodyAt cs (i + 1) = (List.replicate c.count (bodyAt cs i)).flatten := by
  by_cases plain : t.verb = .again
  -- A repetition of a repetition leads to the same command as its target, and the counts multiply.
  · have hp : plainBefore cs (i + 1) = plainBefore cs i := by
      simp [plainBefore, ht, plain]
    simp only [bodyAt, hc, again, ite_true, hp, ht, plain]
    cases hj : plainBefore cs i with
    | none => simp
    | some j =>
        have hlt := plainBefore_lt hj
        simp only [rounds_succ (Nat.le_of_lt hlt) hc, flatten_replicate_mul]
  · have hp : plainBefore cs (i + 1) = some i := by
      simp [plainBefore, ht, plain]
    rw [bodyAt_plain ht plain]
    simp only [bodyAt, hc, again, ite_true, hp, ht, Option.map_some, Option.getD_some,
      rounds_succ (Nat.le_refl i) hc, rounds_self, Nat.one_mul]

/-- Behind its wait a command does what its place among linked commands says. -/
theorem eventsOf_bodyMoves {cs : List Command} (linked : Linked cs.reverse)
    (bounded : ∀ c ∈ cs, c.millis ≤ maxMillis) {i : Nat} {c : Command}
    (hc : cs[i]? = some c) : eventsOf c.bodyMoves = bodyAt cs i := by
  induction c generalizing i with
  | plain raw line deed =>
      rw [eventsOf_plain raw line (bounded _ (List.mem_of_getElem? hc)),
        bodyAt_plain hc (by cases deed <;> nofun)]
  | again raw line count target ih =>
      cases i with
      | zero =>
          have nothing : target = .nothing := linked.target_zero hc rfl
          simp only [eventsOf_again, nothing, bodyAt, hc, Command.verb, ite_true, plainBefore]
          simp [Command.nothing, Command.bodyMoves, Deed.moves, eventsOf]
      | succ i =>
          have ht : cs[i]? = some target := linked.target_succ hc rfl
          rw [eventsOf_again, ih ht, bodyAt_again hc rfl ht]
          rfl

theorem Linked.of_append {xs ys : List Command} (h : Linked (xs ++ ys)) : Linked ys := by
  induction xs with
  | nil => exact h
  | cons x xs ih => exact ih h.2.2.2

theorem Linked.take {cs : List Command} (h : Linked cs.reverse) (i : Nat) :
    Linked (cs.take i).reverse := by
  rw [← List.take_append_drop i cs, List.reverse_append] at h
  exact h.of_append

theorem delayAfterAll_reverse_cons (d : Int) (c : Command) (before : List Command) :
    delayAfterAll d (c :: before).reverse = c.delayAfter (delayAfterAll d before.reverse) := by
  simp [delayAfterAll]

/-- Among linked commands only those that set the default delay change it: what a repetition
sets again is already in force. -/
theorem delayAfterAll_eq_lastDelay {cs : List Command} (linked : Linked cs.reverse) (d : Int) :
    delayAfterAll d cs = lastDelay d cs := by
  rw [← List.reverse_reverse cs]
  generalize cs.reverse = recent at linked
  simp only [lastDelay, List.reverse_reverse]
  induction recent with
  | nil => rfl
  | cons c before ih =>
      rw [delayAfterAll_reverse_cons]
      have hbefore := ih linked.2.2.2
      cases c with
      | plain raw line deed =>
          cases deed with
          | setDefaultDelay ms => rfl
          | comment text | delay ms | typeText text | press keys => exact hbefore
      | again raw line count target =>
          -- The target stands right before, so its effect is part of `before` already.
          refine Eq.trans ?_ hbefore
          simp only [Command.delayAfter]
          split
          · rfl
          · have htarget := linked.2.2.1 target rfl
            cases before with
            | nil =>
                rw [htarget]
                rfl
            | cons b rest =>
                rw [List.head?_cons, Option.getD_some] at htarget
                rw [htarget, delayAfterAll_reverse_cons, delayAfter_idem]

theorem lastDelay_bounds {d : Int} {cs : List Command} (low : 0 ≤ d) (high : d ≤ maxMillis)
    (bounded : ∀ c ∈ cs, c.millis ≤ maxMillis) :
    0 ≤ lastDelay d cs ∧ lastDelay d cs ≤ maxMillis := by
  simp only [lastDelay]
  split
  · rename_i c found
    have hc := bounded c (List.mem_reverse.mp (List.mem_of_find?_eq_some found))
    omega
  · exact ⟨low, high⟩

theorem eventsOf_runMoves_cons (d : Int) (c : Command) (rest : List Command) :
    eventsOf (runMoves d (c :: rest)) =
      eventsOf (c.moves false d) ++ eventsOf (runMoves (c.delayAfter d) rest) :=
  eventsOf_append _ _

/-- The events of a run, command by command, each from the default delay that is then in force. -/
theorem eventsOf_runMoves (d : Int) (cs : List Command) :
    eventsOf (runMoves d cs) =
      (List.range cs.length).flatMap fun i =>
        (cs[i]?.map fun c => eventsOf (c.moves false (delayAfterAll d (cs.take i)))).getD [] := by
  induction cs generalizing d with
  | nil => rfl
  | cons c rest ih =>
      rw [eventsOf_runMoves_cons, ih, List.length_cons, List.range_succ_eq_map,
        List.flatMap_cons, List.flatMap_map]
      rfl

/-- What linked commands do, move by move, is their expansion. -/
theorem eventsOf_runMoves_eq_expansion {cs : List Command} (linked : Linked cs.reverse)
    (bounded : ∀ c ∈ cs, c.millis ≤ maxMillis) {d : Int} (low : 0 ≤ d) (high : d ≤ maxMillis) :
    eventsOf (runMoves d cs) = expansion d cs := by
  rw [eventsOf_runMoves, expansion, List.flatMap_def, List.flatMap_def]
  refine congrArg List.flatten (List.map_congr_left fun i hi => ?_)
  have hi : i < cs.length := List.mem_range.mp hi
  have hc : cs[i]? = some cs[i] := List.getElem?_eq_getElem hi
  obtain ⟨low, high⟩ := lastDelay_bounds low high
    (fun c hc => bounded c (List.mem_of_mem_take hc) : ∀ c ∈ cs.take i, c.millis ≤ maxMillis)
  simp only [hc, Option.map_some, Option.getD_some, Command.moves, eventsOf_append,
    eventsOf_frontMoves, eventsOf_bodyMoves linked bounded hc,
    delayAfterAll_eq_lastDelay (linked.take i), waitAt, Option.any_some, Event.wait,
    nanosOfMillis_eq low high]

section

variable {σ : Type}

/-- A clock and a keyboard that never fail as long as the state is in `good`, and a trace of what
they were asked for. -/
structure Host.Obliges (host : Host σ) (good : σ → Prop) (trace : σ → List Event) : Prop where
  sleep : ∀ length state, good state → ∃ state', host.sleep length state = (state', none) ∧
    good state' ∧ trace state' = trace state ++ [.sleep length]
  act : ∃ perform, host.keyboard = some perform ∧
    ∀ action state, good state → ∃ state', perform action state = (state', none) ∧
      good state' ∧ trace state' = trace state ++ [.act action]
  note : ∀ record state, good state →
    good (host.note record state) ∧ trace (host.note record state) = trace state

variable {host : Host σ} {good : σ → Prop} {trace : σ → List Event}

theorem Host.Obliges.perform (h : host.Obliges good trace) (x : Move) {m : Machine σ}
    (hm : good m.host) :
    ∃ m', x.perform host m = (m', none) ∧ good m'.host ∧
      trace m'.host = trace m.host ++ x.event?.toList := by
  cases x with
  | note r =>
      obtain ⟨kept, same⟩ := h.note r m.host hm
      exact ⟨m.note host r, rfl, kept, same.trans (List.append_nil _).symm⟩
  | wait c ms =>
      obtain ⟨state, slept, kept, grown⟩ := h.sleep (nanosOfMillis ms) m.host hm
      refine ⟨{ m with host := state }, ?_, kept, grown⟩
      simp only [Move.perform, waitFor, slept]
  | act c action =>
      obtain ⟨perform, keyboard, acts⟩ := h.act
      obtain ⟨state, acted, kept, grown⟩ := acts action m.host hm
      refine ⟨{ m with host := state }, ?_, kept, grown⟩
      simp only [Move.perform, performFor, keyboard, acted]
  | setDelay ms => exact ⟨{ m with delay := ms }, rfl, hm, (List.append_nil _).symm⟩

theorem Host.Obliges.performAll (h : host.Obliges good trace) (xs : List Move) {m : Machine σ}
    (hm : good m.host) :
    ∃ m', performAll host xs m = (m', none) ∧ good m'.host ∧
      trace m'.host = trace m.host ++ eventsOf xs := by
  induction xs generalizing m with
  | nil => exact ⟨m, rfl, hm, (List.append_nil _).symm⟩
  | cons x xs ih =>
      obtain ⟨mid, first, hmid, one⟩ := h.perform x hm
      obtain ⟨m', others, good', more⟩ := ih hmid
      refine ⟨m', ?_, good', ?_⟩
      · simp only [KeyScript.performAll, first, others]
      · rw [more, one, List.append_assoc]
        cases hx : x.event? <;> simp [eventsOf, hx]

theorem Host.Obliges.noteAll (h : host.Obliges good trace) (records : List Record) {state : σ}
    (hs : good state) :
    good (host.noteAll records state) ∧ trace (host.noteAll records state) = trace state := by
  induction records generalizing state with
  | nil => exact ⟨hs, rfl⟩
  | cons r rest ih =>
      obtain ⟨kept, same⟩ := h.note r state hs
      obtain ⟨kept', same'⟩ := ih kept
      exact ⟨kept', same'.trans same⟩

theorem Host.Obliges.runLoaded (h : host.Obliges good trace) (s : Script) {state : σ}
    (start : good state) :
    ∃ state', s.runLoaded host state =
        (({ s with delay := delayAfterAll s.delay s.commands }, state'), none) ∧
      trace state' = trace state ++ eventsOf (runMoves s.delay s.commands) := by
  obtain ⟨records, run⟩ := s.runLoaded_eq_performAll host state
  obtain ⟨m, performed, kept, grown⟩ := h.performAll s.moves (m := ⟨s.delay, state⟩) start
  have delay : m.delay = delayAfterAll s.delay s.commands :=
    runMoves_delay host (m := Machine.note host ⟨s.delay, state⟩ s.startRecord) performed
  obtain ⟨_, same⟩ := h.noteAll records kept
  refine ⟨host.noteAll records m.host, ?_, same.trans grown⟩
  rw [run, performed, delay]

/-- A rehearsal that is never called off obliges when its guard lets everything through. -/
theorem Rehearsal.host_obliges {μ : Type} {guard : Guard μ}
    (open_ : ∀ memory action, (guard memory action).2 = none) (noted : Bool) :
    (Rehearsal.host guard .recorded true noted).Obliges (fun r => r.countdown = none)
      (fun r => r.events.toList) where
  sleep length r hr := by
    refine ⟨{ r with events := r.events.push (.sleep length) }, ?_, hr, Array.toList_push⟩
    simp [Rehearsal.host, Rehearsal.sleep, hr, Countdown.tick, Countdown.failure, Countdown.isOver]
  act := by
    refine ⟨Rehearsal.perform guard, rfl, fun action r hr => ?_⟩
    have passes := open_ r.recorder.memory action
    rcases hg : guard r.recorder.memory action with ⟨memory, _ | refusal⟩
    · refine ⟨{ r with recorder := ⟨memory, r.recorder.actions.push action⟩
                       events := r.events.push (.act action) }, ?_, hr, Array.toList_push⟩
      simp [Rehearsal.perform, Recorder.record, hr, hg, Countdown.isOver]
    · rw [hg] at passes
      cases passes
  note record r hr := by
    simp only [Rehearsal.host]
    split
    · exact ⟨hr, rfl⟩
    · exact ⟨hr, rfl⟩

/-- A run of the commands of a text goes through when neither the clock nor the keyboard fails,
and then does exactly what the expansion of these commands says. -/
theorem run_eq_expansion (obliges : host.Obliges good trace) {s loaded : Script}
    {source : Source} (accepted : s.loadFrom source = .ok loaded)
    {d : Int} (low : 0 ≤ d) (high : d ≤ maxMillis)
    (disk : Disk) {state : σ} (start : good state) :
    ∃ state', ({ loaded with delay := d } : Script).run host disk state =
        (({ loaded with delay := lastDelay d loaded.commands }, state'), none) ∧
      trace state' = trace state ++ expansion d loaded.commands := by
  obtain ⟨cs, commands, rfl⟩ := Script.loadFrom_eq_ok_iff.mp accepted
  have linked := linked_commands commands
  obtain ⟨state', run, grown⟩ := obliges.runLoaded
    { s.endLoad with commands := cs, loaded := true, delay := d } start
  rw [eventsOf_runMoves_eq_expansion linked (commands_millis_le commands) low high] at grown
  rw [delayAfterAll_eq_lastDelay linked] at run
  exact ⟨state', run, grown⟩

/-- A comment, and repetitions of nothing, of a change of the default delay and of a repetition. -/
theorem run_eq_expansion_nested :
    let host := Rehearsal.host (fun (_ : Unit) _ => ((), none)) .recorded true false
    let source : Source :=
      ⟨utf8 "REPEAT 9\nDEFAULT_DELAY 20\nREPEAT 2\nREM\nSTRING a\nREPEAT 2\nREPEAT 2", none⟩
    let s : Script := { path := utf8 "a" }
    let loaded := (s.tryLoadFrom source).1
    let start : Rehearsal Unit := { recorder := ⟨(), #[]⟩ }
    let a := Event.act (.type (utf8 "a"))
    ∃ state, ({ loaded with delay := 7 } : Script).run host (fun _ => .ok .directory) start =
        (({ loaded with delay := 20 }, state), none) ∧
      state.events.toList =
        [.wait 7, .wait 7, .wait 20, .wait 20, a, .wait 20, a, a, .wait 20, a, a, a, a] := by
  intro host source s loaded start a
  have computed : (s.tryLoadFrom source).2 = none ∧ lastDelay 7 loaded.commands = 20 ∧
      expansion 7 loaded.commands =
        [.wait 7, .wait 7, .wait 20, .wait 20, a, .wait 20, a, a, .wait 20, a, a, a, a] := by
    decide +kernel
  obtain ⟨ok, delay, expanded⟩ := computed
  have obliges : host.Obliges (fun r => r.countdown = none) (fun r => r.events.toList) :=
    Rehearsal.host_obliges (fun _ _ => rfl) false
  have running : start.countdown = none := rfl
  obtain ⟨state, run, events⟩ := run_eq_expansion obliges (Script.loadFrom_of_none ok) (d := 7)
    (by decide) (by decide) (fun _ => .ok .directory) running
  rw [delay] at run
  rw [expanded] at events
  exact ⟨state, run, events⟩

end

end KeyScript

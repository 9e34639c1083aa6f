import KeyScript.Script.Run

/-!
A run as a list of moves that is fixed before it starts. What a command does
depends on the host only through the first fault, so running commands is the
same as making their moves in order up to that fault. The default delay is the
only thing that commands leave to those behind them, and it changes only by
moves that cannot fail.
-/

namespace KeyScript

/-- One thing that a run does, on behalf of a command where the host may refuse it. -/
inductive Move where
  | note (r : Record)
  | wait (c : Command) (ms : Int)
  | act (c : Command) (action : Action)
  | setDelay (ms : Int)
deriving DecidableEq, Repr

/-- The moves of a command that stands on its own, behind its wait. -/
def Deed.moves (c : Command) : Deed → List Move
  | .comment _ => []
  | .delay ms => [.wait c ms]
  | .setDefaultDelay ms => [.setDelay ms]
  | .typeText text => [.act c (.type text)]
  | .press keys => [.act c (.hotkey keys)]

namespace Command

/-- The moves of a command up to its wait for the default delay `d`. -/
def frontMoves (suppressed : Bool) (d : Int) (c : Command) : List Move :=
  .note c.startRecord ::
    if suppressed || c.skipsDelay then [] else [.note (c.delayRecord d), .wait c d]

/-- The moves of a command behind its wait. No round of a repetition has a wait of its own. -/
def bodyMoves : Command → List Move
  | .plain raw line deed => deed.moves (.plain raw line deed)
  | .again _ _ count target =>
    (List.replicate count (.note target.startRecord :: target.bodyMoves)).flatten

def moves (suppressed : Bool) (d : Int) (c : Command) : List Move :=
  c.frontMoves suppressed d ++ c.bodyMoves

/-- The default delay after a command. -/
def delayAfter (d : Int) : Command → Int
  | .plain _ _ deed =>
    match deed with
    | .setDefaultDelay ms => ms
    | _ => d
  | .again _ _ count target => if count = 0 then d else target.delayAfter d

end Command

/-- The moves of commands that run one after another, from the default delay `d` on. -/
def runMoves (d : Int) : List Command → List Move
  | [] => []
  | c :: rest => .note c.turnRecord :: (c.moves false d ++ runMoves (c.delayAfter d) rest)

/-- The default delay after commands that ran one after another. -/
def delayAfterAll (d : Int) (cs : List Command) : Int :=
  cs.foldl (fun d c => c.delayAfter d) d

section

variable {σ : Type} (host : Host σ)

def Move.perform : Move → Machine σ → Outcome σ
  | .note r, m => (m.note host r, none)
  | .wait c ms, m => waitFor host c ms m
  | .act c action, m => performFor host c action m
  | .setDelay ms, m => ({ m with delay := ms }, none)

/-- Makes moves in order, up to the first fault. -/
def performAll : List Move → Machine σ → Outcome σ
  | [], m => (m, none)
  | x :: rest, m =>
    match x.perform host m with
    | (m, none) => performAll rest m
    | stopped => stopped

/-- The machine with more records in the log of its host. -/
def Machine.noteAll (m : Machine σ) (records : List Record) : Machine σ :=
  { m with host := host.noteAll records m.host }

@[simp] theorem note_delay (m : Machine σ) (r : Record) : (m.note host r).delay = m.delay := rfl

theorem performAll_append (xs ys : List Move) (m : Machine σ) :
    performAll host (xs ++ ys) m =
      match performAll host xs m with
      | (m, none) => performAll host ys m
      | stopped => stopped := by
  induction xs generalizing m with
  | nil => rfl
  | cons x xs ih =>
      simp only [List.cons_append, performAll]
      rcases x.perform host m with ⟨m, _ | fault⟩
      · exact ih m
      · rfl

theorem performAll_singleton (x : Move) (m : Machine σ) :
    performAll host [x] m = x.perform host m := by
  simp only [performAll]
  rcases x.perform host m with ⟨m, _ | fault⟩ <;> rfl

/-- The moves of `xs` and `ys` all succeed exactly when those of both parts do. -/
theorem performAll_append_none {xs ys : List Move} {m m' : Machine σ} :
    performAll host (xs ++ ys) m = (m', none) ↔
      ∃ mid, performAll host xs m = (mid, none) ∧ performAll host ys mid = (m', none) := by
  rw [performAll_append]
  rcases performAll host xs m with ⟨mid, _ | fault⟩ <;> simp

theorem performAll_append_some {xs ys : List Move} {m m' : Machine σ} {fault : Fault} :
    performAll host (xs ++ ys) m = (m', some fault) ↔
      performAll host xs m = (m', some fault) ∨
      ∃ mid, performAll host xs m = (mid, none) ∧
        performAll host ys mid = (m', some fault) := by
  rw [performAll_append]
  rcases performAll host xs m with ⟨mid, _ | f⟩ <;> simp

theorem waitFor_delay (c : Command) (ms : Int) (m : Machine σ) :
    (waitFor host c ms m).1.delay = m.delay := by
  simp only [waitFor]
  rcases host.sleep (nanosOfMillis ms) m.host with ⟨s, _ | f⟩ <;> rfl

theorem performFor_delay (c : Command) (action : Action) (m : Machine σ) :
    (performFor host c action m).1.delay = m.delay := by
  simp only [performFor]
  cases host.keyboard with
  | none => rfl
  | some perform =>
      simp only
      rcases perform action m.host with ⟨s, _ | f⟩ <;> rfl

theorem checkedDelay_natCast (ms : Nat) : checkedDelay ms = .ok (ms : Int) := by
  have h : (0 : Int) ≤ ms := Int.natCast_nonneg ms
  simp [checkedDelay, requireNonNegative, require, h]

theorem waitBefore_eq_performAll (c : Command) (suppressed : Bool) (m : Machine σ) :
    waitBefore host c suppressed m = performAll host (c.frontMoves suppressed m.delay) m := by
  simp only [waitBefore, Command.frontMoves]
  split
  · rfl
  · exact (performAll_singleton host (.wait c m.delay) _).symm

theorem doDeed_eq_performAll (c : Command) (deed : Deed) (m : Machine σ) :
    doDeed host c m deed = performAll host (deed.moves c) m := by
  cases deed with
  | comment text => rfl
  | setDefaultDelay ms => simp only [doDeed, checkedDelay_natCast]; rfl
  | delay ms | typeText text | press keys => rw [Deed.moves, performAll_singleton]; rfl

theorem repeatUntilFault_eq_performAll (step : Machine σ → Outcome σ) (xs : List Move)
    (h : ∀ m, step m = performAll host xs m) (n : Nat) (m : Machine σ) :
    repeatUntilFault step n m = performAll host (List.replicate n xs).flatten m := by
  induction n generalizing m with
  | zero => rfl
  | succ n ih =>
      rw [List.replicate_succ, List.flatten_cons, performAll_append, ← h m, repeatUntilFault]
      rcases step m with ⟨m, _ | fault⟩
      · exact ih m
      · rfl

/-- Running a command is making its moves. -/
theorem execute_eq_performAll (c : Command) (suppressed : Bool) (m : Machine σ) :
    c.execute host suppressed m = performAll host (c.moves suppressed m.delay) m := by
  induction c generalizing suppressed m with
  | plain raw line deed =>
      rw [Command.execute, Command.moves, performAll_append, ← waitBefore_eq_performAll]
      rcases waitBefore host _ suppressed m with ⟨m, _ | fault⟩
      · exact doDeed_eq_performAll host _ deed m
      · rfl
  | again raw line count target ih =>
      rw [Command.execute, Command.moves, performAll_append, ← waitBefore_eq_performAll]
      rcases waitBefore host _ suppressed m with ⟨m, _ | fault⟩
      · exact repeatUntilFault_eq_performAll host _ _ (fun m => ih true m) count m
      · rfl

/-- A move that changes the default delay. -/
def Move.SetsDelay : Move → Prop
  | .setDelay _ => True
  | _ => False

/-- A move that no host can refuse. -/
def Move.Safe : Move → Prop
  | .note _ | .setDelay _ => True
  | _ => False

theorem perform_delay {x : Move} (h : ¬ x.SetsDelay) (m : Machine σ) :
    (x.perform host m).1.delay = m.delay := by
  cases x with
  | note r => rfl
  | wait c ms => exact waitFor_delay host c ms m
  | act c action => exact performFor_delay host c action m
  | setDelay ms => exact absurd trivial h

theorem performAll_delay {xs : List Move} (h : ∀ x ∈ xs, ¬ x.SetsDelay) (m : Machine σ) :
    (performAll host xs m).1.delay = m.delay := by
  induction xs generalizing m with
  | nil => rfl
  | cons x xs ih =>
      have hx := perform_delay host (h x List.mem_cons_self) m
      simp only [performAll]
      rcases he : x.perform host m with ⟨m', _ | fault⟩
      · rw [he] at hx
        exact (ih (fun y hy => h y (List.mem_cons_of_mem _ hy)) m').trans hx
      · rwa [he] at hx

theorem performAll_safe {xs : List Move} (h : ∀ x ∈ xs, x.Safe) (m : Machine σ) :
    (performAll host xs m).2 = none := by
  induction xs generalizing m with
  | nil => rfl
  | cons x xs ih =>
      have hx := h x List.mem_cons_self
      have hxs : ∀ y ∈ xs, y.Safe := fun y hy => h y (List.mem_cons_of_mem _ hy)
      cases x with
      | note r | setDelay ms => exact ih hxs _
      | wait c ms | act c action => exact absurd hx id

theorem mem_frontMoves {suppressed : Bool} {d : Int} {c : Command} {x : Move}
    (h : x ∈ c.frontMoves suppressed d) : (∃ r, x = .note r) ∨ x = .wait c d := by
  simp only [Command.frontMoves] at h
  split at h <;> simp only [List.mem_cons, List.not_mem_nil, or_false] at h
  · exact .inl ⟨_, h⟩
  · obtain rfl | rfl | rfl := h
    · exact .inl ⟨_, rfl⟩
    · exact .inl ⟨_, rfl⟩
    · exact .inr rfl

theorem mem_bodyMoves_again {raw : Text} {line : Int} {count : Nat} {target : Command} {x : Move}
    (h : x ∈ (Command.again raw line count target).bodyMoves) :
    x = .note target.startRecord ∨ x ∈ target.bodyMoves := by
  obtain ⟨round, member, inside⟩ := List.mem_flatten.mp h
  rw [List.eq_of_mem_replicate member] at inside
  exact List.mem_cons.mp inside

theorem moves_forall {P : Move → Prop} (notes : ∀ r, P (.note r)) {c : Command} (suppressed : Bool)
    {d : Int} (wait : P (.wait c d)) (body : ∀ x ∈ c.bodyMoves, P x) :
    ∀ x ∈ c.moves suppressed d, P x := by
  refine List.forall_mem_append.mpr ⟨?_, body⟩
  intro x hx
  obtain ⟨r, rfl⟩ | rfl := mem_frontMoves hx
  · exact notes r
  · exact wait

/-- What holds of records, of waits for a default delay in `D` and of what commands do behind their
waits holds of all moves of a run, if commands keep the default delay in `D`. -/
theorem runMoves_forall {P : Move → Prop} {D : Int → Prop} {cs : List Command}
    (notes : ∀ r, P (.note r)) (waits : ∀ c d, D d → P (.wait c d))
    (bodies : ∀ c ∈ cs, ∀ x ∈ c.bodyMoves, P x) (keep : ∀ c ∈ cs, ∀ d, D d → D (c.delayAfter d))
    {d : Int} (start : D d) : ∀ x ∈ runMoves d cs, P x := by
  induction cs generalizing d with
  | nil => exact fun x hx => absurd hx List.not_mem_nil
  | cons c rest ih =>
      obtain ⟨body, bodies⟩ := List.forall_mem_cons.mp bodies
      obtain ⟨kept, keep⟩ := List.forall_mem_cons.mp keep
      have first := moves_forall notes false (waits c d start) body
      have later := ih bodies keep (kept d start)
      exact List.forall_mem_cons.mpr ⟨notes _, List.forall_mem_append.mpr ⟨first, later⟩⟩

theorem frontMoves_keep_delay (suppressed : Bool) (d : Int) (c : Command) :
    ∀ x ∈ c.frontMoves suppressed d, ¬ x.SetsDelay := by
  intro x hx
  obtain ⟨r, rfl⟩ | rfl := mem_frontMoves hx
  · exact id
  · exact id

/-- A command that can fail behind its wait leaves the default delay alone. -/
theorem bodyMoves_safe_or_keep_delay (c : Command) :
    (∀ x ∈ c.bodyMoves, x.Safe) ∨ ∀ x ∈ c.bodyMoves, ¬ x.SetsDelay := by
  induction c with
  | plain raw line deed =>
      cases deed with
      | comment text => exact .inl (fun x hx => absurd hx List.not_mem_nil)
      | setDefaultDelay ms =>
          exact .inl (fun x hx => by cases List.mem_singleton.mp hx; trivial)
      | delay ms | typeText text | press keys =>
          exact .inr (fun x hx => by cases List.mem_singleton.mp hx; exact id)
  | again raw line count target ih =>
      rcases ih with safe | keep
      · refine .inl (fun x hx => ?_)
        rcases mem_bodyMoves_again hx with rfl | hx
        · trivial
        · exact safe x hx
      · refine .inr (fun x hx => ?_)
        rcases mem_bodyMoves_again hx with rfl | hx
        · exact id
        · exact keep x hx

theorem delayAfter_idem (c : Command) (d : Int) :
    c.delayAfter (c.delayAfter d) = c.delayAfter d := by
  induction c with
  | plain raw line deed => cases deed <;> rfl
  | again raw line count target ih =>
      simp only [Command.delayAfter]
      split
      · rfl
      · exact ih

theorem performAll_rounds_delay {xs : List Move} {f : Int → Int}
    (step : ∀ {m m' : Machine σ}, performAll host xs m = (m', none) → m'.delay = f m.delay)
    (idem : ∀ d, f (f d) = f d) (n : Nat) {m m' : Machine σ}
    (h : performAll host (List.replicate n xs).flatten m = (m', none)) :
    m'.delay = if n = 0 then m.delay else f m.delay := by
  induction n generalizing m with
  | zero => cases h; rfl
  | succ n ih =>
      rw [List.replicate_succ, List.flatten_cons, performAll_append_none] at h
      obtain ⟨mid, first, others⟩ := h
      have hmid := step first
      have hlast := ih others
      rw [hmid, idem] at hlast
      simpa using hlast

theorem bodyMoves_delay (c : Command) {m m' : Machine σ}
    (h : performAll host c.bodyMoves m = (m', none)) : m'.delay = c.delayAfter m.delay := by
  induction c generalizing m m' with
  | plain raw line deed =>
      cases deed with
      | comment text => cases h; rfl
      | setDefaultDelay ms => cases h; rfl
      | delay ms | typeText text | press keys =>
          refine (congrArg (fun o => o.1.delay) h).symm.trans (performAll_delay host ?_ m)
          intro x hx
          cases List.mem_singleton.mp hx
          exact id
  | again raw line count target ih =>
      have step {m m' : Machine σ}
          (h : performAll host (.note target.startRecord :: target.bodyMoves) m = (m', none)) :
          m'.delay = target.delayAfter m.delay :=
        ih (m := m.note host target.startRecord) h
      exact performAll_rounds_delay host (f := fun d => target.delayAfter d) step
        (delayAfter_idem target) count h

/-- A command that runs to its end leaves the default delay it asks for. -/
theorem moves_delay_of_none {c : Command} {d : Int} {m m' : Machine σ}
    (h : performAll host (c.moves false d) m = (m', none)) :
    m'.delay = c.delayAfter m.delay := by
  obtain ⟨mid, front, body⟩ := (performAll_append_none host).mp h
  have hfront := performAll_delay host (frontMoves_keep_delay false d c) m
  rw [front] at hfront
  rw [bodyMoves_delay host c body, ← hfront]

/-- A command that fails leaves the default delay as it was, wherever it fails. -/
theorem moves_delay_of_some {c : Command} {d : Int} {m m' : Machine σ} {fault : Fault}
    (h : performAll host (c.moves false d) m = (m', some fault)) :
    m'.delay = m.delay := by
  have hfront := performAll_delay host (frontMoves_keep_delay false d c) m
  rcases (performAll_append_some host).mp h with front | ⟨mid, front, body⟩
  · rwa [front] at hfront
  · rw [front] at hfront
    -- No round can change the delay and another fail: all rounds make the same moves.
    rcases bodyMoves_safe_or_keep_delay c with safe | keep
    · have none := performAll_safe host safe mid
      rw [body] at none
      cases none
    · have hbody := performAll_delay host keep mid
      rw [body] at hbody
      exact hbody.trans hfront

/-- The commands behind the first one start from the default delay that it leaves. -/
theorem performAll_runMoves_cons (c : Command) (rest : List Command) (m : Machine σ) :
    performAll host (runMoves m.delay (c :: rest)) m =
      match performAll host (c.moves false m.delay) (m.note host c.turnRecord) with
      | (m, none) => performAll host (runMoves m.delay rest) m
      | stopped => stopped := by
  simp only [runMoves, performAll, Move.perform, performAll_append]
  rcases h : performAll host (c.moves false m.delay) (m.note host c.turnRecord) with
    ⟨mid, _ | fault⟩
  · have hd := moves_delay_of_none host h
    rw [note_delay] at hd
    simp only [hd]
  · rfl

/-- Running commands is making their moves; a failure adds at most a record to that. -/
theorem runAll_eq_performAll (path : Text) (cs : List Command) (m : Machine σ) :
    ∃ records, runAll host path cs m =
      ((performAll host (runMoves m.delay cs) m).1.noteAll host records,
        (performAll host (runMoves m.delay cs) m).2) := by
  induction cs generalizing m with
  | nil => exact ⟨[], rfl⟩
  | cons c rest ih =>
      rw [runAll, performAll_runMoves_cons, execute_eq_performAll, note_delay]
      rcases performAll host (c.moves false m.delay) (m.note host c.turnRecord) with
        ⟨mid, _ | ⟨f⟩ | ⟨v⟩⟩
      · exact ih mid
      · exact ⟨[c.failureRecord path f], rfl⟩
      · exact ⟨[], rfl⟩

theorem runMoves_delay {cs : List Command} {m m' : Machine σ}
    (h : performAll host (runMoves m.delay cs) m = (m', none)) :
    m'.delay = delayAfterAll m.delay cs := by
  induction cs generalizing m with
  | nil => cases h; rfl
  | cons c rest ih =>
      rw [performAll_runMoves_cons] at h
      rcases hc : performAll host (c.moves false m.delay) (m.note host c.turnRecord) with
        ⟨mid, _ | fault⟩
      · rw [hc] at h
        have hd := moves_delay_of_none host hc
        rw [ih h, hd]
        rfl
      · rw [hc] at h
        cases h

/-- A run that fails does so in one of the commands: those before it succeed, and the default
delay is the one they leave. -/
theorem runMoves_fault {cs : List Command} {m m' : Machine σ} {fault : Fault}
    (h : performAll host (runMoves m.delay cs) m = (m', some fault)) :
    ∃ k < cs.length,
      (performAll host (runMoves m.delay (cs.take k)) m).2 = none ∧
      (performAll host (runMoves m.delay (cs.take (k + 1))) m).2 = some fault ∧
      m'.delay = delayAfterAll m.delay (cs.take k) := by
  induction cs generalizing m with
  | nil => cases h
  | cons c rest ih =>
      rw [performAll_runMoves_cons] at h
      rcases hc : performAll host (c.moves false m.delay) (m.note host c.turnRecord) with
        ⟨mid, _ | f⟩
      · rw [hc] at h
        obtain ⟨k, hk, before, fails, delay⟩ := ih h
        have hd := moves_delay_of_none host hc
        refine ⟨k + 1, Nat.succ_lt_succ hk, ?_, ?_, ?_⟩
        · simpa only [List.take_succ_cons, performAll_runMoves_cons, hc] using before
        · simpa only [List.take_succ_cons, performAll_runMoves_cons, hc] using fails
        · rw [delay, hd]
          rfl
      · rw [hc] at h
        cases h
        have hd := moves_delay_of_some host hc
        refine ⟨0, Nat.succ_pos _, rfl, ?_, hd⟩
        simp only [List.take_succ_cons, performAll_runMoves_cons, hc]

namespace Script

def moves (s : Script) : List Move :=
  .note s.startRecord :: runMoves s.delay s.commands

theorem runLoaded_eq_performAll (s : Script) (state : σ) :
    ∃ records, s.runLoaded host state =
      (({ s with delay := (performAll host s.moves ⟨s.delay, state⟩).1.delay },
          host.noteAll records (performAll host s.moves ⟨s.delay, state⟩).1.host),
        (performAll host s.moves ⟨s.delay, state⟩).2) := by
  obtain ⟨records, h⟩ := runAll_eq_performAll host s.path s.commands
    (Machine.note host ⟨s.delay, state⟩ s.startRecord)
  simp only [note_delay] at h
  simp only [runLoaded, h, moves, performAll, Move.perform]
  rcases performAll host (runMoves s.delay s.commands) _ with ⟨m, _ | fault⟩
  · refine ⟨records ++ [s.finishRecord], ?_⟩
    simp [Machine.noteAll, Machine.note, Host.noteAll]
  · exact ⟨records, rfl⟩

end Script

end

end KeyScript

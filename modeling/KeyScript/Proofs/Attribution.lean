import KeyScript.Proofs.Agreement
import KeyScript.Proofs.Appending
import KeyScript.Proofs.BareMachine
import KeyScript.Proofs.DelayHistory
import KeyScript.Proofs.Interruption

/-!
Who is to blame when a run fails. The host refuses one request, after it has
granted all those before, and which command made it can be told from its place
in the run: a command waits for the default delay on its own behalf, and all
that follows is done by the command at the end of its chain. The failure names
that command once, however many repetitions it has to pass through.
-/

namespace KeyScript

section

variable {σ : Type} (host : Host σ)

/-- The same host, with a list of what it was asked for and its answers. -/
def Host.logged : Host (σ × List (Event × Option Failure)) where
  sleep length s :=
    let answer := host.sleep length s.1
    ((answer.1, s.2 ++ [(.sleep length, answer.2)]), answer.2)
  keyboard := host.keyboard.map fun perform action s =>
    let answer := perform action s.1
    ((answer.1, s.2 ++ [(.act action, answer.2)]), answer.2)
  note record s := (host.note record s.1, s.2)

theorem Host.agrees_logged :
    host.Agrees host.logged (fun _ => True) fun state s => s.1 = state where
  sleep := by
    rintro length state ⟨_, log⟩ - rfl
    exact ⟨rfl, rfl⟩
  keyboard := by simp [logged]
  act := by
    rintro action perform perform' state ⟨_, log⟩ left right rfl
    simp only [logged, left, Option.map_some, Option.some.injEq] at right
    subst right
    exact ⟨rfl, rfl⟩
  note := by
    rintro record state ⟨_, log⟩ rfl
    rfl

theorem Host.noteAll_logged (records : List Record) (s : σ × List (Event × Option Failure)) :
    (host.logged.noteAll records s).2 = s.2 := by
  induction records generalizing s with
  | nil => rfl
  | cons r rest ih => exact ih (host.logged.note r s)

/-- The command on whose behalf a move asks the host for something. -/
def Move.command? : Move → Option Command
  | .wait c _ | .act c _ => some c
  | .note _ | .setDelay _ => none

/-- A move asks the host for nothing, or its answer is logged and decides how the move ends. -/
theorem Move.perform_logged (x : Move) (m : Machine (σ × List (Event × Option Failure))) :
    (∃ m', x.perform host.logged m = (m', none) ∧ x.event? = none ∧ m'.host.2 = m.host.2) ∨
    (∃ m' c event answer, x.command? = some c ∧ x.event? = some event ∧
      x.perform host.logged m = (m', answer.map fun e => .failure (attributed c e)) ∧
      m'.host.2 = m.host.2 ++ [(event, answer)]) ∨
    ∃ m' v, x.perform host.logged m = (m', some (.violation v)) ∧ m'.host.2 = m.host.2 := by
  cases x with
  | note r => exact .inl ⟨_, rfl, rfl, rfl⟩
  | setDelay ms => exact .inl ⟨_, rfl, rfl, rfl⟩
  | wait c ms =>
      right
      left
      cases asked : host.sleep (nanosOfMillis ms) m.host.1 with
      | mk state answer =>
          simp only [perform, waitFor, Host.logged, asked]
          cases answer with
          | none => exact ⟨_, c, _, none, rfl, rfl, rfl, rfl⟩
          | some e => exact ⟨_, c, _, some e, rfl, rfl, rfl, rfl⟩
  | act c action =>
      right
      cases keyboard : host.keyboard with
      | none =>
          right
          simp only [perform, performFor, Host.logged, keyboard, Option.map_none]
          exact ⟨_, _, rfl, rfl⟩
      | some press =>
          left
          cases asked : press action m.host.1 with
          | mk state answer =>
              simp only [perform, performFor, Host.logged, keyboard, Option.map_some, asked]
              cases answer with
              | none => exact ⟨_, c, _, none, rfl, rfl, rfl, rfl⟩
              | some e => exact ⟨_, c, _, some e, rfl, rfl, rfl, rfl⟩

variable {host}

/-- Moves that fail have been granted everything up to one of them, which was refused. -/
theorem performAll_refused {xs : List Move} {m m' : Machine (σ × List (Event × Option Failure))}
    {f : Failure} (h : performAll host.logged xs m = (m', some (.failure f))) :
    ∃ done x rest c event e, xs = done ++ x :: rest ∧
      x.command? = some c ∧ x.event? = some event ∧ f = attributed c e ∧
      m'.host.2 = m.host.2 ++ ((eventsOf done).map (fun event => (event, none)) ++
        [(event, some e)]) := by
  induction xs generalizing m with
  | nil => cases h
  | cons x xs ih =>
      rw [performAll] at h
      obtain ⟨mid, made, silent, log⟩ | ⟨mid, c, event, answer, asks, asked, made, log⟩ |
        ⟨mid, v, made, -⟩ := x.perform_logged host m
      · rw [made] at h
        obtain ⟨done, y, rest, c, event, e, rfl, asks, asked, blamed, log'⟩ := ih h
        refine ⟨x :: done, y, rest, c, event, e, rfl, asks, asked, blamed, ?_⟩
        have events : eventsOf (x :: done) = eventsOf done := List.filterMap_cons_none silent
        rw [log', log, events]
      · cases answer with
        | none =>
            rw [made] at h
            obtain ⟨done, y, rest, c, event', e, rfl, asks, asked', blamed, log'⟩ := ih h
            refine ⟨x :: done, y, rest, c, event', e, rfl, asks, asked', blamed, ?_⟩
            have events : eventsOf (x :: done) = event :: eventsOf done :=
              List.filterMap_cons_some asked
            rw [log', log, events, List.append_assoc]
            rfl
        | some e =>
            rw [made] at h
            cases h
            exact ⟨[], x, xs, c, event, e, rfl, asks, asked, rfl, log⟩
      · rw [made] at h
        cases h

/-- Moves that do not fail have been granted everything. -/
theorem performAll_granted {xs : List Move} {m : Machine (σ × List (Event × Option Failure))}
    (h : ∀ f, (performAll host.logged xs m).2 ≠ some (.failure f))
    (before : ∀ asked ∈ m.host.2, asked.2 = none) :
    ∀ asked ∈ (performAll host.logged xs m).1.host.2, asked.2 = none := by
  induction xs generalizing m with
  | nil => exact before
  | cons x xs ih =>
      rw [performAll] at h ⊢
      obtain ⟨mid, made, -, log⟩ | ⟨mid, c, event, answer, -, -, made, log⟩ | ⟨mid, v, made, log⟩ :=
        x.perform_logged host m
      · rw [made] at h ⊢
        exact ih h (log ▸ before)
      · cases answer with
        | none =>
            rw [made] at h ⊢
            apply ih h
            rw [log]
            exact List.forall_mem_append.mpr ⟨before, List.forall_mem_singleton.mpr rfl⟩
        | some e =>
            rw [made] at h
            exact absurd rfl (h _)
      · rw [made]
        exact log ▸ before

end

theorem append_eq_append_cons {α : Type} {as bs front back : List α} {a : α}
    (h : as ++ bs = front ++ a :: back) :
    (∃ rest, as = front ++ a :: rest) ∨ ∃ rest, front = as ++ rest ∧ bs = rest ++ a :: back := by
  obtain later | ⟨rest, same, within⟩ := List.append_eq_append_iff.mp h
  · exact .inr later
  · cases rest with
    | nil => exact .inr ⟨[], by simpa using same.symm, within.symm⟩
    | cons b rest =>
        obtain ⟨rfl, -⟩ := List.cons.inj within
        exact .inl ⟨rest, same⟩

/-- A move of a run belongs to the turn of one of the commands. -/
theorem runMoves_eq_append_cons {d : Int} {cs : List Command} {done rest : List Move} {x : Move}
    (h : runMoves d cs = done ++ x :: rest) :
    ∃ k c before after, cs[k]? = some c ∧ done = runMoves d (cs.take k) ++ before ∧
      .note c.turnRecord :: c.moves false (delayAfterAll d (cs.take k)) =
        before ++ x :: after := by
  induction cs generalizing d done with
  | nil => cases done <;> cases h
  | cons c cs ih =>
      rw [runMoves, ← List.cons_append] at h
      obtain ⟨after, turn⟩ | ⟨later, same, within⟩ := append_eq_append_cons h
      · exact ⟨0, c, done, after, rfl, rfl, turn⟩
      · obtain ⟨k, c', before, after, found, rfl, turn⟩ := ih within
        refine ⟨k + 1, c', before, after, found, ?_, turn⟩
        rw [same, ← List.append_assoc]
        rfl

/-- What a command does behind its wait, the command at the end of its chain does. -/
theorem bodyMoves_of_end (c : Command) :
    ∃ n d, c.follow n = some d ∧ d.verb ≠ .again ∧
      ∀ x ∈ c.bodyMoves, x.event? = none ∨ x ∈ d.bodyMoves := by
  induction c with
  | plain raw line deed =>
      exact ⟨0, _, rfl, deed.verb_ne_again, fun _ hx => .inr hx⟩
  | again raw line count target ih =>
      obtain ⟨n, d, follows, plain, moves⟩ := ih
      refine ⟨n + 1, d, follows, plain, ?_⟩
      intro x hx
      cases mem_bodyMoves_again hx with
      | inl note =>
          rw [note]
          exact .inl rfl
      | inr inside => exact moves x inside

/-- A command that is no repetition asks for one thing at most, and on its own behalf. -/
theorem ownEvents_of_mem {d : Command} (bounded : d.Bounded) (plain : d.verb ≠ .again) {x : Move}
    (h : x ∈ d.bodyMoves) {event : Event} (asked : x.event? = some event) :
    x.command? = some d ∧ d.ownEvents = [event] := by
  cases d with
  | again raw line count target => exact absurd rfl plain
  | plain raw line deed =>
      rw [← eventsOf_plain raw line bounded]
      cases deed with
      | comment text => cases h
      | setDefaultDelay ms =>
          cases List.mem_singleton.mp h
          cases asked
      | delay ms | typeText text | press keys =>
          cases List.mem_singleton.mp h
          cases asked
          exact ⟨rfl, rfl⟩

theorem Command.Bounded.millis_le {c : Command} (bounded : c.Bounded) : c.millis ≤ maxMillis := by
  cases c with
  | plain raw line deed => exact bounded
  | again raw line count target => exact Nat.zero_le _

theorem Command.Bounded.follow {n : Nat} {c d : Command} (bounded : c.Bounded)
    (h : c.follow n = some d) : d.Bounded := by
  induction n generalizing c with
  | zero =>
      cases h
      exact bounded
  | succ n ih =>
      cases c with
      | plain raw line deed => cases h
      | again raw line count target =>
          have asks : target.Bounded := bounded
          exact ih asks h

/-- A chain of repetitions stays among the commands until it comes to nothing. -/
theorem Linked.follow_mem {cs : List Command} (linked : Linked cs.reverse) {n k : Nat}
    {c d : Command} (hc : cs[k]? = some c) (h : c.follow n = some d) : d ∈ cs ∨ d = .nothing := by
  induction n generalizing k c with
  | zero =>
      cases h
      exact .inl (List.mem_of_getElem? hc)
  | succ n ih =>
      cases c with
      | plain raw line deed => cases h
      | again raw line count target =>
          cases k with
          | zero =>
              have nothing : target = .nothing := linked.target_zero hc rfl
              rw [nothing] at h
              cases n with
              | zero =>
                  cases h
                  exact .inr rfl
              | succ n => cases h
          | succ k => exact ih (linked.target_succ hc rfl) h

theorem wait_of_front {c : Command} {d : Int} {before rest : List Move} {x : Move} {event : Event}
    (h : .note c.turnRecord :: c.frontMoves false d = before ++ x :: rest)
    (asked : x.event? = some event) :
    x = .wait c d ∧ c.skipsDelay = false ∧ eventsOf before = [] := by
  have here : eventsOf (x :: rest) = event :: eventsOf rest := List.filterMap_cons_some asked
  have events : eventsOf before ++ event :: eventsOf rest =
      if c.skipsDelay then [] else [.sleep (nanosOfMillis d)] := by
    rw [← eventsOf_frontMoves, ← here, ← eventsOf_append, ← h]
    rfl
  have waits : x = .wait c d := by
    have member : x ∈ Move.note c.turnRecord :: c.frontMoves false d := by simp [h]
    obtain rfl | inside := List.mem_cons.mp member
    · cases asked
    · obtain ⟨r, rfl⟩ | wait := mem_frontMoves inside
      · cases asked
      · exact wait
  cases skips : c.skipsDelay with
  | true => simp [skips] at events
  | false =>
      have alone := congrArg List.length events
      simp only [skips, Bool.false_eq_true, ite_false, List.length_append, List.length_cons,
        List.length_nil] at alone
      exact ⟨waits, rfl, List.length_eq_zero_iff.mp (by omega)⟩

/-- All that a command asks for behind its wait is one thing, again and again. -/
theorem rounds_of_body {c : Command} (bounded : c.Bounded) {before after : List Move} {x : Move}
    {event : Event} (h : c.bodyMoves = before ++ x :: after) (asked : x.event? = some event) :
    ∃ n b j, c.follow n = some b ∧ b.verb ≠ .again ∧ b.ownEvents = [event] ∧
      x.command? = some b ∧ eventsOf before = List.replicate j event ∧
      j < (eventsOf c.bodyMoves).length := by
  obtain ⟨n, b, chain, plain, moves⟩ := bodyMoves_of_end c
  -- Requests before `x` are those of earlier rounds, and they are the same.
  have own {y : Move} (hy : y ∈ c.bodyMoves) {e : Event} (he : y.event? = some e) :
      y.command? = some b ∧ b.ownEvents = [e] := by
    apply ownEvents_of_mem (bounded.follow chain) plain _ he
    apply (moves y hy).resolve_left
    rw [he]
    exact Option.some_ne_none e
  obtain ⟨asks, owned⟩ := own (by simp [h]) asked
  refine ⟨n, b, _, chain, plain, owned, asks, List.eq_replicate_of_mem ?_, ?_⟩
  · intro e he
    obtain ⟨y, hy, asked'⟩ := List.mem_filterMap.mp he
    have same := (own (by simp [h, hy]) asked').2
    rw [owned] at same
    exact (List.cons.inj same).1.symm
  · have here : eventsOf (x :: after) = event :: eventsOf after := List.filterMap_cons_some asked
    rw [h, eventsOf_append, here, List.length_append, List.length_cons]
    omega

/-- The command to blame for the last of the requests of a run, told from those before it, which are
as many as it takes to get through the commands before the one at `k`. Then comes its own wait for
the default delay, and behind this wait the rounds of the command at the end of its chain. -/
inductive Script.Blames (s : Script) : List Event → Event → Command → Prop where
  | wait {k : Nat} {c : Command} (turn : s.commands[k]? = some c) (waits : c.skipsDelay = false) :
      Blames s (eventsOf (runMoves s.delay (s.commands.take k)))
        (.sleep (nanosOfMillis (lastDelay s.delay (s.commands.take k)))) c
  | own {k n : Nat} {c b : Command} {event : Event} (turn : s.commands[k]? = some c)
      (chain : c.follow n = some b) (plain : b.verb ≠ .again) (asked : b.ownEvents = [event])
      {round : Nat} (within : round < (bodyAt s.commands k).length) :
      Blames s (eventsOf (runMoves s.delay (s.commands.take k)) ++
        .sleep (nanosOfMillis (lastDelay s.delay (s.commands.take k))) ::
          List.replicate round event) event b

theorem follow_end_unique {c b b' : Command} {n n' : Nat} (h : c.follow n = some b)
    (plain : b.verb ≠ .again) (h' : c.follow n' = some b') (plain' : b'.verb ≠ .again) :
    b = b' := by
  induction c generalizing n n' with
  | plain raw line deed =>
      cases n with
      | succ n => cases h
      | zero =>
          cases n' with
          | succ n' => cases h'
          | zero => exact Option.some.inj (h.symm.trans h')
  | again raw line count target ih =>
      cases n with
      | zero =>
          cases h
          exact absurd rfl plain
      | succ n =>
          cases n' with
          | zero =>
              cases h'
              exact absurd rfl plain'
          | succ n' => exact ih h h'

/-- How many requests it takes to get through the first `k` commands. -/
def requestsBefore (d : Int) (cs : List Command) (k : Nat) : Nat :=
  (eventsOf (runMoves d (cs.take k))).length

theorem requestsBefore_lt {d : Int} {cs : List Command} {k k' : Nat} {c : Command}
    (turn : cs[k]? = some c) (h : k < k') :
    requestsBefore d cs k + (eventsOf (c.moves false (delayAfterAll d (cs.take k)))).length ≤
      requestsBefore d cs k' := by
  have front : cs.take (k + 1) = cs.take k ++ [c] := by
    rw [List.take_add_one, turn]
    rfl
  have parts : cs.take k' = cs.take k ++ c :: (cs.take k').drop (k + 1) := by
    have whole := List.take_append_drop (k + 1) (cs.take k')
    rw [List.take_take, Nat.min_eq_left h, front, List.append_assoc, List.singleton_append] at whole
    exact whole.symm
  rw [requestsBefore, requestsBefore, parts, runMoves_append, eventsOf_append,
    eventsOf_runMoves_cons, List.length_append, List.length_append]
  omega

theorem isFailSafe_attributed (c : Command) (e : Failure) :
    (attributed c e).isFailSafe = e.isFailSafe := by
  rw [attributed]
  split
  · rfl
  · rfl

namespace Script

section

variable {s : Script} (linked : Linked s.commands.reverse)
  (bounded : ∀ c ∈ s.commands, c.Bounded)
include linked

theorem Blames.mem {granted : List Event} {event : Event} {c : Command}
    (h : s.Blames granted event c) : c ∈ s.commands := by
  cases h with
  | wait turn waits => exact List.mem_of_getElem? turn
  | own turn chain plain asked within =>
      apply (linked.follow_mem turn chain).resolve_right
      rintro rfl
      cases asked

include bounded

theorem waits_of_body {k : Nat} {c : Command} (turn : s.commands[k]? = some c)
    (filled : 0 < (bodyAt s.commands k).length) : c.skipsDelay = false := by
  rw [← Bool.not_eq_true]
  intro skips
  rw [← eventsOf_bodyMoves linked (fun c hc => (bounded c hc).millis_le) turn,
    bodyMoves_of_skipsDelay skips] at filled
  exact absurd filled (Nat.lt_irrefl 0)

/-- Where in a run the last of its requests is made, and whose turn this is. -/
theorem Blames.place {granted : List Event} {event : Event} {b : Command}
    (h : s.Blames granted event b) :
    ∃ k c, s.commands[k]? = some c ∧
      granted.length < requestsBefore s.delay s.commands k +
        (eventsOf (c.moves false (delayAfterAll s.delay (s.commands.take k)))).length ∧
      (granted.length = requestsBefore s.delay s.commands k ∧ b = c ∨
        requestsBefore s.delay s.commands k < granted.length ∧
          ∃ n, c.follow n = some b ∧ b.verb ≠ .again) := by
  have turnLength {k : Nat} {c : Command} (turn : s.commands[k]? = some c)
      (waits : c.skipsDelay = false) :
      (eventsOf (c.moves false (delayAfterAll s.delay (s.commands.take k)))).length =
        1 + (bodyAt s.commands k).length := by
    rw [Command.moves, eventsOf_append, eventsOf_frontMoves, waits, List.length_append,
      eventsOf_bodyMoves linked (fun c hc => (bounded c hc).millis_le) turn]
    rfl
  cases h with
  | wait turn waits =>
      refine ⟨_, b, turn, ?_, .inl ⟨rfl, rfl⟩⟩
      rw [turnLength turn waits, requestsBefore]
      omega
  | own turn chain plain asked within =>
      have waits := waits_of_body linked bounded turn (Nat.zero_lt_of_lt within)
      refine ⟨_, _, turn, ?_, .inr ⟨?_, _, chain, plain⟩⟩
      · rw [turnLength turn waits, requestsBefore, List.length_append, List.length_cons,
          List.length_replicate]
        omega
      · rw [requestsBefore, List.length_append, List.length_cons]
        omega

/-- No two commands can be to blame for the same request. -/
theorem Blames.unique {granted : List Event} {event : Event} {b b' : Command}
    (h : s.Blames granted event b) (h' : s.Blames granted event b') : b = b' := by
  obtain ⟨k, c, turn, within, place⟩ := h.place linked bounded
  obtain ⟨k', c', turn', within', place'⟩ := h'.place linked bounded
  have start : requestsBefore s.delay s.commands k ≤ granted.length := by omega
  have start' : requestsBefore s.delay s.commands k' ≤ granted.length := by omega
  have same : k = k' := by
    by_contra differ
    cases Nat.lt_or_gt_of_ne differ with
    | inl before =>
        have done := requestsBefore_lt (d := s.delay) turn before
        omega
    | inr behind =>
        have done := requestsBefore_lt (d := s.delay) turn' behind
        omega
  subst same
  obtain rfl : c = c' := Option.some.inj (turn.symm.trans turn')
  cases place with
  | inl own =>
      cases place' with
      | inl own' => exact own.2.trans own'.2.symm
      | inr chain => omega
  | inr chain =>
      cases place' with
      | inl own => omega
      | inr chain' =>
          obtain ⟨-, n, follows, plain⟩ := chain
          obtain ⟨-, n', follows', plain'⟩ := chain'
          exact follow_end_unique follows plain follows' plain'

theorem blames_of_move {done rest : List Move} {x : Move} {c : Command} {event : Event}
    (h : s.moves = done ++ x :: rest) (asks : x.command? = some c)
    (asked : x.event? = some event) : s.Blames (eventsOf done) event c := by
  cases done with
  | nil =>
      cases h
      cases asked
  | cons y done =>
      obtain ⟨rfl, moves⟩ := List.cons.inj h
      obtain ⟨k, c', before, after, found, rfl, turn⟩ := runMoves_eq_append_cons moves
      have delay := delayAfterAll_eq_lastDelay (linked.take k) s.delay
      have events : eventsOf (.note s.startRecord ::
          (runMoves s.delay (s.commands.take k) ++ before)) =
            eventsOf (runMoves s.delay (s.commands.take k)) ++ eventsOf before :=
        eventsOf_append _ before
      -- Within a turn the wait for the default delay is all that comes before the body.
      rw [Command.moves, ← List.cons_append, delay] at turn
      rw [events]
      obtain ⟨behind, front⟩ | ⟨earlier, rfl, body⟩ := append_eq_append_cons turn
      · obtain ⟨rfl, waits, none⟩ := wait_of_front front asked
        cases asks
        cases asked
        rw [none, List.append_nil]
        exact .wait found waits
      · obtain ⟨n, b, j, chain, plain, owned, asks', rounds, inside⟩ :=
          rounds_of_body (bounded _ (List.mem_of_getElem? found)) body asked
        rw [eventsOf_bodyMoves linked (fun c hc => (bounded c hc).millis_le) found] at inside
        -- A command that does something behind its wait is no comment, so it has waited.
        have waits := waits_of_body linked bounded found (Nat.zero_lt_of_lt inside)
        have front : eventsOf (.note c'.turnRecord :: c'.frontMoves false
            (lastDelay s.delay (s.commands.take k))) = _ := eventsOf_frontMoves _ c'
        rw [asks] at asks'
        cases asks'
        rw [eventsOf_append, front, waits, rounds]
        exact .own found chain plain owned inside

end

/-- How a run of a script came to fail with `f`, told from what its host was asked for: all was
granted but the last request, which was refused with `e`. The failure is then `e` behind one layer
with the place of the command to blame, if no layer of `e` names a command already. -/
def FailsAfter (s : Script) (log : List (Event × Option Failure)) (f : Failure) : Prop :=
  ∃ (granted : List Event) (event : Event) (e : Failure) (blamed : Command),
    log = granted.map (fun event => (event, none)) ++ [(event, some e)] ∧
    (∀ c, s.Blames granted event c ↔ c = blamed) ∧
    blamed ∈ s.commands ∧ blamed.line ≠ noLine ∧
    (e.any Layer.isExecution = false → f = .execution blamed.line blamed.raw :: e) ∧
    (∀ c, attributed c f = f) ∧ f.isFailSafe = e.isFailSafe

/-- A run, and the same run on a host that keeps a log. It fails exactly if a request was refused,
and the log tells how. -/
structure Explained (s : Script) {ρ σ : Type} (run : (ρ × σ) × Option Fault)
    (logged : (ρ × σ × List (Event × Option Failure)) × Option Fault) : Prop where
  fault : logged.2 = run.2
  state : logged.1.2.1 = run.1.2
  refused : ∀ f, run.2 = some (.failure f) → s.FailsAfter logged.1.2.2 f
  granted : (∀ f, run.2 ≠ some (.failure f)) → ∀ asked ∈ logged.1.2.2, asked.2 = none

section

variable {s : Script} {σ : Type} (host : Host σ) (state : σ)

/-- Records for the log of the host are not requests. -/
theorem runLoaded_log :
    (s.runLoaded host.logged (state, [])).1.2.2 =
      (performAll host.logged s.moves ⟨s.delay, (state, [])⟩).1.host.2 ∧
    (s.runLoaded host.logged (state, [])).2 =
      (performAll host.logged s.moves ⟨s.delay, (state, [])⟩).2 := by
  obtain ⟨records, run⟩ := s.runLoaded_eq_performAll host.logged (state, [])
  rw [run]
  exact ⟨host.noteAll_logged records _, rfl⟩

variable (linked : Linked s.commands.reverse) (bounded : ∀ c ∈ s.commands, c.Bounded)
include linked bounded

theorem performAll_failsAfter {m : Machine (σ × List (Event × Option Failure))} {f : Failure}
    (h : performAll host.logged s.moves ⟨s.delay, (state, [])⟩ = (m, some (.failure f))) :
    s.FailsAfter m.host.2 f := by
  obtain ⟨done, x, rest, c, event, e, moves, asks, asked, rfl, log⟩ := performAll_refused h
  have blames := blames_of_move linked bounded moves asks asked
  have member := blames.mem linked
  have place := linked.nonneg c (List.mem_reverse.mpr member)
  refine ⟨eventsOf done, event, e, c, log, ?_, member, ?_, ?_, ?_, ?_⟩
  · intro other
    constructor
    · intro blames'
      exact blames'.unique linked bounded blames
    · rintro rfl
      exact blames
  · intro none
    rw [none] at place
    exact absurd place (by decide)
  · intro fresh
    rw [attributed, fresh, if_neg Bool.false_ne_true]
  · intro other
    rw [attributed, if_pos (any_attributed c e)]
  · exact isFailSafe_attributed c e

theorem runLoaded_explained :
    s.Explained (s.runLoaded host state) (s.runLoaded host.logged (state, [])) := by
  have any (x : Move) : x.Waits fun _ => True := by cases x <;> trivial
  have agree : (s.runLoaded host.logged (state, [])).1.1 = (s.runLoaded host state).1.1 ∧
      (s.runLoaded host.logged (state, [])).2 = (s.runLoaded host state).2 ∧
      (s.runLoaded host.logged (state, [])).1.2.1 = (s.runLoaded host state).1.2 :=
    host.agrees_logged.runLoaded (fun x _ => any x) rfl
  obtain ⟨-, fault, same⟩ := agree
  obtain ⟨log, ended⟩ := runLoaded_log (s := s) host state
  refine ⟨fault, same, ?_, ?_⟩
  · intro f failed
    rw [log]
    apply performAll_failsAfter host state linked bounded
    rw [← fault, ended] at failed
    rw [← failed]
  · intro fine
    rw [log]
    apply performAll_granted
    · rwa [← ended, fault]
    · exact fun _ asked => absurd asked List.not_mem_nil

end

/-- A run of a loaded script fails exactly if its host refuses something, and wherever this is in a
chain of repetitions, and in whichever round, the failure names one command of the script, and
names it once: the one whose wait for the default delay was refused, or the one at the end of the
chain. This is so for commands, and for records, which attribute a failure again at each
repetition. -/
theorem failure_names_command {s : Script} {held : List Command} (reachable : s.Reachable held)
    (loaded : s.loaded = true) {σ : Type} (host : Host σ) (disk : Disk) (state : σ) :
    s.Explained (s.run host disk state) (s.run host.logged disk (state, [])) ∧
    s.Explained (s.bare.run host disk state) (s.bare.run host.logged disk (state, [])) := by
  have linked := reachable.settled.linked
  have bounded := reachable.bounded.1
  have muted : host.logged.muted = host.muted.logged := rfl
  simp only [run_bare, muted, run_of_loaded _ loaded]
  refine ⟨runLoaded_explained host state linked bounded, ?_⟩
  obtain ⟨fault, same, refused, granted⟩ := runLoaded_explained host.muted state linked bounded
  exact ⟨fault, same, refused, granted⟩

theorem failure_names_command_third_round :
    let guard : Guard Nat := fun n _ => (n + 1, if n < 2 then none else some [.failSafe])
    let host := Rehearsal.host guard .recorded true false
    let source : Source := ⟨utf8 "\nSTRING a\nREPEAT 1\nREPEAT 2", none⟩
    let s := (({ path := utf8 "a" } : Script).tryLoadFrom source).1
    let disk : Disk := fun _ => .ok .directory
    let r : Rehearsal Nat := { recorder := ⟨0, #[]⟩ }
    let f : Failure := [.execution 1 (utf8 "STRING a"), .failSafe]
    (s.run host disk r).2 = some (.failure f) ∧
      s.FailsAfter (s.run host.logged disk (r, [])).1.2.2 f ∧
      (s.bare.run host disk r).2 = some (.failure f) ∧
      s.FailsAfter (s.bare.run host.logged disk (r, [])).1.2.2 f := by
  intro guard host source s disk r f
  have reachable : s.Reachable [] := .loadFrom source (.found (fun _ => .ok (.file [])) rfl)
  obtain ⟨loaded, failed, failed'⟩ : s.loaded = true ∧
      (s.run host disk r).2 = some (.failure f) ∧
      (s.bare.run host disk r).2 = some (.failure f) := by
    decide +kernel
  obtain ⟨commands, records⟩ := failure_names_command reachable loaded host disk r
  exact ⟨failed, commands.refused f failed, failed', records.refused f failed'⟩

end Script

end KeyScript

import KeyScript.Proofs.Loading
import KeyScript.Proofs.Moves

/-!
Runs on two hosts that answer alike. When both give the same answer to every
request, and keep their states related, then a script cannot tell them apart: it
ends in the same way, is left the same, and the states are still related.
-/

namespace KeyScript

/-- A move that waits for no other lengths than those in `ok`. -/
def Move.Waits (ok : Nanos → Prop) : Move → Prop
  | .wait _ ms => ok (nanosOfMillis ms)
  | .note _ | .act _ _ | .setDelay _ => True

section

variable {σ τ : Type}

/-- Outcomes that differ at most in the states of the hosts, and these are related. -/
structure Matched (R : σ → τ → Prop) (out : Outcome σ) (out' : Outcome τ) : Prop where
  fault : out'.2 = out.2
  delay : out'.1.delay = out.1.delay
  host : R out.1.host out'.1.host

/-- Both went through, or both stopped for the same reason. -/
theorem Matched.both {R : σ → τ → Prop} {out : Outcome σ} {out' : Outcome τ}
    (h : Matched R out out') :
    ∃ m n, n.delay = m.delay ∧ R m.host n.host ∧
      (out = (m, none) ∧ out' = (n, none) ∨
        ∃ fault, out = (m, some fault) ∧ out' = (n, some fault)) := by
  obtain ⟨m, fault⟩ := out
  obtain ⟨n, fault'⟩ := out'
  obtain ⟨rfl, delay, related⟩ := h
  refine ⟨m, n, delay, related, ?_⟩
  cases fault' with
  | none => exact .inl ⟨rfl, rfl⟩
  | some fault => exact .inr ⟨fault, rfl, rfl⟩

/-- Hosts that answer alike as long as they are asked for waits in `ok`. -/
structure Host.Agrees (host : Host σ) (host' : Host τ) (ok : Nanos → Prop)
    (R : σ → τ → Prop) : Prop where
  sleep : ∀ {length s t}, ok length → R s t →
    (host'.sleep length t).2 = (host.sleep length s).2 ∧
      R (host.sleep length s).1 (host'.sleep length t).1
  keyboard : host'.keyboard.isSome = host.keyboard.isSome
  act : ∀ action {perform perform' s t},
    host.keyboard = some perform → host'.keyboard = some perform' → R s t →
      (perform' action t).2 = (perform action s).2 ∧ R (perform action s).1 (perform' action t).1
  note : ∀ {record s t}, R s t → R (host.note record s) (host'.note record t)

namespace Host.Agrees

variable {host : Host σ} {host' : Host τ} {ok : Nanos → Prop} {R : σ → τ → Prop}
  (h : host.Agrees host' ok R)
include h

theorem waitFor (c : Command) {ms : Int} (within : ok (nanosOfMillis ms)) {m : Machine σ}
    {n : Machine τ} (delay : n.delay = m.delay) (related : R m.host n.host) :
    Matched R (KeyScript.waitFor host c ms m) (KeyScript.waitFor host' c ms n) := by
  obtain ⟨same, states⟩ := h.sleep within related
  simp only [KeyScript.waitFor]
  rcases left : host.sleep (nanosOfMillis ms) m.host with ⟨s, _ | f⟩ <;>
    rcases right : host'.sleep (nanosOfMillis ms) n.host with ⟨t, _ | g⟩ <;>
    rw [left, right] at same states <;> cases same
  · exact ⟨rfl, delay, states⟩
  · exact ⟨rfl, delay, states⟩

theorem performFor (c : Command) (action : Action) {m : Machine σ} {n : Machine τ}
    (delay : n.delay = m.delay) (related : R m.host n.host) :
    Matched R (KeyScript.performFor host c action m) (KeyScript.performFor host' c action n) := by
  have both := h.keyboard
  simp only [KeyScript.performFor]
  cases left : host.keyboard with
  | none =>
      rw [left, Option.isSome_none, Option.isSome_eq_false_iff, Option.isNone_iff_eq_none] at both
      rw [both]
      exact ⟨rfl, delay, related⟩
  | some perform =>
      rw [left, Option.isSome_some] at both
      obtain ⟨perform', right⟩ := Option.isSome_iff_exists.mp both
      obtain ⟨same, states⟩ := h.act action left right related
      rw [right]
      simp only
      rcases acted : perform action m.host with ⟨s, _ | f⟩ <;>
        rcases acted' : perform' action n.host with ⟨t, _ | g⟩ <;>
        rw [acted, acted'] at same states <;> cases same
      · exact ⟨rfl, delay, states⟩
      · exact ⟨rfl, delay, states⟩

theorem perform {x : Move} (within : x.Waits ok) {m : Machine σ} {n : Machine τ}
    (delay : n.delay = m.delay) (related : R m.host n.host) :
    Matched R (x.perform host m) (x.perform host' n) := by
  cases x with
  | note r => exact ⟨rfl, delay, h.note related⟩
  | wait c ms => exact h.waitFor c within delay related
  | act c action => exact h.performFor c action delay related
  | setDelay ms => exact ⟨rfl, rfl, related⟩

theorem performAll {xs : List Move} (within : ∀ x ∈ xs, x.Waits ok) {m : Machine σ}
    {n : Machine τ} (delay : n.delay = m.delay) (related : R m.host n.host) :
    Matched R (KeyScript.performAll host xs m) (KeyScript.performAll host' xs n) := by
  induction xs generalizing m n with
  | nil => exact ⟨rfl, delay, related⟩
  | cons x xs ih =>
      obtain ⟨first, rest⟩ := List.forall_mem_cons.mp within
      obtain ⟨m', n', delay', related', ⟨left, right⟩ | ⟨fault, left, right⟩⟩ :=
        (h.perform first delay related).both
      · simp only [KeyScript.performAll, left, right]
        exact ih rest delay' related'
      · simp only [KeyScript.performAll, left, right]
        exact ⟨rfl, delay', related'⟩

theorem noteAll (records : List Record) {s : σ} {t : τ} (related : R s t) :
    R (host.noteAll records s) (host'.noteAll records t) := by
  induction records generalizing s t with
  | nil => exact related
  | cons r rest ih => exact ih (h.note related)

theorem runAll (path : Text) {cs : List Command} {m : Machine σ} {n : Machine τ}
    (within : ∀ x ∈ runMoves m.delay cs, x.Waits ok) (delay : n.delay = m.delay)
    (related : R m.host n.host) :
    Matched R (KeyScript.runAll host path cs m) (KeyScript.runAll host' path cs n) := by
  induction cs generalizing m n with
  | nil => exact ⟨rfl, delay, related⟩
  | cons c rest ih =>
      obtain ⟨-, within⟩ := List.forall_mem_cons.mp within
      obtain ⟨first, behind⟩ := List.forall_mem_append.mp within
      have matched := h.performAll first (m := m.note host c.turnRecord)
        (n := n.note host' c.turnRecord) delay (h.note related)
      obtain ⟨m', n', delay', related', ⟨left, right⟩ | ⟨fault, left, right⟩⟩ := matched.both
      · simp only [KeyScript.runAll, execute_eq_performAll, note_delay, delay, left, right]
        refine ih ?_ delay' related'
        rwa [moves_delay_of_none host left, note_delay]
      · simp only [KeyScript.runAll, execute_eq_performAll, note_delay, delay, left, right]
        cases fault with
        | failure f => exact ⟨rfl, delay', h.note related'⟩
        | violation v => exact ⟨rfl, delay', related'⟩

theorem runLoaded {script : Script}
    (within : ∀ x ∈ runMoves script.delay script.commands, x.Waits ok) {s : σ} {t : τ}
    (related : R s t) :
    let out := script.runLoaded host s
    let out' := script.runLoaded host' t
    out'.1.1 = out.1.1 ∧ out'.2 = out.2 ∧ R out.1.2 out'.1.2 := by
  have matched := h.runAll script.path (m := Machine.note host ⟨script.delay, s⟩ script.startRecord)
    (n := Machine.note host' ⟨script.delay, t⟩ script.startRecord) within rfl (h.note related)
  obtain ⟨m', n', delay, related, ⟨left, right⟩ | ⟨fault, left, right⟩⟩ := matched.both
  · simp only [Script.runLoaded, left, right, delay]
    exact ⟨trivial, trivial, h.note related⟩
  · simp only [Script.runLoaded, left, right, delay]
    exact ⟨trivial, trivial, related⟩

/-- A script that is not loaded yet runs alike on both hosts. -/
theorem run {script : Script} (unloaded : script.loaded = false) (disk : Disk)
    (within : ∀ cs, script.fileCommands disk = .ok cs →
      ∀ x ∈ runMoves script.delay cs, x.Waits ok) {s : σ} {t : τ} (related : R s t) :
    let out := script.run host disk s
    let out' := script.run host' disk t
    out'.1.1 = out.1.1 ∧ out'.2 = out.2 ∧ R out.1.2 out'.1.2 := by
  have states := h.noteAll (script.openingRecords disk) related
  cases found : script.fileCommands disk with
  | ok cs =>
      simp only [Script.run_of_commands _ unloaded found]
      exact h.runLoaded (within cs found) states
  | error fault =>
      simp only [Script.run_of_error _ unloaded found]
      exact ⟨trivial, trivial, states⟩

end Host.Agrees
end

end KeyScript

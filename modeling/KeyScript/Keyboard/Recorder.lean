import KeyScript.Keyboard.Action

/-!
A keyboard that injects nothing: it keeps every action it lets through. Before an
action is kept a guard may refuse it; the guard has a memory of its own. A run
that was called off is refused before the guard is asked.
-/

namespace KeyScript

abbrev Guard (μ : Type) := μ → Action → μ × Option Failure

structure Recorder (μ : Type) where
  memory : μ
  actions : Array Action := #[]
deriving Repr

namespace Recorder

variable {μ : Type}

def record (guard : Guard μ) (canceled : Bool) (action : Action) (r : Recorder μ) :
    Recorder μ × Option Failure :=
  if canceled then (r, some [.canceled])
  else
    match guard r.memory action with
    | (memory, some refusal) => ({ r with memory := memory }, some refusal)
    | (memory, none) => ({ memory := memory, actions := r.actions.push action }, none)

def reset (r : Recorder μ) : Recorder μ :=
  { r with actions := #[] }

def echo (actions : List Action) : Text :=
  actions.flatMap fun a => a.describe ++ [newline]

end Recorder

/-- Refuses the actions whose line holds `needle`, after letting `skip` of them pass. -/
structure Rule where
  needle : Text
  skip : Nat
  refusal : Failure
deriving Repr

/-- The first rule that applies and has nothing left to let pass decides; rules before it that
apply count down. -/
def Rule.guard : Guard (List Rule)
  | [], _ => ([], none)
  | rule :: rest, action =>
    if rule.needle.holds action.describe then
      match rule.skip with
      | 0 => (rule :: rest, some rule.refusal)
      | skip + 1 =>
        let (rest, verdict) := Rule.guard rest action
        ({ rule with skip := skip } :: rest, verdict)
    else
      let (rest, verdict) := Rule.guard rest action
      (rule :: rest, verdict)

end KeyScript

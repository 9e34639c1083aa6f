import Mathlib.Data.List.Basic
import KeyScript.CommandLine.Perform
import KeyScript.Proofs.FailedLoads
import KeyScript.Proofs.Loading

/-!
What is reported while a script is watched. Two things are carried from load to
load, the commands of the script and the plan that the next one is compared with.
Both are those of the last good load, however many failed since.
-/

namespace KeyScript

namespace Script

end Script

namespace Watch

/-- What the file of a script holds on some occasions. -/
def contents (s : Script) (os : List (Option FileEvent × Disk)) :
    List (Except LoadFault (List Command)) :=
  os.map fun o => s.fileCommands o.2

/-- What is told about a load: the plan of the commands that it found with the digest of this
plan, or why it failed. -/
def told (path : Text) : Except LoadFault (List Command) → Except Failure Loaded
  | .ok cs =>
    .ok ⟨Plan.ofCommands path cs, (blake2b256 (Plan.ofCommands path cs).encode).hex⟩
  | .error fault => .error (fault.failure path)

theorem reload_result (s : Script) (disk : Disk) (event : Option FileEvent) :
    (reload s disk event).result = told s.path (s.fileCommands disk) := by
  cases found : s.fileCommands disk with
  | ok cs =>
      simp only [reload, Script.tryLoad_of_ok found]
      rfl
  | error fault =>
      have failed := Script.tryLoad_of_error found
      rw [reload]
      rcases load : s.tryLoad disk with ⟨kept, _ | f⟩
      · rw [load] at failed
        cases failed
      · rw [load] at failed
        cases failed
        rfl

end Watch

namespace CommandLine

section

variable (s : Script) (colours : Bool) (os : List (Option FileEvent × Disk))

end

end CommandLine

end KeyScript

import KeyScript.Proofs.Lines
import KeyScript.Proofs.PlanRun

/-!
A plan holds its script. The texts of the steps, each on the line that the step
has and with nothing on the other lines, make up a text that is accepted and has
the same plan; what is lost of the script is white space only.
-/

namespace KeyScript
namespace Plan

/-- What a plan has on a line: the text of the step with that line, or nothing. -/
def lineAt (p : Plan) (n : Nat) : Text :=
  ((p.steps.find? fun s => s.line == (n : Int)).map Step.raw).getD []

/-- A text of as many lines as asked for, with the texts of the steps on theirs. -/
def rebuilt (p : Plan) (height : Nat) : Text :=
  Text.join [newline] ((List.range height).map p.lineAt)

end Plan

section

variable {source : Source} {cs : List Command} (h : source.commands = .ok cs) (name : Text)
include h

theorem lineAt_of_mem {c : Command} (hc : c ∈ cs) {n : Nat} (line : c.line = n) :
    (Plan.ofCommands name cs).lineAt n = c.raw := by
  have increasing := List.pairwise_reverse.mp (linked_commands h).decreasing
  have found := find?_line increasing hc
  rw [line] at found
  rw [Plan.lineAt, Plan.ofCommands, found]
  rfl

omit h in
theorem lineAt_of_forall_ne {n : Nat} (absent : ∀ c ∈ cs, c.line ≠ n) :
    (Plan.ofCommands name cs).lineAt n = [] := by
  have missing : ((cs.map Step.ofCommand).find? fun s => s.line == (n : Int)) = none := by
    rw [List.find?_eq_none]
    intro s hs
    obtain ⟨c, hc, rfl⟩ := List.mem_map.mp hs
    simpa [Step.ofCommand] using absent c hc
  rw [Plan.lineAt, Plan.ofCommands, missing]
  rfl

/-- The lines of a plan are those of the script, trimmed. -/
theorem lineAt_eq_trim (n : Nat) :
    (Plan.ofCommands name cs).lineAt n = Text.trim (source.lines[n]?.getD []) := by
  have lines : Text.trim (source.lines[n]?.getD []) = (source.lines.map Text.trim)[n]?.getD [] := by
    rw [List.getElem?_map]
    cases source.lines[n]? <;> rfl
  rw [lines]
  by_cases present : ∃ c ∈ cs, c.line = n
  · obtain ⟨c, hc, line⟩ := present
    obtain ⟨place, -⟩ := (mem_commands_placed h).mp ⟨c, hc, line, rfl⟩
    rw [lineAt_of_mem h name hc line, place]
    rfl
  · have absent : ∀ c ∈ cs, c.line ≠ n := fun c hc line => present ⟨c, hc, line⟩
    rw [lineAt_of_forall_ne name absent]
    cases place : (source.lines.map Text.trim)[n]? with
    | none => rfl
    | some t =>
        by_cases empty : t = []
        · exact empty.symm
        · obtain ⟨c, hc, line, -⟩ := (mem_commands_placed h).mpr ⟨place, empty⟩
          exact absurd line (absent c hc)

theorem lineAt_spec (n : Nat) :
    newline ∉ (Plan.ofCommands name cs).lineAt n ∧
      ((Plan.ofCommands name cs).lineAt n).length < lineLimit := by
  by_cases present : ∃ c ∈ cs, c.line = n
  · obtain ⟨c, hc, line⟩ := present
    rw [lineAt_of_mem h name hc line]
    exact ⟨newline_notMem_raw h c hc, length_raw_lt h c hc⟩
  · rw [lineAt_of_forall_ne name fun c hc line => present ⟨c, hc, line⟩]
    exact ⟨List.not_mem_nil, by decide⟩

variable {height : Nat} (enough : ∀ c ∈ cs, c.line < height)
include enough

theorem getD_rebuilt (k : Nat) :
    (physicalLines ((Plan.ofCommands name cs).rebuilt height))[k]?.getD [] =
      (Plan.ofCommands name cs).lineAt k := by
  have free : ∀ line ∈ (List.range height).map (Plan.ofCommands name cs).lineAt,
      newline ∉ line := by
    intro line hl
    obtain ⟨n, -, rfl⟩ := List.mem_map.mp hl
    exact (lineAt_spec h name n).1
  rw [Plan.rebuilt, Text.getD_physicalLines_join free, List.getElem?_map]
  by_cases inside : k < height
  · rw [List.getElem?_range inside]
    rfl
  · have behind : ∀ c ∈ cs, c.line ≠ k := by
      intro c hc line
      have := enough c hc
      omega
    rw [lineAt_of_forall_ne name behind, List.getElem?_eq_none (by simpa using inside)]
    rfl

theorem commands_rebuilt :
    Source.commands ⟨(Plan.ofCommands name cs).rebuilt height, none⟩ = .ok cs := by
  let text := (Plan.ofCommands name cs).rebuilt height
  have short : hasLineOver lineLimit text = false := by
    rw [hasLineOver, List.any_eq_false]
    intro line hl
    obtain ⟨k, found⟩ := List.getElem?_of_mem hl
    have eq := getD_rebuilt h name enough k
    rw [found, Option.getD_some] at eq
    have limit := (lineAt_spec h name k).2
    rw [eq, decide_eq_true_eq]
    omega
  have lines (k : Nat) :
      Text.trim ((physicalLines text)[k]?.getD []) = Text.trim (source.lines[k]?.getD []) := by
    rw [getD_rebuilt h name enough k, lineAt_eq_trim h name, Text.trim_trim]
  rw [Source.commands_of_short short]
  exact (readLines_congr lines 0 []).trans (Source.commands_eq_ok h)

end

/-- The text that is rebuilt from the plan of a script that was accepted, with any number of lines
that has room for all steps, is accepted by any script in its turn. Its plan has the same steps, and
with them the same binary form and the same digest. -/
theorem Plan.rebuilt_loads {s loaded : Script} {source : Source}
    (accepted : s.loadFrom source = .ok loaded) (name : Text) {height : Nat}
    (enough : ∀ c ∈ loaded.commands, c.line < height) (again : Script) :
    let p := Plan.ofCommands name loaded.commands
    ∃ reloaded : Script, again.loadFrom ⟨p.rebuilt height, none⟩ = .ok reloaded ∧
      ∀ name', let q := Plan.ofCommands name' reloaded.commands
        q.steps = p.steps ∧ q.encode = p.encode ∧ q.digest = p.digest := by
  intro p
  obtain ⟨cs, commands, rfl⟩ := Script.loadFrom_eq_ok_iff.mp accepted
  have rebuilt := commands_rebuilt commands name enough
  refine ⟨_, Script.loadFrom_eq_ok_iff.mpr ⟨cs, rebuilt, rfl⟩, fun name' => ?_⟩
  intro q
  have encode : q.encode = p.encode := Plan.encode_congr rfl
  exact ⟨rfl, encode, by rw [Plan.digest, Plan.digest, encode]⟩

/-- White space of more than one byte around lines, a carriage return inside one, a blank line, a
byte that is part of no character and a repetition. -/
theorem Plan.rebuilt_loads_unusual :
    let source : Source :=
      ⟨utf8 "\u00A0REM a\x0db \x0d\n \nSTRING " ++ [0xFF] ++ utf8 "\u3000\nREPEAT 2\n\n", none⟩
    let fresh : Script := { path := [] }
    let loaded := (fresh.tryLoadFrom source).1
    let p := Plan.ofCommands [] loaded.commands
    p.rebuilt 4 = utf8 "REM a\x0db\n\nSTRING " ++ [0xFF] ++ utf8 "\nREPEAT 2" ∧
      ∃ reloaded : Script, fresh.loadFrom ⟨p.rebuilt 4, none⟩ = .ok reloaded ∧
        (Plan.ofCommands [] reloaded.commands).steps = p.steps ∧
        (Plan.ofCommands [] reloaded.commands).digest = p.digest := by
  intro source fresh loaded p
  have computed : (fresh.tryLoadFrom source).2 = none ∧
      p.rebuilt 4 = utf8 "REM a\x0db\n\nSTRING " ++ [0xFF] ++ utf8 "\nREPEAT 2" ∧
      ∀ c ∈ loaded.commands, c.line < (4 : Nat) := by
    decide +kernel
  obtain ⟨accepted, text, enough⟩ := computed
  obtain ⟨reloaded, again, same⟩ :=
    rebuilt_loads (Script.loadFrom_of_none accepted) [] enough fresh
  obtain ⟨steps, -, digest⟩ := same []
  exact ⟨text, reloaded, again, steps, digest⟩

end KeyScript

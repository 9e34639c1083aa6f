import KeyScript.Proofs.Links
import KeyScript.Proofs.Loading

/-!
The scripts that can come about. Whatever is done to a script, and in whatever
order, it ends with no load in progress and with the commands of one text,
linked to each other and to nothing else.
-/

namespace KeyScript
namespace Script

/-- A script as it can be after anything was done with it, and the commands that were taken from
it on the way. Each time it is loaded or run this may be from another disk and by another host,
and a command that was taken may be run at any time after, whatever has become of the script. -/
inductive Reachable : Script → List Command → Prop where
  | found (disk : Disk) {path : Text} {delay : Int} {s : Script} :
      find disk path delay = .ok s → Reachable s []
  | load {s : Script} {held : List Command} (disk : Disk) :
      Reachable s held → Reachable (s.tryLoad disk).1 held
  | loadFrom {s : Script} {held : List Command} (source : Source) :
      Reachable s held → Reachable (s.tryLoadFrom source).1 held
  | run {s : Script} {held : List Command} {σ : Type} (host : Host σ) (disk : Disk) (state : σ) :
      Reachable s held → Reachable (s.run host disk state).1.1 held
  | setDelay {s s' : Script} {held : List Command} {ms : Int} :
      Reachable s held → s.setDelay ms = .ok s' → Reachable s' held
  | parse {s : Script} {held : List Command} {raw : Text} {line : Int} {c : Command} :
      Reachable s held → s.parse raw line = .ok c → Reachable s (c :: held)
  | take {s : Script} {held : List Command} :
      Reachable s held → Reachable s (s.commands ++ held)
  | execute {s : Script} {held : List Command} {σ : Type} (host : Host σ) {c : Command}
      (state : σ) : Reachable s held → c ∈ held → Reachable (s.execute host c state).1.1 held

/-- No load is in progress, and the commands are linked. -/
structure Settled (s : Script) : Prop where
  idle : s.loading = false
  empty : s.pending = []
  linked : Linked s.commands.reverse

/-- The default delay is all that running changes. -/
theorem Settled.withDelay {s : Script} (h : Settled s) (ms : Int) :
    Settled { s with delay := ms } :=
  ⟨h.idle, h.empty, h.linked⟩

theorem Settled.tryLoadFrom {s : Script} (h : Settled s) (source : Source) :
    Settled (s.tryLoadFrom source).1 := by
  rw [tryLoadFrom_eq]
  cases hc : source.commands with
  | ok cs => exact ⟨rfl, rfl, linked_commands hc⟩
  | error fault => exact ⟨rfl, rfl, h.linked⟩

theorem Settled.tryLoad {s : Script} (h : Settled s) (disk : Disk) :
    Settled (s.tryLoad disk).1 := by
  rw [Script.tryLoad]
  cases sourceAt disk s.path with
  | ok source => exact h.tryLoadFrom source
  | error fault => exact h

section

variable {σ : Type} (host : Host σ)

theorem Settled.runLoaded {s : Script} (h : Settled s) (state : σ) :
    Settled (s.runLoaded host state).1.1 := by
  simp only [Script.runLoaded]
  split <;> exact h.withDelay _

theorem Settled.run {s : Script} (h : Settled s) (disk : Disk) (state : σ) :
    Settled (s.run host disk state).1.1 := by
  have hload := h.tryLoad disk
  simp only [Script.run]
  split
  · exact h.runLoaded host state
  · simp only [loadNoting]
    rcases hl : s.tryLoad disk with ⟨loaded, _ | fault⟩
    · rw [hl] at hload
      exact Settled.runLoaded host hload _
    · rw [hl] at hload
      exact hload

end

theorem Settled.setDelay {s s' : Script} (h : Settled s) {ms : Int}
    (hs : s.setDelay ms = .ok s') : Settled s' := by
  simp only [Script.setDelay] at hs
  split at hs
  · cases hs
    exact h.withDelay ms
  · cases hs

theorem Reachable.settled {s : Script} {held : List Command} (h : Reachable s held) :
    Settled s := by
  induction h with
  | found disk found =>
      simp only [find] at found
      split at found <;> cases found
      all_goals exact ⟨rfl, rfl, trivial⟩
  | load disk _ ih => exact ih.tryLoad disk
  | loadFrom source _ ih => exact ih.tryLoadFrom source
  | run host disk state _ ih => exact ih.run host disk state
  | setDelay _ set ih => exact ih.setDelay set
  | parse _ _ ih | take _ ih => exact ih
  | execute host state _ _ ih => exact ih.withDelay _

/-- What can be relied on in a script between any two things that are done with it. -/
structure Consistent (s : Script) : Prop where
  idle : s.loading = false ∧ s.pending = []
  increasing : s.commands.Pairwise fun a b => a.line < b.line
  nonneg : ∀ c ∈ s.commands, 0 ≤ c.line
  repetition : ∀ c ∈ s.commands, c.verb = .again ↔ c.target?.isSome
  first : ∀ c t, s.commands[0]? = some c → c.target? = some t →
    t = .nothing ∧ t.verb = .comment ∧ t.line = noLine
  later : ∀ i c t, s.commands[i + 1]? = some c → c.target? = some t → s.commands[i]? = some t
  ends : ∀ c ∈ s.commands, ∃ n d, c.follow n = some d ∧ d.verb ≠ .again ∧
    (d ∈ s.commands ∨ d = .nothing)
  nearest : ∀ line c, 0 ≤ line →
    (s.previous line = .ok (some c) ↔
      c ∈ s.commands ∧ c.line < line ∧ ∀ b ∈ s.commands, b.line < line → b.line ≤ c.line)
  absent : ∀ line, 0 ≤ line →
    (s.previous line = .ok none ↔ ∀ b ∈ s.commands, ¬ b.line < line)

theorem Settled.previous_eq {s : Script} (h : Settled s) {line : Int} (hl : 0 ≤ line) :
    s.previous line = .ok (s.commands.reverse.find? fun c => c.line < line) := by
  simp only [Script.previous, recent, h.idle, Bool.false_eq_true, ite_false]
  exact previous_of_nonneg _ hl

/-- Every script that can come about is consistent. -/
theorem reachable_consistent {s : Script} {held : List Command} (h : Reachable s held) :
    Consistent s where
  idle := ⟨h.settled.idle, h.settled.empty⟩
  increasing := List.pairwise_reverse.mp h.settled.linked.decreasing
  nonneg c hc := h.settled.linked.nonneg c (List.mem_reverse.mpr hc)
  repetition c _ := (target?_isSome_iff c).symm
  first c t hc ht := by
    have nothing := h.settled.linked.target_zero hc ht
    exact ⟨nothing, nothing ▸ rfl, nothing ▸ rfl⟩
  later i c t hc ht := h.settled.linked.target_succ hc ht
  ends c hc := by
    obtain ⟨n, d, follows, plain, place⟩ :=
      h.settled.linked.follow_ends c (List.mem_reverse.mpr hc)
    exact ⟨n, d, follows, plain, place.imp List.mem_reverse.mp id⟩
  nearest line c hl := by
    rw [h.settled.previous_eq hl, Except.ok.injEq, h.settled.linked.find?_eq_some_iff]
    simp only [List.mem_reverse]
  absent line hl := by
    rw [h.settled.previous_eq hl, Except.ok.injEq, List.find?_eq_none]
    simp only [List.mem_reverse, decide_eq_true_eq]

/-- A text that starts with a repetition and holds a chain of them, and a reload that fails. -/
theorem reachable_consistent_chain :
    let first : Script := { path := utf8 "a" }
    let loaded := (first.tryLoadFrom ⟨utf8 "REPEAT 1\n\nDELAY 5\nREPEAT 2\nREPEAT 3", none⟩).1
    let s := (loaded.tryLoadFrom ⟨utf8 "REPEAT 4\nREPEAT", none⟩).1
    Consistent s ∧
      s.commands.map (fun c => (c.line, c.target?.map Command.line)) =
        [(0, some noLine), (2, none), (3, some 2), (4, some 3)] :=
  ⟨reachable_consistent
    (.loadFrom _ (.loadFrom _ (.found (fun _ => .ok (.file [])) rfl))), by decide +kernel⟩

end Script
end KeyScript

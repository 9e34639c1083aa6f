import KeyScript.Script.Source

/-!
How the commands of a text hang together. They stand in the order of their
lines, and a repetition refers to the command just before it, or to nothing
when it is the first. Lists of commands are looked at latest first, as they are
while a text is read.
-/

namespace KeyScript

theorem previous_of_nonneg (recent : List Command) {line : Int} (h : 0 ≤ line) :
    previous recent line = .ok (recent.find? fun c => c.line < line) := by
  simp [previous, require, h]

/-- A line of a script is a command of its own, or repeats the nearest command before it. -/
theorem parse_cases {raw : Text} {line : Int} {recent : List Command} {c : Command}
    (h : Command.parse raw line (some recent) = .ok c) :
    (∃ deed, Statement.read true raw.trim = .ok (.plain deed) ∧
      c = .plain raw.trim line deed) ∨
    ∃ count, Statement.read true raw.trim = .ok (.again count) ∧
      c = .again raw.trim line count ((recent.find? fun b => b.line < line).getD .nothing) := by
  simp only [Command.parse, Option.isSome_some, Option.getD_some] at h
  split at h
  · cases h
  · split at h
    · cases h
    · rename_i deed read
      cases h
      exact .inl ⟨deed, read, rfl⟩
    · rename_i count read
      by_cases hl : 0 ≤ line
      · rw [previous_of_nonneg recent hl] at h
        cases h
        exact .inr ⟨count, read, rfl⟩
      · simp [previous, require, hl] at h

theorem parse_line {raw : Text} {line : Int} {recent : List Command} {c : Command}
    (h : Command.parse raw line (some recent) = .ok c) : c.line = line := by
  obtain ⟨deed, _, rfl⟩ | ⟨count, _, rfl⟩ := parse_cases h <;> rfl

theorem readCount_le {argument : Text} {n : Nat} (h : readCount argument = .ok n) :
    n ≤ maxMillis := by
  simp only [readCount] at h
  split at h
  · cases h
  · split at h
    · cases h
    · split at h
      · cases h
      · cases h
        omega

theorem read_millis_le {inScript : Bool} {text : Text} {deed : Deed}
    (h : Statement.read inScript text = .ok (.plain deed)) : deed.millis ≤ maxMillis := by
  simp only [Statement.read] at h
  repeat' split at h
  all_goals cases h
  all_goals first
    | exact Nat.zero_le _
    | exact readCount_le ‹_›

/-- No line asks for a wait longer than the longest one. -/
theorem parse_millis_le {raw : Text} {line : Int} {recent : List Command} {c : Command}
    (h : Command.parse raw line (some recent) = .ok c) : c.millis ≤ maxMillis := by
  obtain ⟨deed, read, rfl⟩ | ⟨count, _, rfl⟩ := parse_cases h
  · exact read_millis_le read
  · exact Nat.zero_le _

/-- A line is blank and is passed, or gives one more command. -/
theorem readLines_cons {n : Nat} {recent : List Command} {line : Text} {rest : List Text}
    {cs : List Command} (h : readLines n recent (line :: rest) = .ok cs) :
    (line.trim.isEmpty = true ∧ readLines (n + 1) recent rest = .ok cs) ∨
      ∃ c, line.trim.isEmpty = false ∧ Command.parse line.trim n (some recent) = .ok c ∧
        readLines (n + 1) (c :: recent) rest = .ok cs := by
  simp only [readLines] at h
  split at h
  · rename_i blank
    exact .inl ⟨blank, h⟩
  · rename_i written
    cases hp : Command.parse line.trim n (some recent) with
    | error fault =>
        rw [hp] at h
        cases h
    | ok c =>
        rw [hp] at h
        exact .inr ⟨c, Bool.eq_false_iff.mpr written, rfl, h⟩

/-- What a line gives whenever the commands before it have it, all commands of a text have. -/
theorem readLines_forall {P : Command → Prop}
    (step : ∀ {raw line recent c}, (∀ b ∈ recent, P b) →
      Command.parse raw line (some recent) = .ok c → P c)
    {n : Nat} {recent : List Command} {lines : List Text} {cs : List Command}
    (before : ∀ c ∈ recent, P c) (h : readLines n recent lines = .ok cs) : ∀ c ∈ cs, P c := by
  induction lines generalizing n recent with
  | nil =>
      cases h
      exact fun c hc => before c (List.mem_reverse.mp hc)
  | cons line rest ih =>
      obtain ⟨_, h⟩ | ⟨c, _, hp, h⟩ := readLines_cons h
      · exact ih before h
      · exact ih (List.forall_mem_cons.mpr ⟨step before hp, before⟩) h

/-- Commands latest first: every line is behind those before it, and a repetition refers to the
command just before it. -/
def Linked : List Command → Prop
  | [] => True
  | c :: before =>
    0 ≤ c.line ∧ (∀ b ∈ before, b.line < c.line) ∧
      (∀ t, c.target? = some t → t = before.head?.getD .nothing) ∧ Linked before

theorem find?_before {recent : List Command} {line : Int} (h : ∀ b ∈ recent, b.line < line) :
    (recent.find? fun b => b.line < line) = recent.head? := by
  cases recent with
  | nil => rfl
  | cons b rest =>
      have hb : b.line < line := h b List.mem_cons_self
      simp [hb]

theorem linked_parse {raw : Text} {n : Nat} {recent : List Command} {c : Command}
    (linked : Linked recent) (before : ∀ b ∈ recent, b.line < n)
    (h : Command.parse raw n (some recent) = .ok c) : Linked (c :: recent) := by
  have hline := parse_line h
  refine ⟨by omega, fun b hb => hline ▸ before b hb, ?_, linked⟩
  intro t ht
  obtain ⟨deed, _, rfl⟩ | ⟨count, _, rfl⟩ := parse_cases h
  · cases ht
  · cases ht
    rw [find?_before before]

/-- Reading lines keeps what has been read linked. -/
theorem linked_readLines {n : Nat} {recent : List Command} {lines : List Text}
    {cs : List Command} (linked : Linked recent) (before : ∀ b ∈ recent, b.line < n)
    (h : readLines n recent lines = .ok cs) : Linked cs.reverse := by
  induction lines generalizing n recent with
  | nil =>
      cases h
      rwa [List.reverse_reverse]
  | cons line rest ih =>
      have later : ∀ b ∈ recent, b.line < (n + 1 : Nat) := fun b hb => by
        have := before b hb
        omega
      obtain ⟨_, h⟩ | ⟨c, _, hp, h⟩ := readLines_cons h
      · exact ih linked later h
      · have hc := parse_line hp
        refine ih (linked_parse linked before hp) ?_ h
        intro b hb
        rcases List.mem_cons.mp hb with rfl | hb
        · omega
        · exact later b hb

theorem Source.commands_eq_ok {source : Source} {cs : List Command}
    (h : source.commands = .ok cs) : readLines 0 [] source.lines = .ok cs := by
  simp only [Source.commands] at h
  split at h
  · cases h
  · rename_i read
    split at h
    · cases h
    · cases h
      exact read

/-- The commands of a text are linked. -/
theorem linked_commands {source : Source} {cs : List Command} (h : source.commands = .ok cs) :
    Linked cs.reverse := by
  have start : Linked [] := trivial
  exact linked_readLines start (fun _ hb => absurd hb List.not_mem_nil) (Source.commands_eq_ok h)

/-- The command reached by following a chain of repetitions `n` times. -/
def Command.follow : Nat → Command → Option Command
  | 0, c => some c
  | n + 1, c => c.target?.bind (follow n)

theorem target?_isSome_iff (c : Command) : c.target?.isSome ↔ c.verb = .again := by
  cases c with
  | plain raw line deed => cases deed <;> simp [Command.target?, Command.verb, Deed.verb]
  | again raw line count target => simp [Command.target?, Command.verb]

theorem commands_millis_le {source : Source} {cs : List Command}
    (h : source.commands = .ok cs) : ∀ c ∈ cs, c.millis ≤ maxMillis :=
  readLines_forall (fun _ => parse_millis_le) (fun _ hc => absurd hc List.not_mem_nil)
    (Source.commands_eq_ok h)

namespace Linked

theorem nonneg {recent : List Command} (h : Linked recent) : ∀ c ∈ recent, 0 ≤ c.line := by
  induction recent with
  | nil => exact fun c hc => absurd hc List.not_mem_nil
  | cons b before ih =>
      intro c hc
      rcases List.mem_cons.mp hc with rfl | hc
      · exact h.1
      · exact ih h.2.2.2 c hc

theorem decreasing {recent : List Command} (h : Linked recent) :
    recent.Pairwise fun a b => b.line < a.line := by
  induction recent with
  | nil => exact .nil
  | cons b before ih => exact .cons h.2.1 (ih h.2.2.2)

/-- The command repeated by the one at an index, latest first. -/
theorem target_eq {recent : List Command} (h : Linked recent) {i : Nat} {c t : Command}
    (hc : recent[i]? = some c) (ht : c.target? = some t) :
    t = recent[i + 1]?.getD .nothing := by
  induction recent generalizing i with
  | nil => cases hc
  | cons b before ih =>
      cases i with
      | zero =>
          cases hc
          rw [h.2.2.1 t ht, List.getElem?_cons_succ, List.head?_eq_getElem?]
      | succ i =>
          rw [List.getElem?_cons_succ] at hc ⊢
          exact ih h.2.2.2 hc

/-- The first command repeats nothing. -/
theorem target_zero {cs : List Command} (h : Linked cs.reverse) {c t : Command}
    (hc : cs[0]? = some c) (ht : c.target? = some t) : t = .nothing := by
  have hlen : 0 < cs.length := (List.getElem?_eq_some_iff.mp hc).1
  have hr : cs.reverse[cs.length - 1]? = some c := by
    rw [List.getElem?_reverse (by omega)]
    simpa using hc
  rw [h.target_eq hr ht, List.getElem?_eq_none (by simp; omega), Option.getD_none]

/-- Any other repetition repeats the command just before it. -/
theorem target_succ {cs : List Command} (h : Linked cs.reverse) {i : Nat} {c t : Command}
    (hc : cs[i + 1]? = some c) (ht : c.target? = some t) : cs[i]? = some t := by
  have hlen : i + 1 < cs.length := (List.getElem?_eq_some_iff.mp hc).1
  have hr : cs.reverse[cs.length - 1 - (i + 1)]? = some c := by
    rw [List.getElem?_reverse (by omega), ← hc]
    congr 1
    omega
  have hb : cs.reverse[cs.length - 1 - (i + 1) + 1]? = cs[i]? := by
    rw [List.getElem?_reverse (by omega)]
    congr 1
    omega
  have heq := h.target_eq hr ht
  rw [hb, List.getElem?_eq_getElem (by omega), Option.getD_some] at heq
  rw [List.getElem?_eq_getElem (by omega), heq]

/-- What is found before a line has the greatest line below it. -/
theorem find?_eq_some_iff {recent : List Command} (h : Linked recent) {line : Int}
    {c : Command} :
    (recent.find? fun b => b.line < line) = some c ↔
      c ∈ recent ∧ c.line < line ∧ ∀ b ∈ recent, b.line < line → b.line ≤ c.line := by
  induction recent with
  | nil => simp
  | cons a before ih =>
      by_cases ha : a.line < line
      · simp only [List.find?_cons, ha, decide_true, Option.some.injEq]
        constructor
        · rintro rfl
          refine ⟨List.mem_cons_self, ha, fun b hb _ => ?_⟩
          rcases List.mem_cons.mp hb with rfl | hb
          · exact Int.le_refl _
          · exact Int.le_of_lt (h.2.1 b hb)
        · rintro ⟨hc, _, greatest⟩
          rcases List.mem_cons.mp hc with rfl | hc
          · rfl
          · have hlt := h.2.1 c hc
            have hle := greatest a List.mem_cons_self ha
            omega
      · simp only [List.find?_cons, ha, decide_false]
        rw [ih h.2.2.2]
        constructor
        · rintro ⟨hc, hlt, greatest⟩
          refine ⟨List.mem_cons_of_mem _ hc, hlt, fun b hb hbl => ?_⟩
          rcases List.mem_cons.mp hb with rfl | hb
          · exact absurd hbl ha
          · exact greatest b hb hbl
        · rintro ⟨hc, hlt, greatest⟩
          rcases List.mem_cons.mp hc with rfl | hc
          · exact absurd hlt ha
          · exact ⟨hc, hlt, fun b hb => greatest b (List.mem_cons_of_mem _ hb)⟩

/-- A chain of repetitions ends among the commands themselves, or in nothing. -/
theorem follow_ends {recent : List Command} (h : Linked recent) :
    ∀ c ∈ recent, ∃ n d, c.follow n = some d ∧ d.verb ≠ .again ∧
      (d ∈ recent ∨ d = .nothing) := by
  induction recent with
  | nil => exact fun c hc => absurd hc List.not_mem_nil
  | cons a before ih =>
      have earlier : ∀ c ∈ before, ∃ n d, c.follow n = some d ∧ d.verb ≠ .again ∧
          (d ∈ a :: before ∨ d = .nothing) := by
        intro c hc
        obtain ⟨n, d, hd, plain, at_end⟩ := ih h.2.2.2 c hc
        exact ⟨n, d, hd, plain, at_end.imp (List.mem_cons_of_mem _) id⟩
      intro c hc
      rcases List.mem_cons.mp hc with rfl | hc
      · cases ht : c.target? with
        | none =>
            refine ⟨0, c, rfl, ?_, .inl List.mem_cons_self⟩
            intro again
            have present := (target?_isSome_iff c).mpr again
            rw [ht] at present
            cases present
        | some t =>
            have hhead := h.2.2.1 t ht
            cases before with
            | nil => exact ⟨1, t, by simp [Command.follow, ht], hhead ▸ nofun, .inr hhead⟩
            | cons b rest =>
                obtain ⟨n, d, hd, plain, at_end⟩ := earlier b List.mem_cons_self
                refine ⟨n + 1, d, ?_, plain, at_end⟩
                rw [List.head?_cons, Option.getD_some] at hhead
                simpa only [Command.follow, ht, hhead, Option.bind_some] using hd
      · exact earlier c hc

end Linked

end KeyScript

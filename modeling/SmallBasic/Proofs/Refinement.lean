import SmallBasic.Proofs.Blocks
import SmallBasic.Proofs.Ticks

/-!
# Runs and outlines

A program without jumps to labels and without events, run by the machine on input that is known
from the start, does what the structured evaluation of its outline does: it comes to an end exactly
if the evaluation does, with the same variables and the same output.

## Main definitions

* `Library.opening` — the library at the start of such a run.
* `Body.Ends` — an outline whose evaluation comes to an end.

## Main statements

* `Machine.exists_gives` — whatever the run, its clock has given some answers.
* `Machine.isFinished_iff_of_parse` — runs refine outlines.
-/

namespace SmallBasic

/-- What a run is given: the kind of console, all input lines, the arguments and the directory of
the program, the unit of time, the clock, and the dice. -/
structure Setting where
  style : Console.Style := .screen
  lines : List String := []
  arguments : List String := []
  directory : String := ""
  resolution : Nat := 1
  clock : Clock := {}
  dice : Dice := {}

/-- The library at the start of a run. No other input will come. -/
def Setting.library (setting : Setting) : Library :=
  { console := { style := setting.style, pending := setting.lines, closed := true }
    arguments := setting.arguments
    directory := setting.directory
    timer := { resolution := setting.resolution }
    clock := setting.clock
    dice := setting.dice }

/-- The scene at the start of a run. -/
def Setting.scene (setting : Setting) : Scene := { world := { library := setting.library } }

/-- The evaluation of a program comes to an end in this scene, whether it goes through to the end or
is told to stop. -/
def Body.Ends (program : Body) (clock : Nat → String) (scene last : Scene) : Prop :=
  ∃ fuel, program.evaluate clock fuel program scene = .goes () last ∨
    program.evaluate clock fuel program scene = .stops last

theorem Verdict.ends_eq_iff {verdict : Verdict Unit} {last : Scene} :
    verdict.Ends (fun _ next => next = last) last ↔
      verdict = .goes () last ∨ verdict = .stops last := by
  cases verdict <;> simp

namespace Machine

variable {program : Program} {library : Library} {instants : Nat → Nat} {clock : Nat → String}

/-! ## What the clock has answered -/

/-- What the clock has answered stays. -/
theorem getElem?_readings (machine : Machine) (instants : Nat → Nat) {count later i : Nat}
    {answer : String} (hle : count ≤ later)
    (hanswer : (machine.readings instants count)[i]? = some answer) :
    (machine.readings instants later)[i]? = some answer := by
  induction hle with
  | refl => exact hanswer
  | step _ ih =>
    obtain ⟨hlt, -⟩ := List.getElem?_eq_some_iff.1 ih
    rw [readings, List.getElem?_append_left hlt, ih]

theorem gives_of_getElem? {start : Nat} {answers : List String}
    (hanswers : ∀ i answer, answers[i]? = some answer → clock (start + i) = answer) :
    Gives clock start answers := by
  induction answers generalizing start with
  | nil => trivial
  | cons answer answers ih =>
    refine ⟨hanswers 0 answer rfl, ih fun i other hother => ?_⟩
    rw [Nat.add_assoc, Nat.add_comm 1]
    exact hanswers (i + 1) other hother

/-- Whatever the run, its clock has given some answers. -/
theorem exists_gives (machine : Machine) (instants : Nat → Nat) :
    ∃ clock, ∀ count, Gives clock 0 (machine.readings instants count) := by
  have hanswer : ∀ i : Nat, ∃ answer, ∀ count other,
      (machine.readings instants count)[i]? = some other → answer = other := by
    intro i
    by_cases hread : ∃ count answer, (machine.readings instants count)[i]? = some answer
    · obtain ⟨count, answer, hanswer⟩ := hread
      refine ⟨answer, fun other found hfound => ?_⟩
      -- Of two logs of the same run, one is the beginning of the other.
      rcases Nat.le_total count other with hle | hle
      · have hsame := machine.getElem?_readings instants hle hanswer
        exact Option.some.inj (hsame.symm.trans hfound)
      · have hsame := machine.getElem?_readings instants hle hfound
        exact Option.some.inj (hanswer.symm.trans hsame)
    · exact ⟨"", fun count other hother => absurd ⟨count, other, hother⟩ hread⟩
  obtain ⟨clock, hclock⟩ := Classical.skolem.1 hanswer
  refine ⟨clock, fun count => gives_of_getElem? fun i answer hfound => ?_⟩
  rw [Nat.zero_add]
  exact hclock i count answer hfound

/-! ## Whole runs -/

theorem plays_start (program : Program) (setting : Setting) :
    (Machine.start program setting.library).world.Plays setting.scene := by
  unfold Machine.start
  dsimp only
  split <;> exact ⟨rfl, rfl, rfl⟩

/-- A program without statements is over at once. -/
theorem over_start (setting : Setting) (instants : Nat → Nat) (hsize : program.size = 0) :
    (Machine.start program setting.library).Over instants 0 setting.scene := by
  refine ⟨.inr ?_, plays_start program setting⟩
  simp [ticked, Machine.start, hsize]

/-- Any other program starts with one thread before its first statement. -/
theorem stands_start (setting : Setting) (instants : Nat → Nat) (clock : Nat → String)
    {statement : Statement} (hstatement : program.get? 0 = some statement) :
    (Machine.start program setting.library).Stands instants clock 0 (Thread.start program 0 0)
      setting.scene ((program.execute 0 statement).evaluate clock setting.scene) := by
  have hsize : 0 < program.size := Program.lt_size_of_get? hstatement
  constructor
  case threads => simp [ticked, Machine.start, hsize, Machine.spawn]
  case ended => simp [ticked, Machine.start, hsize, Machine.spawn]
  case plays => exact plays_start program setting
  case running => rfl
  case readings => rfl
  case pends =>
    rw [program_start]
    exact .ready rfl hstatement

/-- The machine finishes in the scenes in which its main thread does. -/
theorem isFinished_iff_halts (hlinked : program.Linked)
    (hplain : ∀ clause ∈ program.clauses, clause.isPlain = true) {setting : Setting}
    (hpasses : (Machine.start program setting.library).PassesDelays instants)
    (hgives : ∀ count,
      Gives clock 0 ((Machine.start program setting.library).readings instants count))
    {P : World → Prop} (halike : ∀ {world other : World}, world.Alike other → P world → P other) :
    (∃ count, ((Machine.start program setting.library).ticked instants count).isFinished = true ∧
        P ((Machine.start program setting.library).ticked instants count).world) ↔
      ∃ last, program.Halts clock last 0 [program.size] setting.scene ∧ P last.world := by
  rcases Nat.eq_zero_or_pos program.size with hempty | hsome
  · have hover := over_start setting instants hempty
    constructor
    · rintro ⟨count, -, hworld⟩
      have hplays := (hover.of_le (Nat.zero_le count)).plays
      exact ⟨_, ⟨0, Nat.le_of_eq hempty, rfl⟩, halike hplays.alike hworld⟩
    · rintro ⟨last, ⟨count, hfinishes⟩, hlast⟩
      obtain rfl := hfinishes.eq_last (Nat.le_of_eq hempty)
      exact ⟨0, hover.isFinished, halike hover.plays.alike.symm hlast⟩
  · have hstatement : program.get? 0 = some program.statements[0] :=
      Array.getElem?_eq_getElem hsome
    have hstands := stands_start setting instants clock hstatement
    have hprogram := program_start program setting.library
    have hbinds : ∀ event handler, .bind event handler ∉ program.clauses :=
      fun event handler hmem => by cases hplain _ hmem
    generalize Machine.start program setting.library = machine at *
    subst hprogram
    exact hstands.exists_isFinished_iff hlinked hbinds hpasses hgives hstatement halike

/-- A program without jumps to labels and without events, run alone on given input lines, comes to
an end with some variables and some output exactly if the evaluation of its outline does. The
instants of the ticks pass every delay, and the clock answers in the evaluation as it does in the
run. -/
theorem isFinished_iff_of_parse {source : String} (hparse : Program.parse source = .ok program)
    (hplain : ∀ clause ∈ program.clauses, clause.isPlain = true) (setting : Setting)
    (hpasses : (Machine.start program setting.library).PassesDelays instants)
    (hgives : ∀ count,
      Gives clock 0 ((Machine.start program setting.library).readings instants count)) :
    (∃ outline : Body, outline.clauses = program.clauses) ∧
      ∀ outline : Body, outline.clauses = program.clauses → ∀ (store : Store) (output : String),
        (∃ count,
            let machine := (Machine.start program setting.library).ticked instants count
            machine.isFinished = true ∧ machine.world.store = store ∧
              machine.world.library.console.output = output) ↔
          ∃ last, outline.Ends clock setting.scene last ∧ last.world.store = store ∧
            last.world.library.console.output = output := by
  have hlinked := Program.linked_of_parse hparse
  refine ⟨hlinked.outline, fun outline houtline store output => ?_⟩
  have halike : ∀ {world other : World}, world.Alike other →
      (world.store = store ∧ world.library.console.output = output) →
        other.store = store ∧ other.library.console.output = output := by
    intro world other halike hworld
    rwa [← halike.store_eq, ← halike.console_eq]
  have hends : ∀ last, outline.Ends clock setting.scene last ↔
      program.Halts clock last 0 [program.size] setting.scene := by
    intro last
    have hstructured : program.Structured outline := ⟨hlinked, houtline, hplain⟩
    have hrunning : setting.scene.Running := rfl
    simp only [hstructured.halts_iff hrunning, Body.Ends, Verdict.ends_eq_iff]
  simp only [hends]
  exact isFinished_iff_halts hlinked hplain hpasses hgives halike

/-- Where each tick is at its own number, every delay is passed. -/
theorem passesDelays_id (machine : Machine) : machine.PassesDelays id :=
  fun count _ _ time _ => ⟨max count time, Nat.le_max_left .., Nat.le_max_right ..⟩

/-- A loop around a subroutine that waits. Its run comes to an end, and so does its evaluation. -/
theorem isFinished_iff_of_parse_loop : ∃ program clock,
    Program.parse "While x < 2\nf()\nEndWhile\nSub f\nProgram.Delay(5)\nx = x + 1\nEndSub" =
        .ok program ∧
      ((Machine.start program ({} : Setting).library).ticked id 30).isFinished = true ∧
      ∀ outline : Body, outline.clauses = program.clauses → ∀ (store : Store) (output : String),
        (∃ count,
            let machine := (Machine.start program ({} : Setting).library).ticked id count
            machine.isFinished = true ∧ machine.world.store = store ∧
              machine.world.library.console.output = output) ↔
          ∃ last, outline.Ends clock ({} : Setting).scene last ∧ last.world.store = store ∧
            last.world.library.console.output = output := by
  obtain ⟨program, hparse, hcheck⟩ := Program.exists_of_any
    "While x < 2\nf()\nEndWhile\nSub f\nProgram.Delay(5)\nx = x + 1\nEndSub"
    (fun program => program.clauses.all Clause.isPlain &&
      ((Machine.start program ({} : Setting).library).ticked id 30).isFinished)
    (by decide +kernel)
  obtain ⟨hplain, hfinished⟩ := (Bool.and_eq_true _ _).mp hcheck
  obtain ⟨clock, hgives⟩ := (Machine.start program ({} : Setting).library).exists_gives id
  exact ⟨program, clock, hparse, hfinished,
    (isFinished_iff_of_parse hparse (List.all_eq_true.1 hplain) {} (passesDelays_id _) hgives).2⟩

end Machine

end SmallBasic

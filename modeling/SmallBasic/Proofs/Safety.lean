import SmallBasic.Machine
import SmallBasic.Proofs.Dispatch
import SmallBasic.Proofs.Links

/-!
# Programs that parse do not fail

A thread can fail in two ways: a member of the library is used wrongly, or a link does not lead
where it should. Neither happens in a program that parses, whatever the threads are given to do, in
whatever order.

The argument goes from the inside out. An action is sound if all its requests have answers and it
never gives up, whatever the answers are. The action of every statement is sound, what is left of a
sound action after a wait is sound, and a machine whose threads wait only for sound actions keeps
this through every change.

## Main definitions

* `Action.Ensures` — what an action asks for and ends with, whatever it is answered.
* `Program.ChainEnds` — a walk along an `If` chain that comes to its end.
* `Machine.Move`, `Machine.after` — what can be done to a machine, and a sequence of it.

## Main statements

* `Program.Linked.execute_sound` — no statement of a linked program can fail.
* `Machine.Sound.tick` — a tick of a sound machine succeeds and leaves it sound.
* `Machine.tick_of_parse` — a program that parses never fails.
-/

namespace SmallBasic

/-! ## Actions -/

namespace Action

variable {α β : Type} {Q : Request → Prop} {P : α → Prop} {R : β → Prop}

/-- Whatever it is answered, the action asks only for what `Q` allows, does not fail, and ends with
a value that `P` allows. -/
inductive Ensures (Q : Request → Prop) (P : α → Prop) : Action α → Prop
  | done {value : α} (hvalue : P value) : Ensures Q P (.done value)
  | ask {request : Request} {next : String → Action α} (hrequest : Q request)
      (hnext : ∀ answer, Ensures Q P (next answer)) : Ensures Q P (.ask request next)

theorem Ensures.pure {value : α} (hvalue : P value) :
    (Pure.pure value : Action α).Ensures Q P := .done hvalue

theorem Ensures.request {r : Request} (hrequest : Q r) :
    (Action.request r).Ensures Q fun _ => True := .ask hrequest fun _ => .done trivial

theorem Ensures.bind {action : Action α} {f : α → Action β} (haction : action.Ensures Q P)
    (hf : ∀ value, P value → (f value).Ensures Q R) : (action >>= f).Ensures Q R := by
  induction haction with
  | done hvalue => exact hf _ hvalue
  | ask hrequest _ ih => exact .ask hrequest ih

/-- A request whose answer is not restricted. -/
theorem Ensures.seq {r : Request} {f : String → Action β} (hrequest : Q r)
    (hf : ∀ answer, (f answer).Ensures Q R) : (Action.request r >>= f).Ensures Q R :=
  .ask hrequest hf

theorem Ensures.mono {Q' : Request → Prop} {action : Action α} (haction : action.Ensures Q P)
    (hQ : ∀ r, Q r → Q' r) : action.Ensures Q' P := by
  induction haction with
  | done hvalue => exact .done hvalue
  | ask hrequest _ ih => exact .ask (hQ _ hrequest) ih

theorem Ensures.ite {c : Prop} [Decidable c] {yes no : Action α} (hyes : yes.Ensures Q P)
    (hno : no.Ensures Q P) : (if c then yes else no).Ensures Q P := by
  split
  · exact hyes
  · exact hno

end Action

/-- The action asks only for what the library has, and does not fail. Where `binds` is false it
binds no event. -/
abbrev Action.Sound {α : Type} (action : Action α) (binds : Prop := True) : Prop :=
  action.Ensures (Request.Fits · binds) fun _ => True

variable {binds : Prop}

/-! ## Expressions -/

mutual

theorem Expr.eval_ensures : (e : Expr) → e.Fits → e.eval.Sound binds
  | .literal _, _ => .pure trivial
  | .variable _ indices, hfits => by
    rw [Expr.eval]
    refine (Expr.evalAll_ensures indices hfits).bind fun keys _ => ?_
    exact .seq trivial fun _ => .pure trivial
  | .field _, _ => .request trivial
  | .binary _ left right, hfits => by
    rw [Expr.eval]
    refine (Expr.eval_ensures left hfits.1).bind fun _ _ => ?_
    exact (Expr.eval_ensures right hfits.2).bind fun _ _ => .pure trivial
  | .call method args, hfits => by
    rw [Expr.eval]
    refine (Expr.evalAll_ensures args hfits.2).bind fun values hvalues => ?_
    exact .request (hvalues.trans hfits.1)

theorem Expr.evalAll_ensures : (es : List Expr) → Expr.FitAll es →
    (Expr.evalAll es).Ensures (Request.Fits · binds) fun values => values.length = es.length
  | [], _ => .pure rfl
  | e :: es, hfits => by
    rw [Expr.evalAll]
    refine (Expr.eval_ensures e hfits.1).bind fun _ _ => ?_
    refine (Expr.evalAll_ensures es hfits.2).bind fun values hvalues => ?_
    exact .pure (congrArg Nat.succ hvalues)

end

theorem Place.store_ensures {place : Place} (hfits : place.Fits) (value : String) :
    (place.store value).Sound binds := by
  unfold Place.store
  split
  · exact .seq trivial fun _ => .pure trivial
  · refine (Expr.evalAll_ensures _ hfits).bind fun keys _ => ?_
    exact .seq trivial fun _ => .seq trivial fun _ => .pure trivial
  · exact .seq hfits fun _ => .pure trivial

/-! ## Statements -/

namespace Program

variable {program : Program} {index : Nat}

/-- The walk along an `If` chain from a statement comes to its end. -/
inductive ChainEnds (program : Program) : Nat → Prop
  | endIf {index : Nat} (hclause : program.clause? index = some .endIf) :
      ChainEnds program index
  | next {index target : Nat} {clause : Clause} (hclause : program.clause? index = some clause)
      (hbranch : (∃ condition, clause = .elseIf condition) ∨ clause = .else)
      (hlink : program.link? index = some target) (hends : ChainEnds program target) :
      ChainEnds program index

theorem Linked.fits_of_clause? (hlinked : program.Linked) {clause : Clause}
    (hclause : program.clause? index = some clause) : clause.Fits :=
  hlinked.fits clause (List.mem_of_getElem? ((getElem?_clauses program index).trans hclause))

theorem target_eq {statement : Statement} {target : Nat}
    (hstatement : program.get? index = some statement) (hlink : program.link? index = some target) :
    program.target statement = target := by
  have hlink : statement.link = some target := by simpa [link?, hstatement] using hlink
  simp [Program.target, hlink]

/-- Each branch of a chain leads on to the next one or to the end. -/
theorem WellLinked.exists_next (hlinks : program.WellLinked) {clause : Clause}
    (hclause : program.clause? index = some clause)
    (hbranch : (∃ condition, clause = .if condition) ∨ (∃ condition, clause = .elseIf condition) ∨
      clause = .else) :
    ∃ target next, program.link? index = some target ∧ index < target ∧
      program.clause? target = some next ∧ next.continuesIf = true := by
  obtain ⟨target, next, hlink, hnext, hcontinues⟩ : ∃ target next,
      program.link? index = some target ∧ program.clause? target = some next ∧
        next.continuesIf = true := by
    rcases hbranch with ⟨condition, rfl⟩ | ⟨condition, rfl⟩ | rfl
    · exact hlinks.branch index condition (.inl hclause)
    · exact hlinks.branch index condition (.inr hclause)
    · obtain ⟨target, hlink, hend⟩ := hlinks.lastBranch index hclause
      exact ⟨target, .endIf, hlink, hend, rfl⟩
  have hopener : clause.opener?.isSome = true := by
    obtain ⟨condition, rfl⟩ | ⟨condition, rfl⟩ | rfl := hbranch <;> rfl
  have hlt := (hlinks.ends index clause hclause hopener target hlink).1
  exact ⟨target, next, hlink, hlt, hnext, hcontinues⟩

/-- Every walk along a chain ends, since it goes forward. -/
theorem WellLinked.chainEnds (hlinks : program.WellLinked) {clause : Clause}
    (hclause : program.clause? index = some clause) (hcontinues : clause.continuesIf = true) :
    program.ChainEnds index := by
  induction hn : program.size - index using Nat.strongRecOn generalizing index clause with
  | ind n ih =>
    have hlt := lt_size_of_clause? hclause
    cases clause with
    | endIf => exact .endIf hclause
    | elseIf condition =>
      obtain ⟨target, next, hlink, hforward, hnext, hmore⟩ :=
        hlinks.exists_next hclause (.inr (.inl ⟨condition, rfl⟩))
      exact .next hclause (.inl ⟨condition, rfl⟩) hlink (ih _ (by omega) hnext hmore rfl)
    | «else» =>
      obtain ⟨target, next, hlink, hforward, hnext, hmore⟩ :=
        hlinks.exists_next hclause (.inr (.inr rfl))
      exact .next hclause (.inr rfl) hlink (ih _ (by omega) hnext hmore rfl)
    | _ => cases hcontinues

/-- A walk in search of a branch needs no more steps than there are statements left. -/
theorem Linked.selectBranch_ensures (hlinked : program.Linked) {limit : Nat} {clause : Clause}
    (hclause : program.clause? index = some clause) (hcontinues : clause.continuesIf = true)
    (hlimit : program.size ≤ index + limit) : (program.selectBranch limit index).Sound binds := by
  induction limit generalizing index clause with
  | zero =>
    have hlt := lt_size_of_clause? hclause
    omega
  | succ limit ih =>
    obtain ⟨statement, hstatement, rfl⟩ := Option.map_eq_some_iff.1 hclause
    simp only [selectBranch, hstatement]
    cases hkind : statement.clause with
    | elseIf condition =>
      rw [hkind] at hclause
      refine (Expr.eval_ensures condition (hlinked.fits_of_clause? hclause)).bind fun _ _ => ?_
      obtain ⟨target, next, hlink, hforward, hnext, hmore⟩ :=
        hlinked.wellLinked.exists_next hclause (.inr (.inl ⟨condition, rfl⟩))
      rw [target_eq hstatement hlink]
      exact .ite (.pure trivial) (ih hnext hmore (by omega))
    | «else» | endIf => exact .pure trivial
    | _ => simp [hkind, Clause.continuesIf] at hcontinues

theorem Linked.skipBranches_ensures (hlinked : program.Linked) {limit : Nat} {clause : Clause}
    (hclause : program.clause? index = some clause) (hcontinues : clause.continuesIf = true)
    (hlimit : program.size ≤ index + limit) : (program.skipBranches limit index).Sound binds := by
  induction limit generalizing index clause with
  | zero =>
    have hlt := lt_size_of_clause? hclause
    omega
  | succ limit ih =>
    obtain ⟨statement, hstatement, rfl⟩ := Option.map_eq_some_iff.1 hclause
    simp only [skipBranches, hstatement]
    have hnext := hlinked.wellLinked.exists_next hclause
    cases hkind : statement.clause with
    | elseIf condition =>
      obtain ⟨target, next, hlink, hforward, hnext, hmore⟩ := hnext (.inr (.inl ⟨condition, hkind⟩))
      rw [target_eq hstatement hlink]
      exact ih hnext hmore (by omega)
    | «else» =>
      obtain ⟨target, next, hlink, hforward, hnext, hmore⟩ := hnext (.inr (.inr hkind))
      rw [target_eq hstatement hlink]
      exact ih hnext hmore (by omega)
    | endIf => exact .pure trivial
    | _ => simp [hkind, Clause.continuesIf] at hcontinues

theorem Linked.repeatFor_ensures (hlinked : program.Linked) {statement : Statement}
    (hstatement : program.get? index = some statement) (hclause : statement.clause = .endFor) :
    (program.repeatFor index (program.target statement)).Sound binds := by
  have hend : program.clause? index = some .endFor := by simp [clause?, hstatement, hclause]
  obtain ⟨start, hlink, -⟩ := hlinked.wellLinked.linked index .endFor hend rfl
  obtain ⟨⟨counter, lower, upper, hfor⟩, -⟩ :=
    (hlinked.wellLinked.for_iff start index).2 ⟨hend, hlink⟩
  have hfits := hlinked.fits_of_clause? hfor
  rw [target_eq hstatement hlink]
  unfold repeatFor
  rw [show (program.get? start).map Statement.clause = _ from hfor]
  refine .seq trivial fun _ => .seq trivial fun _ => ?_
  refine (Expr.eval_ensures upper hfits.2).bind fun _ _ => ?_
  exact .ite (.pure trivial) (.pure trivial)

theorem Linked.execute_ensures (hlinked : program.Linked) {statement : Statement}
    (hstatement : program.get? index = some statement)
    (hbinds : ∀ event handler, statement.clause = .bind event handler → binds) :
    (program.execute index statement).Sound binds := by
  have hclause : program.clause? index = some statement.clause := by simp [clause?, hstatement]
  have hfits := hlinked.fits_of_clause? hclause
  have hnext := hlinked.wellLinked.exists_next hclause
  have hlimit : ∀ target, program.size ≤ target + program.walkLimit := by
    intro target
    simp only [walkLimit]
    omega
  unfold execute
  cases hkind : statement.clause with
  | label | endIf | goto | callSub | sub | endSub | endWhile => exact .pure trivial
  | assign place value =>
    rw [hkind] at hfits
    refine (Expr.eval_ensures value hfits.2).bind fun text _ => ?_
    exact (Place.store_ensures hfits.1 text).bind fun _ _ => .pure trivial
  | bind event handler => exact .seq (hbinds event handler hkind) fun _ => .pure trivial
  | invoke method args =>
    rw [hkind] at hfits
    refine (Expr.evalAll_ensures args hfits.2).bind fun values hvalues => ?_
    exact .seq (hvalues.trans hfits.1) fun _ => .pure trivial
  | «if» condition =>
    rw [hkind] at hfits
    obtain ⟨target, next, hlink, -, hafter, hmore⟩ := hnext (.inl ⟨condition, hkind⟩)
    simp only [target_eq hstatement hlink]
    refine (Expr.eval_ensures condition hfits).bind fun _ _ => ?_
    have hselect : (program.selectBranch program.walkLimit target).Sound binds :=
      hlinked.selectBranch_ensures hafter hmore (hlimit target)
    exact .ite (.pure trivial) (hselect.bind fun _ _ => .pure trivial)
  | elseIf condition =>
    obtain ⟨target, next, hlink, -, hafter, hmore⟩ := hnext (.inr (.inl ⟨condition, hkind⟩))
    simp only [target_eq hstatement hlink]
    exact (hlinked.skipBranches_ensures hafter hmore (hlimit target)).bind fun _ _ => .pure trivial
  | «else» =>
    obtain ⟨target, next, hlink, -, hafter, hmore⟩ := hnext (.inr (.inr hkind))
    simp only [target_eq hstatement hlink]
    exact (hlinked.skipBranches_ensures hafter hmore (hlimit target)).bind fun _ _ => .pure trivial
  | «while» condition =>
    rw [hkind] at hfits
    refine (Expr.eval_ensures condition hfits).bind fun _ _ => ?_
    exact .ite (.pure trivial) (.pure trivial)
  | «for» counter lower upper =>
    rw [hkind] at hfits
    refine (Expr.eval_ensures lower hfits.1).bind fun _ _ => ?_
    refine .seq trivial fun _ => ?_
    refine (Expr.eval_ensures upper hfits.2).bind fun _ _ => ?_
    exact .ite (.pure trivial) (.pure trivial)
  | endFor => exact hlinked.repeatFor_ensures hstatement hkind

/-- No statement of a linked program fails, wherever it stands and whatever it is answered. -/
theorem Linked.execute_sound (hlinked : program.Linked) {statement : Statement}
    (hstatement : program.get? index = some statement) :
    (program.execute index statement).Sound :=
  hlinked.execute_ensures hstatement fun _ _ _ => trivial

end Program

/-! ## Threads -/

section Progress

variable {α : Type}

/-- The call that waits, and everything after it, is sound. -/
structure Suspension.Sound (rest : Suspension α) : Prop where
  fits : rest.request.Fits
  next : ∀ answer, (rest.next answer).Sound

/-- The action has not failed, and what is left of it is sound. -/
def Progress.Sound : Progress α → Prop
  | .done _ => True
  | .failed _ => False
  | .blocked _ rest => rest.Sound

theorem Action.Sound.run {action : Action α} (hsound : action.Sound) (world : World) :
    (action.run world).1.Sound := by
  induction hsound generalizing world with
  | done => trivial
  | ask hfits hnext ih =>
    obtain ⟨outcome, next, hperform⟩ := world.exists_perform false hfits
    unfold Action.run
    rw [hperform]
    cases outcome with
    | ready answer => exact ih answer next
    | blocked block => exact ⟨hfits, hnext⟩

theorem Suspension.Sound.resume {rest : Suspension α} (hsound : rest.Sound) (world : World) :
    (rest.resume world).1.Sound := by
  obtain ⟨outcome, next, hperform⟩ := world.exists_perform true hsound.fits
  unfold Suspension.resume
  rw [hperform]
  cases outcome with
  | ready answer => exact (hsound.next answer).run next
  | blocked block => exact hsound

end Progress

namespace Thread

variable {thread : Thread} {program : Program}

/-- What the thread still has to do inside a statement is sound. -/
def Sound (thread : Thread) : Prop :=
  match thread.phase with
  | .ready | .finished => True
  | .waiting _ rest | .woken rest => rest.Sound

/-- The step went well, and the thread can go on. -/
def StepsWell (result : Report × Thread) : Prop :=
  (∀ fault, result.1 ≠ .failed fault) ∧ result.2.Sound

theorem Sound.unblock (hsound : thread.Sound) : thread.unblock.Sound := by
  obtain ⟨id, ip, returns, phase⟩ := thread
  cases phase <;> exact hsound

theorem stepsWell_goto (thread : Thread) (program : Program) (index : Nat) :
    StepsWell (thread.goto program index) := by
  unfold Thread.goto
  split <;> exact ⟨by simp, trivial⟩

theorem stepsWell_follow (thread : Thread) (program : Program) (flow : Flow) :
    StepsWell (thread.follow program flow) := by
  cases flow with
  | next | jump | enter => exact stepsWell_goto ..
  | leave =>
    unfold Thread.follow
    dsimp only
    split
    · exact stepsWell_goto ..
    · exact ⟨by simp, trivial⟩

theorem stepsWell_settle {progress : Progress Flow} (hsound : progress.Sound) (thread : Thread)
    (program : Program) : StepsWell (thread.settle program progress) := by
  cases progress with
  | done flow => exact stepsWell_follow thread program flow
  | failed fault => exact hsound.elim
  | blocked block rest => exact ⟨by simp [Thread.settle], hsound⟩

/-- A step of a sound thread does not fail and leaves it sound. -/
theorem Sound.step (hsound : thread.Sound) (hlinked : program.Linked) (world : World) :
    StepsWell ((thread.step program world).1, (thread.step program world).2.1) := by
  unfold Thread.step
  split
  · exact ⟨by simp, hsound⟩
  · exact ⟨by simp, hsound⟩
  · rename_i rest hphase
    have hrest : rest.Sound := by simpa [Sound, hphase] using hsound
    exact stepsWell_settle (hrest.resume world) thread program
  · split
    · exact ⟨by simp, trivial⟩
    · rename_i statement hstatement
      have haction := hlinked.execute_sound hstatement
      exact stepsWell_settle (haction.run world) thread program

end Thread

/-! ## Machines -/

namespace Machine

/-- Whatever is left to do in the machine is sound. -/
structure Sound (machine : Machine) : Prop where
  linked : machine.program.Linked
  threads : ∀ thread ∈ machine.threads, thread.Sound

/-- A round of sound threads has no fault and leaves them sound. -/
theorem round_sound {program : Program} (hlinked : program.Linked) (now : Nat)
    {threads : List Thread} (hsound : ∀ thread ∈ threads, thread.Sound) (world : World) :
    (round program now threads world).fault? = none ∧
      ∀ thread ∈ (round program now threads world).threads, thread.Sound := by
  induction threads generalizing world with
  | nil => exact ⟨rfl, by simp [round]⟩
  | cons thread rest ih =>
    obtain ⟨hthread, hrest⟩ := List.forall_mem_cons.1 hsound
    unfold round
    split
    · obtain ⟨hfault, hthreads⟩ := ih hrest world
      exact ⟨hfault, List.forall_mem_cons.2 ⟨hthread, hthreads⟩⟩
    · obtain ⟨hreport, hnext⟩ := hthread.unblock.step hlinked world
      dsimp only
      split
      · rename_i fault hfailed
        exact absurd hfailed (hreport fault)
      · split
        · exact ⟨rfl, List.forall_mem_cons.2 ⟨hnext, hrest⟩⟩
        · obtain ⟨hfault, hthreads⟩ := ih hrest _
          exact ⟨hfault, List.forall_mem_cons.2 ⟨hnext, hthreads⟩⟩

variable {machine : Machine}

theorem Sound.spawn (hsound : machine.Sound) (ip : Nat) : (machine.spawn ip).Sound := by
  refine ⟨hsound.linked, ?_⟩
  intro thread hthread
  simp only [Machine.spawn, List.mem_append, List.mem_singleton] at hthread
  rcases hthread with hthread | rfl
  · exact hsound.threads thread hthread
  · trivial

theorem Sound.withWorld (hsound : machine.Sound) (world : World) : { machine with world }.Sound :=
  ⟨hsound.linked, hsound.threads⟩

theorem Sound.awaken (hsound : machine.Sound) (now : Nat) : (machine.awaken now).2.Sound := by
  unfold Machine.awaken
  dsimp only
  split
  · exact (hsound.withWorld _).spawn _
  · exact hsound.withWorld _

/-- A tick of a sound machine succeeds and leaves the machine sound. -/
theorem Sound.tick (hsound : machine.Sound) (now : Nat) :
    ∃ report next, machine.tick now = (.ok report, next) ∧ next.Sound := by
  unfold Machine.tick
  split
  · exact ⟨_, _, rfl, hsound⟩
  · have hawake := hsound.awaken now
    obtain ⟨hfault, hthreads⟩ := round_sound hawake.linked now hawake.threads
      (machine.awaken now).2.world
    dsimp only
    rw [hfault]
    refine ⟨_, _, rfl, hawake.linked, ?_⟩
    intro thread hthread
    dsimp only at hthread
    split at hthread
    · simp at hthread
    · exact hthreads thread (List.mem_filter.1 hthread).1

/-- What can be done to a machine from outside. -/
inductive Move where
  | tick (now : Nat)
  | spawn (ip : Nat)
  | push (line : String)
  | close

/-- The machine after a move. -/
def apply (machine : Machine) : Move → Machine
  | .tick now => (machine.tick now).2
  | .spawn ip => machine.spawn ip
  | .push line => machine.onConsole (·.push line)
  | .close => machine.onConsole Console.close

/-- The machine after moves in order. -/
def after (machine : Machine) (moves : List Move) : Machine := moves.foldl apply machine

theorem Sound.apply (hsound : machine.Sound) (move : Move) : (machine.apply move).Sound := by
  cases move with
  | tick now =>
    obtain ⟨report, next, htick, hnext⟩ := hsound.tick now
    simpa [Machine.apply, htick] using hnext
  | spawn ip => exact hsound.spawn ip
  | push | close => exact hsound.withWorld _

theorem Sound.after (hsound : machine.Sound) (moves : List Move) : (machine.after moves).Sound := by
  induction moves generalizing machine with
  | nil => exact hsound
  | cons move moves ih => exact ih (hsound.apply move)

theorem sound_start {program : Program} (hlinked : program.Linked) (library : Library) :
    (Machine.start program library).Sound := by
  unfold Machine.start
  dsimp only
  have hempty : ({ program, world := { library } } : Machine).Sound := ⟨hlinked, by simp⟩
  split
  · exact hempty.spawn 0
  · exact hempty

/-- A program that parses never fails: whatever is done to its machine, every tick succeeds. No
statement of it, whatever it is answered, asks for a member that cannot be found by its names or
that is not implemented, and every walk along an `If` chain ends. -/
theorem tick_of_parse {source : String} {program : Program}
    (hparse : Program.parse source = .ok program) (library : Library) :
    (∀ (moves : List Move) (now : Nat), ∃ report next,
        ((Machine.start program library).after moves).tick now = (.ok report, next)) ∧
      (∀ index statement, program.get? index = some statement →
        (program.execute index statement).Ensures
          (fun r => ∀ (world : World) (resumed : Bool), ∃ outcome next,
            world.performByName resumed r = .ok (outcome, next) ∧
              world.perform resumed r = .ok (outcome, next))
          fun _ => True) ∧
      ∀ index clause target, program.clause? index = some clause →
        clause.opener?.map Keyword.block = some .if → program.link? index = some target →
          program.ChainEnds target := by
  have hlinked := Program.linked_of_parse hparse
  refine ⟨?_, ?_, ?_⟩
  · intro moves now
    obtain ⟨report, next, htick, -⟩ := ((sound_start hlinked library).after moves).tick now
    exact ⟨report, next, htick⟩
  · intro index statement hstatement
    refine (hlinked.execute_sound hstatement).mono fun r hfits world resumed => ?_
    obtain ⟨outcome, next, hperform⟩ := world.exists_perform resumed hfits
    exact ⟨outcome, next, (world.performByName_eq resumed hfits).trans hperform, hperform⟩
  · intro index clause target hclause hblock hlink
    have hbranch : (∃ condition, clause = .if condition) ∨
        (∃ condition, clause = .elseIf condition) ∨ clause = .else := by
      cases clause <;> simp [Clause.opener?, Keyword.block] at hblock ⊢
    obtain ⟨found, next, hfound, -, hnext, hcontinues⟩ :=
      hlinked.wellLinked.exists_next hclause hbranch
    obtain rfl := Option.some.inj (hfound.symm.trans hlink)
    exact hlinked.wellLinked.chainEnds hnext hcontinues

theorem tick_of_parse_chain : ∃ program,
    Program.parse "If TextWindow.Read() Then\nElseIf x Then\nElse\nEndIf\nx = Math.Pi" =
        .ok program ∧
      ∀ (moves : List Move) (now : Nat), ∃ report next,
        ((Machine.start program { arguments := ["a"], directory := "/" }).after moves).tick now =
          (.ok report, next) := by
  obtain ⟨program, hparse⟩ := Program.exists_of_isOk
    "If TextWindow.Read() Then\nElseIf x Then\nElse\nEndIf\nx = Math.Pi" (by decide +kernel)
  exact ⟨program, hparse, (tick_of_parse hparse _).1⟩

end Machine

end SmallBasic

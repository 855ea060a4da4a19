import SmallBasic.Proofs.Parsed
import SmallBasic.Evaluation

/-!
# The members that a program uses

Which fields a program reads, which methods it calls and which events it binds can be seen from its
text. Whatever its requests are answered, a statement uses no other members than its text does.

## Main definitions

* `Program.UsesOnly` — the text of a program uses only members that are allowed.
* `Request.usesOnly` — the same for a request.
* `Action.Asks` — the requests of an action, whatever they are answered.

## Main statements

* `Program.UsesOnly.asks_execute` — a statement uses only members that its program may use.
-/

namespace SmallBasic

/-! ## The text of a program -/

mutual

/-- The expression reads only fields, and calls only methods, that are allowed. -/
def Expr.usesOnly (allowed : Member → Bool) : Expr → Bool
  | .literal _ => true
  | .variable _ indices => Expr.useOnly allowed indices
  | .field f => allowed (.field f)
  | .binary _ left right => left.usesOnly allowed && right.usesOnly allowed
  | .call method args => allowed (.method method) && Expr.useOnly allowed args

/-- All of the expressions use only members that are allowed. -/
def Expr.useOnly (allowed : Member → Bool) : List Expr → Bool
  | [] => true
  | e :: es => e.usesOnly allowed && Expr.useOnly allowed es

end

/-- The indices of the place use only members that are allowed. A field that is written to is not
read. -/
def Place.usesOnly (allowed : Member → Bool) : Place → Bool
  | .variable _ indices => Expr.useOnly allowed indices
  | .field _ => true

/-- The clause uses only members that are allowed. -/
def Clause.usesOnly (allowed : Member → Bool) : Clause → Bool
  | .assign place value => place.usesOnly allowed && value.usesOnly allowed
  | .bind event _ => allowed (.event event)
  | .invoke method args => allowed (.method method) && Expr.useOnly allowed args
  | .if condition | .elseIf condition | .while condition => condition.usesOnly allowed
  | .for _ lower upper => lower.usesOnly allowed && upper.usesOnly allowed
  | .label _ | .goto _ | .callSub _ | .else | .endIf | .endWhile | .endFor | .sub _ | .endSub =>
    true

/-- All clauses of the program use only members that are allowed. -/
def Program.UsesOnly (program : Program) (allowed : Member → Bool) : Prop :=
  ∀ clause ∈ program.clauses, clause.usesOnly allowed = true

/-! ## Requests -/

/-- The request reads a field, calls a method or binds an event only if this is allowed. -/
def Request.usesOnly (allowed : Member → Bool) : Request → Bool
  | .readField f => allowed (.field f)
  | .bindEvent event _ => allowed (.event event)
  | .call method _ => allowed (.method method)
  | .readVariable _ | .writeVariable _ _ | .writeField _ _ => true

namespace Action

variable {α β : Type} {P Q : Request → Prop}

/-- Whatever it is answered, the action asks only for what `Q` allows. It may fail. -/
inductive Asks (Q : Request → Prop) : Action α → Prop
  | done {value : α} : Asks Q (.done value)
  | fail {fault : Fault} : Asks Q (.fail fault)
  | ask {r : Request} {next : String → Action α} (hrequest : Q r)
      (hnext : ∀ answer, Asks Q (next answer)) : Asks Q (.ask r next)

theorem Asks.mono {action : Action α} (hasks : action.Asks P) (hallows : ∀ r, P r → Q r) :
    action.Asks Q := by
  induction hasks with
  | done => exact .done
  | fail => exact .fail
  | ask hrequest _ ih => exact .ask (hallows _ hrequest) ih

theorem Asks.bind {action : Action α} {f : α → Action β} (haction : action.Asks Q)
    (hf : ∀ value, (f value).Asks Q) : (action >>= f).Asks Q := by
  induction haction with
  | done => exact hf _
  | fail => exact .fail
  | ask hrequest _ ih => exact .ask hrequest ih

/-- A request, and what is done with its answer. -/
theorem Asks.seq {r : Request} {f : String → Action β} (hrequest : Q r)
    (hf : ∀ answer, (f answer).Asks Q) : (Action.request r >>= f).Asks Q := .ask hrequest hf

theorem Asks.ite {c : Prop} [Decidable c] {yes no : Action α} (hyes : yes.Asks Q)
    (hno : no.Asks Q) : (if c then yes else no).Asks Q := by
  split
  · exact hyes
  · exact hno

end Action

/-! ## Statements -/

variable {allowed : Member → Bool}

mutual

theorem Expr.asks_eval : (e : Expr) → e.usesOnly allowed = true →
    e.eval.Asks (·.usesOnly allowed = true)
  | .literal _, _ => .done
  | .variable _ indices, huses => by
    rw [Expr.eval]
    exact (Expr.asks_evalAll indices huses).bind fun _ => .seq rfl fun _ => .done
  | .field f, huses => .ask huses fun _ => .done
  | .binary _ left right, huses => by
    rw [Expr.usesOnly, Bool.and_eq_true] at huses
    rw [Expr.eval]
    refine (Expr.asks_eval left huses.1).bind fun _ => ?_
    exact (Expr.asks_eval right huses.2).bind fun _ => .done
  | .call method args, huses => by
    rw [Expr.usesOnly, Bool.and_eq_true] at huses
    rw [Expr.eval]
    exact (Expr.asks_evalAll args huses.2).bind fun _ => .ask huses.1 fun _ => .done

theorem Expr.asks_evalAll : (es : List Expr) → Expr.useOnly allowed es = true →
    (Expr.evalAll es).Asks (·.usesOnly allowed = true)
  | [], _ => .done
  | e :: es, huses => by
    rw [Expr.useOnly, Bool.and_eq_true] at huses
    rw [Expr.evalAll]
    refine (Expr.asks_eval e huses.1).bind fun _ => ?_
    exact (Expr.asks_evalAll es huses.2).bind fun _ => .done

end

theorem Place.asks_store {place : Place} (huses : place.usesOnly allowed = true) (value : String) :
    (place.store value).Asks (·.usesOnly allowed = true) := by
  unfold Place.store
  split
  · exact .seq rfl fun _ => .done
  · refine (Expr.asks_evalAll _ huses).bind fun _ => ?_
    exact .seq rfl fun _ => .seq rfl fun _ => .done
  · exact .seq rfl fun _ => .done

namespace Program

variable {program : Program}

theorem UsesOnly.of_get? (huses : program.UsesOnly allowed) {index : Nat} {statement : Statement}
    (hstatement : program.get? index = some statement) :
    statement.clause.usesOnly allowed = true := by
  have hclause : program.clause? index = some statement.clause := by simp [clause?, hstatement]
  exact huses _ (List.mem_of_getElem? ((getElem?_clauses program index).trans hclause))

theorem UsesOnly.asks_selectBranch (huses : program.UsesOnly allowed) (limit index : Nat) :
    (program.selectBranch limit index).Asks (·.usesOnly allowed = true) := by
  induction limit generalizing index with
  | zero => exact .fail
  | succ limit ih =>
    unfold selectBranch
    split
    · exact .fail
    · rename_i statement hstatement
      have hclause := huses.of_get? hstatement
      split
      · rename_i condition hkind
        rw [hkind] at hclause
        exact (Expr.asks_eval condition hclause).bind fun _ => .ite .done (ih _)
      · exact .done
      · exact .done
      · exact .fail

theorem asks_skipBranches (program : Program) {Q : Request → Prop} (limit index : Nat) :
    (program.skipBranches limit index).Asks Q := by
  induction limit generalizing index with
  | zero => exact .fail
  | succ limit ih =>
    unfold skipBranches
    split
    · exact .fail
    · split
      · exact ih _
      · exact ih _
      · exact .done
      · exact .fail

theorem UsesOnly.asks_repeatFor (huses : program.UsesOnly allowed) (index start : Nat) :
    (program.repeatFor index start).Asks (·.usesOnly allowed = true) := by
  unfold repeatFor
  split
  · rename_i counter lower upper hfor
    obtain ⟨statement, hstatement, hkind⟩ := Option.map_eq_some_iff.1 hfor
    have hclause := huses.of_get? hstatement
    rw [hkind, Clause.usesOnly, Bool.and_eq_true] at hclause
    refine .seq rfl fun _ => .seq rfl fun _ => ?_
    exact (Expr.asks_eval upper hclause.2).bind fun _ => .ite .done .done
  · exact .fail

/-- A statement uses only members that its program may use. -/
theorem UsesOnly.asks_execute (huses : program.UsesOnly allowed) {index : Nat}
    {statement : Statement} (hstatement : program.get? index = some statement) :
    (program.execute index statement).Asks (·.usesOnly allowed = true) := by
  have hclause := huses.of_get? hstatement
  unfold execute
  cases hkind : statement.clause with
  | label | endIf | goto | callSub | sub | endSub | endWhile => exact .done
  | assign place value =>
    rw [hkind, Clause.usesOnly, Bool.and_eq_true] at hclause
    refine (Expr.asks_eval value hclause.2).bind fun text => ?_
    exact (Place.asks_store hclause.1 text).bind fun _ => .done
  | bind event handler =>
    rw [hkind] at hclause
    exact .seq hclause fun _ => .done
  | invoke method args =>
    rw [hkind, Clause.usesOnly, Bool.and_eq_true] at hclause
    refine (Expr.asks_evalAll args hclause.2).bind fun values => ?_
    exact .seq hclause.1 fun _ => .done
  | «if» condition =>
    rw [hkind] at hclause
    refine (Expr.asks_eval condition hclause).bind fun _ => .ite .done ?_
    exact (huses.asks_selectBranch _ _).bind fun _ => .done
  | elseIf | «else» => exact (asks_skipBranches program _ _).bind fun _ => .done
  | «while» condition =>
    rw [hkind] at hclause
    exact (Expr.asks_eval condition hclause).bind fun _ => .ite .done .done
  | «for» counter lower upper =>
    rw [hkind, Clause.usesOnly, Bool.and_eq_true] at hclause
    refine (Expr.asks_eval lower hclause.1).bind fun _ => ?_
    refine .seq rfl fun _ => ?_
    exact (Expr.asks_eval upper hclause.2).bind fun _ => .ite .done .done
  | endFor => exact huses.asks_repeatFor index _

end Program

end SmallBasic

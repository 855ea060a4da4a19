import SmallBasic.Proofs.Safety

/-!
# Direct evaluation

What expressions and statements do, told by recursion on the syntax and without actions, threads or
waits: which requests are made one after the other, from left to right, and what comes of their
answers. The action of a statement makes exactly these exchanges.

## Main definitions

* `Exchange` — a request and its answer.
* `Expr.Yields`, `Program.Selects`, `Program.Performs` — direct evaluation of expressions, `If`
  chains and statements.
* `Action.Reaches` — what is left of an action after some exchanges.

## Main statements

* `Expr.completes_eval_iff` — the action of an expression is its direct evaluation.
* `Program.Linked.completes_execute_iff` — the action of a statement is its direct evaluation.
* `Action.Completes.unique` — the answers determine the requests and the result.
-/

namespace SmallBasic

/-- A request and its answer. -/
abbrev Exchange := Request × String

/-! ## Expressions and statements -/

mutual

/-- Evaluating the expression makes these exchanges and gives this value. -/
inductive Expr.Yields : Expr → List Exchange → String → Prop
  | literal (text : String) : Expr.Yields (.literal text) [] text
  | variable {name : String} {indices : List Expr} {log : List Exchange} {keys : List String}
      (held : String) (hindices : Expr.YieldAll indices log keys) :
      Expr.Yields (.variable name indices) (log ++ [(.readVariable name, held)])
        (ArrayText.get held keys)
  | field (f : Field) (value : String) : Expr.Yields (.field f) [(.readField f, value)] value
  | binary {op : Operator} {left right : Expr} {before after : List Exchange} {a b : String}
      (hleft : Expr.Yields left before a) (hright : Expr.Yields right after b) :
      Expr.Yields (.binary op left right) (before ++ after) (op.apply a b)
  | call {method : Method} {args : List Expr} {log : List Exchange} {values : List String}
      (value : String) (hargs : Expr.YieldAll args log values) :
      Expr.Yields (.call method args) (log ++ [(.call method values, value)]) value

/-- Evaluating the expressions in order makes these exchanges and gives these values. -/
inductive Expr.YieldAll : List Expr → List Exchange → List String → Prop
  | nil : Expr.YieldAll [] [] []
  | cons {e : Expr} {es : List Expr} {before after : List Exchange} {value : String}
      {values : List String} (hhead : Expr.Yields e before value)
      (htail : Expr.YieldAll es after values) :
      Expr.YieldAll (e :: es) (before ++ after) (value :: values)

end

/-- Storing a value makes these exchanges. -/
inductive Place.Stores (value : String) : Place → List Exchange → Prop
  | variable (name answer : String) :
      Place.Stores value (.variable name []) [(.writeVariable name value, answer)]
  | element {name : String} {index : Expr} {indices : List Expr} {log : List Exchange}
      {keys : List String} (held answer : String)
      (hindices : Expr.YieldAll (index :: indices) log keys) :
      Place.Stores value (.variable name (index :: indices))
        (log ++ [(.readVariable name, held),
          (.writeVariable name (ArrayText.set held keys value), answer)])
  | field (f : Field) (answer : String) :
      Place.Stores value (.field f) [(.writeField f value, answer)]

namespace Program

/-- Looking for a branch from a statement of a chain on makes these exchanges and leads to this
index. -/
inductive Selects (program : Program) : Nat → List Exchange → Nat → Prop
  | hit {index : Nat} {statement : Statement} {condition : Expr} {log : List Exchange}
      {value : String} (hstatement : program.get? index = some statement)
      (hclause : statement.clause = .elseIf condition) (hcondition : condition.Yields log value)
      (htrue : isTrue value = true) : Selects program index log (index + 1)
  | miss {index landing : Nat} {statement : Statement} {condition : Expr}
      {log more : List Exchange} {value : String}
      (hstatement : program.get? index = some statement)
      (hclause : statement.clause = .elseIf condition) (hcondition : condition.Yields log value)
      (hfalse : isTrue value = false)
      (hrest : Selects program (program.target statement) more landing) :
      Selects program index (log ++ more) landing
  | last {index : Nat} {statement : Statement} (hstatement : program.get? index = some statement)
      (hclause : statement.clause = .else ∨ statement.clause = .endIf) :
      Selects program index [] (index + 1)

/-- Passing over the branches from a statement of a chain on leads to this index. -/
inductive Skips (program : Program) : Nat → Nat → Prop
  | next {index landing : Nat} {statement : Statement}
      (hstatement : program.get? index = some statement)
      (hclause : (∃ condition, statement.clause = .elseIf condition) ∨ statement.clause = .else)
      (hrest : Skips program (program.target statement) landing) : Skips program index landing
  | last {index : Nat} {statement : Statement} (hstatement : program.get? index = some statement)
      (hclause : statement.clause = .endIf) : Skips program index (index + 1)

/-- The statement makes these exchanges and sends its thread in this direction. -/
inductive Performs (program : Program) (statement : Statement) : List Exchange → Flow → Prop
  | pass (hclause : (∃ name, statement.clause = .label name) ∨ statement.clause = .endIf) :
      Performs program statement [] .next
  | assign {place : Place} {value : Expr} {log more : List Exchange} {text : String}
      (hclause : statement.clause = .assign place value) (hvalue : value.Yields log text)
      (hstore : place.Stores text more) : Performs program statement (log ++ more) .next
  | bind {event : Event} {handler : String} (answer : String)
      (hclause : statement.clause = .bind event handler) :
      Performs program statement [(.bindEvent event (program.target statement), answer)] .next
  | invoke {method : Method} {args : List Expr} {log : List Exchange} {values : List String}
      (answer : String) (hclause : statement.clause = .invoke method args)
      (hargs : Expr.YieldAll args log values) :
      Performs program statement (log ++ [(.call method values, answer)]) .next
  | goto {label : String} (hclause : statement.clause = .goto label) :
      Performs program statement [] (.jump (program.target statement))
  | callSub {name : String} (hclause : statement.clause = .callSub name) :
      Performs program statement [] (.enter (program.target statement))
  | sub {name : String} (hclause : statement.clause = .sub name) :
      Performs program statement [] (.jump (program.target statement + 1))
  | endSub (hclause : statement.clause = .endSub) : Performs program statement [] .leave
  | ifTrue {condition : Expr} {log : List Exchange} {value : String}
      (hclause : statement.clause = .if condition) (hcondition : condition.Yields log value)
      (htrue : isTrue value = true) : Performs program statement log .next
  | ifFalse {condition : Expr} {log more : List Exchange} {value : String} {landing : Nat}
      (hclause : statement.clause = .if condition) (hcondition : condition.Yields log value)
      (hfalse : isTrue value = false)
      (hselects : program.Selects (program.target statement) more landing) :
      Performs program statement (log ++ more) (.jump landing)
  | branch {landing : Nat}
      (hclause : (∃ condition, statement.clause = .elseIf condition) ∨ statement.clause = .else)
      (hskips : program.Skips (program.target statement) landing) :
      Performs program statement [] (.jump landing)
  | whileTrue {condition : Expr} {log : List Exchange} {value : String}
      (hclause : statement.clause = .while condition) (hcondition : condition.Yields log value)
      (htrue : isTrue value = true) : Performs program statement log .next
  | whileFalse {condition : Expr} {log : List Exchange} {value : String}
      (hclause : statement.clause = .while condition) (hcondition : condition.Yields log value)
      (hfalse : isTrue value = false) :
      Performs program statement log (.jump (program.target statement + 1))
  | endWhile (hclause : statement.clause = .endWhile) :
      Performs program statement [] (.jump (program.target statement))
  | for {counter : String} {lower upper : Expr} {before after : List Exchange}
      {first last : String} (answer : String)
      (hclause : statement.clause = .for counter lower upper)
      (hlower : lower.Yields before first) (hupper : upper.Yields after last) :
      Performs program statement (before ++ ((.writeVariable counter first, answer) :: after))
        (if (Number.ofText last).lt (Number.ofText first) then .jump (program.target statement + 1)
          else .next)
  | endFor {opener : Statement} {counter : String} {lower upper : Expr} {after : List Exchange}
      {bound : String} (held answer : String) (hclause : statement.clause = .endFor)
      (hopener : program.get? (program.target statement) = some opener)
      (hfor : opener.clause = .for counter lower upper) (hupper : upper.Yields after bound) :
      Performs program statement
        ((.readVariable counter, held) ::
          (.writeVariable counter (Operator.addition held "1"), answer) :: after)
        (if (Number.ofText (Operator.addition held "1")).le (Number.ofText bound) then
          .jump (program.target statement + 1) else .next)

end Program

/-! ## Actions -/

namespace Action

variable {α β : Type}

/-- The action goes on as `rest` once these exchanges have been made. -/
inductive Reaches : Action α → List Exchange → Action α → Prop
  | refl (action : Action α) : Reaches action [] action
  | ask {request : Request} {next : String → Action α} {answer : String} {log : List Exchange}
      {rest : Action α} (hnext : Reaches (next answer) log rest) :
      Reaches (.ask request next) ((request, answer) :: log) rest

/-- The action makes these exchanges and ends with this value. -/
def Completes (action : Action α) (log : List Exchange) (value : α) : Prop :=
  action.Reaches log (.done value)

variable {action middle rest : Action α} {log more : List Exchange} {value : α}

theorem Reaches.trans (hfirst : action.Reaches log middle) (hsecond : middle.Reaches more rest) :
    action.Reaches (log ++ more) rest := by
  induction hfirst with
  | refl => exact hsecond
  | ask _ ih => exact .ask (ih hsecond)

theorem completes_pure_iff {result : α} :
    (pure value : Action α).Completes log result ↔ log = [] ∧ result = value := by
  constructor
  · rintro ⟨⟩
    exact ⟨rfl, rfl⟩
  · rintro ⟨rfl, rfl⟩
    exact .refl _

theorem completes_ask_iff {request : Request} {next : String → Action α} :
    (Action.ask request next).Completes log value ↔
      ∃ answer more, (next answer).Completes more value ∧ log = (request, answer) :: more := by
  constructor
  · rintro ⟨⟩
    rename_i answer more hnext
    exact ⟨answer, more, hnext, rfl⟩
  · rintro ⟨answer, more, hnext, rfl⟩
    exact .ask hnext

theorem completes_request_iff {r : Request} {answer : String} :
    (Action.request r).Completes log answer ↔ log = [(r, answer)] := by
  rw [Action.request, completes_ask_iff]
  constructor
  · rintro ⟨given, more, ⟨⟩, rfl⟩
    rfl
  · rintro rfl
    exact ⟨answer, [], .refl _, rfl⟩

theorem not_completes_fail {fault : Fault} :
    ¬(Action.fail fault : Action α).Completes log value := by
  rintro ⟨⟩

theorem completes_bind_iff {f : α → Action β} {result : β} :
    (action >>= f).Completes log result ↔
      ∃ before value after, action.Completes before value ∧ (f value).Completes after result ∧
        log = before ++ after := by
  constructor
  · intro hcompletes
    induction action generalizing log with
    | done value => exact ⟨[], value, log, .refl _, hcompletes, rfl⟩
    | fail fault => exact absurd hcompletes not_completes_fail
    | ask request next ih =>
      obtain ⟨answer, more, hnext, rfl⟩ := completes_ask_iff.1 hcompletes
      obtain ⟨before, value, after, hvalue, hresult, rfl⟩ := ih answer hnext
      exact ⟨(request, answer) :: before, value, after, .ask hvalue, hresult, rfl⟩
  · rintro ⟨before, value, after, hvalue, hresult, rfl⟩
    unfold Completes at hvalue
    generalize hlast : Action.done value = last at hvalue
    induction hvalue with
    | refl => exact hlast ▸ hresult
    | ask _ ih => exact .ask (ih hlast)

theorem completes_ite_pure_iff {c : Prop} [Decidable c] {yes no result : α} :
    (if c then pure yes else pure no : Action α).Completes log result ↔
      log = [] ∧ result = if c then yes else no := by
  split <;> exact completes_pure_iff

/-- The answers determine the requests and the result. -/
theorem Completes.unique {other : List Exchange} {result : α} (hvalue : action.Completes log value)
    (hother : action.Completes other result)
    (hanswers : other.map Prod.snd = log.map Prod.snd) : other = log ∧ result = value := by
  induction action generalizing log other with
  | done given =>
    obtain ⟨rfl, rfl⟩ := completes_pure_iff.1 hvalue
    exact completes_pure_iff.1 hother
  | fail fault => exact absurd hvalue not_completes_fail
  | ask request next ih =>
    obtain ⟨answer, log, hnext, rfl⟩ := completes_ask_iff.1 hvalue
    obtain ⟨again, other, hagain, rfl⟩ := completes_ask_iff.1 hother
    obtain ⟨rfl, htail⟩ := List.cons.inj hanswers
    obtain ⟨rfl, rfl⟩ := ih _ hnext hagain htail
    exact ⟨rfl, rfl⟩

/-- A sound action can always be brought to its end. -/
theorem Sound.exists_completes (hsound : action.Sound) :
    ∃ log value, action.Completes log value := by
  induction hsound with
  | done => exact ⟨[], _, .refl _⟩
  | ask _ _ ih =>
    obtain ⟨log, value, hvalue⟩ := ih ""
    exact ⟨_, value, .ask hvalue⟩

/-- What an action ensures is ensured by what is left of it. -/
theorem Ensures.of_reaches {Q : Request → Prop} {P : α → Prop} (hensures : action.Ensures Q P)
    (hreaches : action.Reaches log rest) : rest.Ensures Q P := by
  induction hreaches with
  | refl => exact hensures
  | ask _ ih =>
    cases hensures with
    | ask _ hnext => exact ih (hnext _)

end Action

open SmallBasic.Action

mutual

/-- The action of an expression is its direct evaluation. -/
theorem Expr.completes_eval_iff : (e : Expr) → {log : List Exchange} → {value : String} →
    (e.eval.Completes log value ↔ e.Yields log value)
  | .literal text, log, value => by
    rw [Expr.eval, completes_pure_iff]
    constructor
    · rintro ⟨rfl, rfl⟩
      exact .literal _
    · rintro ⟨⟩
      exact ⟨rfl, rfl⟩
  | .variable name indices, log, value => by
    rw [Expr.eval]
    simp only [completes_bind_iff, completes_request_iff, completes_pure_iff,
      Expr.completes_evalAll_iff indices]
    constructor
    · rintro ⟨before, keys, after, hindices, ⟨_, held, _, rfl, ⟨rfl, rfl⟩, rfl⟩, rfl⟩
      exact .variable held hindices
    · intro hyields
      cases hyields with
      | «variable» held hindices =>
        exact ⟨_, _, _, hindices, ⟨_, held, _, rfl, ⟨rfl, rfl⟩, rfl⟩, rfl⟩
  | .field f, log, value => by
    rw [Expr.eval, completes_request_iff]
    constructor
    · rintro rfl
      exact .field f value
    · rintro ⟨⟩
      rfl
  | .binary op left right, log, value => by
    rw [Expr.eval]
    simp only [completes_bind_iff, completes_pure_iff, Expr.completes_eval_iff left,
      Expr.completes_eval_iff right]
    constructor
    · rintro ⟨before, a, _, hleft, ⟨after, b, _, hright, ⟨rfl, rfl⟩, rfl⟩, rfl⟩
      rw [List.append_nil]
      exact .binary hleft hright
    · intro hyields
      cases hyields with
      | binary hleft hright =>
        exact ⟨_, _, _, hleft, ⟨_, _, _, hright, ⟨rfl, rfl⟩, (List.append_nil _).symm⟩, rfl⟩
  | .call method args, log, value => by
    rw [Expr.eval]
    simp only [completes_bind_iff, completes_request_iff, Expr.completes_evalAll_iff args]
    constructor
    · rintro ⟨before, values, _, hargs, rfl, rfl⟩
      exact .call value hargs
    · intro hyields
      cases hyields with
      | call _ hargs => exact ⟨_, _, _, hargs, rfl, rfl⟩

theorem Expr.completes_evalAll_iff : (es : List Expr) → {log : List Exchange} →
    {values : List String} → ((Expr.evalAll es).Completes log values ↔ Expr.YieldAll es log values)
  | [], log, values => by
    rw [Expr.evalAll, completes_pure_iff]
    constructor
    · rintro ⟨rfl, rfl⟩
      exact .nil
    · rintro ⟨⟩
      exact ⟨rfl, rfl⟩
  | e :: es, log, values => by
    rw [Expr.evalAll]
    simp only [completes_bind_iff, completes_pure_iff, Expr.completes_eval_iff e,
      Expr.completes_evalAll_iff es]
    constructor
    · rintro ⟨before, value, _, hhead, ⟨after, rest, _, htail, ⟨rfl, rfl⟩, rfl⟩, rfl⟩
      rw [List.append_nil]
      exact .cons hhead htail
    · intro hyields
      cases hyields with
      | cons hhead htail =>
        exact ⟨_, _, _, hhead, ⟨_, _, _, htail, ⟨rfl, rfl⟩, (List.append_nil _).symm⟩, rfl⟩

end

theorem Place.completes_store_iff (place : Place) {value : String} {log : List Exchange} :
    (place.store value).Completes log () ↔ place.Stores value log := by
  unfold Place.store
  split
  · rename_i name
    simp only [completes_bind_iff, completes_request_iff, completes_pure_iff]
    constructor
    · rintro ⟨_, answer, _, rfl, ⟨rfl, -⟩, rfl⟩
      exact .variable name answer
    · intro hstores
      cases hstores with
      | «variable» _ answer => exact ⟨_, answer, _, rfl, ⟨rfl, trivial⟩, rfl⟩
  · rename_i name indices hindices
    simp only [completes_bind_iff, completes_request_iff, completes_pure_iff,
      Expr.completes_evalAll_iff]
    constructor
    · rintro ⟨before, keys, _, hkeys,
        ⟨_, held, _, rfl, ⟨_, answer, _, rfl, ⟨rfl, -⟩, rfl⟩, rfl⟩, rfl⟩
      cases indices with
      | nil => exact (hindices rfl).elim
      | cons index indices => exact .element held answer hkeys
    · intro hstores
      cases hstores with
      | «variable» => exact (hindices rfl).elim
      | element held answer hkeys =>
        exact ⟨_, _, _, hkeys,
          ⟨_, held, _, rfl, ⟨_, answer, _, rfl, ⟨rfl, trivial⟩, rfl⟩, rfl⟩, rfl⟩
  · rename_i f
    simp only [completes_bind_iff, completes_request_iff, completes_pure_iff]
    constructor
    · rintro ⟨_, answer, _, rfl, ⟨rfl, -⟩, rfl⟩
      exact .field f answer
    · intro hstores
      cases hstores with
      | field _ answer => exact ⟨_, answer, _, rfl, ⟨rfl, trivial⟩, rfl⟩

namespace Program

variable {program : Program} {index : Nat} {log : List Exchange}

/-- Walking along a chain with enough steps is looking for a branch directly. -/
theorem Linked.completes_selectBranch_iff (hlinked : program.Linked) {limit : Nat} {clause : Clause}
    (hclause : program.clause? index = some clause) (hcontinues : clause.continuesIf = true)
    (hlimit : program.size ≤ index + limit) {landing : Nat} :
    (program.selectBranch limit index).Completes log landing ↔
      program.Selects index log landing := by
  induction limit generalizing index clause log landing with
  | zero =>
    have hlt := lt_size_of_clause? hclause
    omega
  | succ limit ih =>
    obtain ⟨statement, hstatement, rfl⟩ := Option.map_eq_some_iff.1 hclause
    simp only [selectBranch, hstatement]
    cases hkind : statement.clause with
    | elseIf condition =>
      rw [hkind] at hclause
      obtain ⟨target, next, hlink, hforward, hnext, hmore⟩ :=
        hlinked.wellLinked.exists_next hclause (.inr (.inl ⟨condition, rfl⟩))
      have htarget := target_eq hstatement hlink
      simp only [completes_bind_iff, Expr.completes_eval_iff, htarget]
      constructor
      · rintro ⟨before, value, after, hcondition, hrest, rfl⟩
        split at hrest
        · rename_i htrue
          obtain ⟨rfl, rfl⟩ := completes_pure_iff.1 hrest
          rw [List.append_nil]
          exact .hit hstatement hkind hcondition htrue
        · rename_i hfalse
          have hselects := (ih hnext hmore (by omega)).1 hrest
          exact .miss hstatement hkind hcondition (by simpa using hfalse) (htarget ▸ hselects)
      · intro hselects
        cases hselects with
        | hit hother hotherKind hcondition htrue =>
          obtain rfl := Option.some.inj (hstatement.symm.trans hother)
          obtain rfl := Clause.elseIf.inj (hkind.symm.trans hotherKind)
          refine ⟨_, _, [], hcondition, ?_, (List.append_nil _).symm⟩
          rw [if_pos htrue]
          exact .refl _
        | miss hother hotherKind hcondition hfalse hrest =>
          obtain rfl := Option.some.inj (hstatement.symm.trans hother)
          obtain rfl := Clause.elseIf.inj (hkind.symm.trans hotherKind)
          refine ⟨_, _, _, hcondition, ?_, rfl⟩
          rw [if_neg (by simp [hfalse])]
          exact (ih hnext hmore (by omega)).2 (htarget ▸ hrest)
        | last hother hotherKind =>
          obtain rfl := Option.some.inj (hstatement.symm.trans hother)
          simp [hkind] at hotherKind
    | «else» | endIf =>
      rw [completes_pure_iff]
      constructor
      · rintro ⟨rfl, rfl⟩
        exact .last hstatement (by simp [hkind])
      · intro hselects
        cases hselects with
        | hit hother hotherKind | miss hother hotherKind =>
          obtain rfl := Option.some.inj (hstatement.symm.trans hother)
          simp [hkind] at hotherKind
        | last => exact ⟨rfl, rfl⟩
    | _ => simp [hkind, Clause.continuesIf] at hcontinues

/-- Walking to the end of a chain with enough steps is passing over its branches directly. -/
theorem Linked.completes_skipBranches_iff (hlinked : program.Linked) {limit : Nat} {clause : Clause}
    (hclause : program.clause? index = some clause) (hcontinues : clause.continuesIf = true)
    (hlimit : program.size ≤ index + limit) {landing : Nat} :
    (program.skipBranches limit index).Completes log landing ↔
      log = [] ∧ program.Skips index landing := by
  induction limit generalizing index clause with
  | zero =>
    have hlt := lt_size_of_clause? hclause
    omega
  | succ limit ih =>
    obtain ⟨statement, hstatement, rfl⟩ := Option.map_eq_some_iff.1 hclause
    -- A branch and the end of the chain are told apart by what they say.
    have hnext : (∃ condition, statement.clause = .elseIf condition) ∨ statement.clause = .else →
        ((program.skipBranches limit (program.target statement)).Completes log landing ↔
          log = [] ∧ program.Skips index landing) := by
      intro hbranch
      obtain ⟨target, next, hlink, hforward, hnext, hmore⟩ :=
        hlinked.wellLinked.exists_next hclause (.inr hbranch)
      rw [target_eq hstatement hlink, ih hnext hmore (by omega)]
      refine and_congr_right fun _ => ⟨?_, ?_⟩
      · intro hskips
        exact .next hstatement hbranch (target_eq hstatement hlink ▸ hskips)
      · intro hskips
        cases hskips with
        | next hother _ hrest =>
          obtain rfl := Option.some.inj (hstatement.symm.trans hother)
          exact target_eq hstatement hlink ▸ hrest
        | last hother hend =>
          obtain rfl := Option.some.inj (hstatement.symm.trans hother)
          simp [hend] at hbranch
    simp only [skipBranches, hstatement]
    cases hkind : statement.clause with
    | elseIf condition => exact hnext (.inl ⟨condition, hkind⟩)
    | «else» => exact hnext (.inr hkind)
    | endIf =>
      rw [completes_pure_iff]
      refine and_congr_right fun _ => ⟨?_, ?_⟩
      · rintro rfl
        exact .last hstatement hkind
      · intro hskips
        cases hskips with
        | next hother hbranch =>
          obtain rfl := Option.some.inj (hstatement.symm.trans hother)
          simp [hkind] at hbranch
        | last => rfl
    | _ => simp [hkind, Clause.continuesIf] at hcontinues

/-- The end of a pass through a counting loop, spelled out. -/
theorem completes_repeatFor_iff {start : Nat} {opener : Statement} {counter : String}
    {lower upper : Expr} (hopener : program.get? start = some opener)
    (hfor : opener.clause = .for counter lower upper) {flow : Flow} :
    (program.repeatFor index start).Completes log flow ↔
      ∃ held answer after bound, upper.Yields after bound ∧
        log = (.readVariable counter, held) ::
          (.writeVariable counter (Operator.addition held "1"), answer) :: after ∧
        flow = if (Number.ofText (Operator.addition held "1")).le (Number.ofText bound) then
          .jump (start + 1) else .next := by
  unfold repeatFor
  rw [hopener, Option.map_some, hfor]
  simp only [completes_bind_iff, completes_request_iff, completes_ite_pure_iff,
    Expr.completes_eval_iff]
  constructor
  · rintro ⟨_, held, _, rfl,
      ⟨_, answer, _, rfl, ⟨after, bound, _, hupper, ⟨rfl, hflow⟩, rfl⟩, rfl⟩, rfl⟩
    exact ⟨held, answer, after, bound, hupper, by simp, hflow⟩
  · rintro ⟨held, answer, after, bound, hupper, rfl, hflow⟩
    exact ⟨_, held, _, rfl, ⟨_, answer, _, rfl, ⟨after, bound, [], hupper, ⟨rfl, hflow⟩,
      (List.append_nil _).symm⟩, rfl⟩, rfl⟩

section Execute

variable {statement : Statement} {flow : Flow}

theorem Linked.exists_opener_of_endFor (hlinked : program.Linked)
    (hstatement : program.get? index = some statement) (hclause : statement.clause = .endFor) :
    ∃ opener counter lower upper, program.get? (program.target statement) = some opener ∧
      opener.clause = .for counter lower upper := by
  have hend : program.clause? index = some .endFor := by simp [clause?, hstatement, hclause]
  obtain ⟨start, hlink, -⟩ := hlinked.wellLinked.linked index .endFor hend rfl
  obtain ⟨⟨counter, lower, upper, hfor⟩, -⟩ :=
    (hlinked.wellLinked.for_iff start index).2 ⟨hend, hlink⟩
  obtain ⟨opener, hopener, hclause⟩ := Option.map_eq_some_iff.1 hfor
  exact ⟨opener, counter, lower, upper, target_eq hstatement hlink ▸ hopener, hclause⟩

/-- What comes after a branch is found along its chain. -/
theorem Linked.exists_chain (hlinked : program.Linked)
    (hstatement : program.get? index = some statement)
    (hbranch : (∃ condition, statement.clause = .if condition) ∨
      (∃ condition, statement.clause = .elseIf condition) ∨ statement.clause = .else) :
    ∃ next, program.clause? (program.target statement) = some next ∧ next.continuesIf = true ∧
      program.size ≤ program.target statement + program.walkLimit := by
  have hclause : program.clause? index = some statement.clause := by simp [clause?, hstatement]
  obtain ⟨target, next, hlink, -, hnext, hmore⟩ := hlinked.wellLinked.exists_next hclause hbranch
  rw [target_eq hstatement hlink]
  refine ⟨next, hnext, hmore, ?_⟩
  simp only [walkLimit]
  omega

theorem Linked.performs_of_completes (hlinked : program.Linked)
    (hstatement : program.get? index = some statement)
    (hcompletes : (program.execute index statement).Completes log flow) :
    program.Performs statement log flow := by
  unfold execute at hcompletes
  cases hkind : statement.clause with
  | label name =>
    simp only [hkind, completes_pure_iff] at hcompletes
    obtain ⟨rfl, rfl⟩ := hcompletes
    exact .pass (.inl ⟨name, hkind⟩)
  | endIf =>
    simp only [hkind, completes_pure_iff] at hcompletes
    obtain ⟨rfl, rfl⟩ := hcompletes
    exact .pass (.inr hkind)
  | goto label =>
    simp only [hkind, completes_pure_iff] at hcompletes
    obtain ⟨rfl, rfl⟩ := hcompletes
    exact .goto hkind
  | callSub name =>
    simp only [hkind, completes_pure_iff] at hcompletes
    obtain ⟨rfl, rfl⟩ := hcompletes
    exact .callSub hkind
  | sub name =>
    simp only [hkind, completes_pure_iff] at hcompletes
    obtain ⟨rfl, rfl⟩ := hcompletes
    exact .sub hkind
  | endSub =>
    simp only [hkind, completes_pure_iff] at hcompletes
    obtain ⟨rfl, rfl⟩ := hcompletes
    exact .endSub hkind
  | endWhile =>
    simp only [hkind, completes_pure_iff] at hcompletes
    obtain ⟨rfl, rfl⟩ := hcompletes
    exact .endWhile hkind
  | assign place value =>
    simp only [hkind, completes_bind_iff, completes_pure_iff, Expr.completes_eval_iff] at hcompletes
    obtain ⟨before, text, _, hvalue, ⟨after, _, _, hstore, ⟨rfl, rfl⟩, rfl⟩, rfl⟩ := hcompletes
    rw [List.append_nil]
    exact .assign hkind hvalue ((Place.completes_store_iff place).1 hstore)
  | bind event handler =>
    simp only [hkind, completes_bind_iff, completes_pure_iff, completes_request_iff] at hcompletes
    obtain ⟨_, answer, _, rfl, ⟨rfl, rfl⟩, rfl⟩ := hcompletes
    exact .bind answer hkind
  | invoke method args =>
    simp only [hkind, completes_bind_iff, completes_pure_iff, completes_request_iff,
      Expr.completes_evalAll_iff] at hcompletes
    obtain ⟨before, values, _, hargs, ⟨_, answer, _, rfl, ⟨rfl, rfl⟩, rfl⟩, rfl⟩ := hcompletes
    rw [List.append_nil]
    exact .invoke answer hkind hargs
  | «if» condition =>
    obtain ⟨next, hnext, hmore, hlimit⟩ := hlinked.exists_chain hstatement (.inl ⟨_, hkind⟩)
    simp only [hkind, completes_bind_iff, Expr.completes_eval_iff] at hcompletes
    obtain ⟨before, value, after, hcondition, hrest, rfl⟩ := hcompletes
    split at hrest
    · rename_i htrue
      obtain ⟨rfl, rfl⟩ := completes_pure_iff.1 hrest
      rw [List.append_nil]
      exact .ifTrue hkind hcondition htrue
    · rename_i hfalse
      simp only [completes_bind_iff, completes_pure_iff,
        hlinked.completes_selectBranch_iff hnext hmore hlimit] at hrest
      obtain ⟨more, landing, _, hselects, ⟨rfl, rfl⟩, rfl⟩ := hrest
      rw [List.append_nil]
      exact .ifFalse hkind hcondition (by simpa using hfalse) hselects
  | elseIf condition =>
    obtain ⟨next, hnext, hmore, hlimit⟩ := hlinked.exists_chain hstatement (.inr (.inl ⟨_, hkind⟩))
    simp only [hkind, completes_bind_iff, completes_pure_iff,
      hlinked.completes_skipBranches_iff hnext hmore hlimit] at hcompletes
    obtain ⟨_, landing, _, ⟨rfl, hskips⟩, ⟨rfl, rfl⟩, rfl⟩ := hcompletes
    exact .branch (.inl ⟨_, hkind⟩) hskips
  | «else» =>
    obtain ⟨next, hnext, hmore, hlimit⟩ := hlinked.exists_chain hstatement (.inr (.inr hkind))
    simp only [hkind, completes_bind_iff, completes_pure_iff,
      hlinked.completes_skipBranches_iff hnext hmore hlimit] at hcompletes
    obtain ⟨_, landing, _, ⟨rfl, hskips⟩, ⟨rfl, rfl⟩, rfl⟩ := hcompletes
    exact .branch (.inr hkind) hskips
  | «while» condition =>
    simp only [hkind, completes_bind_iff, completes_ite_pure_iff,
      Expr.completes_eval_iff] at hcompletes
    obtain ⟨before, value, _, hcondition, ⟨rfl, rfl⟩, rfl⟩ := hcompletes
    rw [List.append_nil]
    split
    · rename_i htrue
      exact .whileTrue hkind hcondition htrue
    · rename_i hfalse
      exact .whileFalse hkind hcondition (by simpa using hfalse)
  | «for» counter lower upper =>
    simp only [hkind, completes_bind_iff, completes_request_iff, completes_ite_pure_iff,
      Expr.completes_eval_iff] at hcompletes
    obtain ⟨before, first, _, hlower, ⟨_, answer, _, rfl, ⟨after, last, _, hupper, ⟨rfl, hflow⟩,
      rfl⟩, rfl⟩, rfl⟩ := hcompletes
    rw [hflow, List.append_nil]
    exact .for answer hkind hlower hupper
  | endFor =>
    obtain ⟨opener, counter, lower, upper, hopener, hfor⟩ :=
      hlinked.exists_opener_of_endFor hstatement hkind
    simp only [hkind, completes_repeatFor_iff hopener hfor] at hcompletes
    obtain ⟨held, answer, after, bound, hupper, rfl, hflow⟩ := hcompletes
    rw [hflow]
    exact .endFor held answer hkind hopener hfor hupper

theorem Linked.completes_of_performs (hlinked : program.Linked)
    (hstatement : program.get? index = some statement)
    (hperforms : program.Performs statement log flow) :
    (program.execute index statement).Completes log flow := by
  unfold execute
  cases hperforms with
  | pass hclause =>
    obtain ⟨name, hclause⟩ | hclause := hclause <;> simp only [hclause] <;> exact .refl _
  | goto hclause | callSub hclause | sub hclause | endSub hclause | endWhile hclause =>
    simp only [hclause]
    exact .refl _
  | assign hclause hvalue hstore =>
    simp only [hclause, completes_bind_iff, completes_pure_iff, Expr.completes_eval_iff]
    exact ⟨_, _, _, hvalue, ⟨_, (), [], (Place.completes_store_iff _).2 hstore, ⟨rfl, trivial⟩,
      (List.append_nil _).symm⟩, rfl⟩
  | bind answer hclause =>
    simp only [hclause, completes_bind_iff, completes_pure_iff, completes_request_iff]
    exact ⟨_, answer, [], rfl, ⟨rfl, trivial⟩, rfl⟩
  | invoke answer hclause hargs =>
    simp only [hclause, completes_bind_iff, completes_pure_iff, completes_request_iff,
      Expr.completes_evalAll_iff]
    exact ⟨_, _, _, hargs, ⟨_, answer, [], rfl, ⟨rfl, trivial⟩, rfl⟩, rfl⟩
  | ifTrue hclause hcondition htrue =>
    simp only [hclause, completes_bind_iff, Expr.completes_eval_iff]
    refine ⟨_, _, [], hcondition, ?_, (List.append_nil _).symm⟩
    rw [if_pos htrue]
    exact .refl _
  | ifFalse hclause hcondition hfalse hselects =>
    obtain ⟨next, hnext, hmore, hlimit⟩ := hlinked.exists_chain hstatement (.inl ⟨_, hclause⟩)
    simp only [hclause, completes_bind_iff, Expr.completes_eval_iff]
    refine ⟨_, _, _, hcondition, ?_, rfl⟩
    rw [if_neg (by simp [hfalse])]
    simp only [completes_bind_iff, completes_pure_iff,
      hlinked.completes_selectBranch_iff hnext hmore hlimit]
    exact ⟨_, _, [], hselects, ⟨rfl, rfl⟩, (List.append_nil _).symm⟩
  | branch hclause hskips =>
    obtain ⟨next, hnext, hmore, hlimit⟩ := hlinked.exists_chain hstatement (.inr hclause)
    have hskip := (hlinked.completes_skipBranches_iff hnext hmore hlimit).2 ⟨rfl, hskips⟩
    obtain ⟨condition, hclause⟩ | hclause := hclause <;>
    · simp only [hclause, completes_bind_iff, completes_pure_iff]
      exact ⟨_, _, [], hskip, ⟨rfl, rfl⟩, rfl⟩
  | whileTrue hclause hcondition htrue =>
    simp only [hclause, completes_bind_iff, completes_ite_pure_iff, Expr.completes_eval_iff]
    exact ⟨_, _, [], hcondition, ⟨rfl, (if_pos htrue).symm⟩, (List.append_nil _).symm⟩
  | whileFalse hclause hcondition hfalse =>
    simp only [hclause, completes_bind_iff, completes_ite_pure_iff, Expr.completes_eval_iff]
    exact ⟨_, _, [], hcondition, ⟨rfl, (if_neg (by simp [hfalse])).symm⟩, (List.append_nil _).symm⟩
  | «for» answer hclause hlower hupper =>
    simp only [hclause, completes_bind_iff, completes_request_iff, completes_ite_pure_iff,
      Expr.completes_eval_iff]
    exact ⟨_, _, _, hlower, ⟨_, answer, _, rfl, ⟨_, _, [], hupper, ⟨rfl, rfl⟩,
      (List.append_nil _).symm⟩, rfl⟩, rfl⟩
  | endFor held answer hclause hopener hfor hupper =>
    simp only [hclause, completes_repeatFor_iff hopener hfor]
    exact ⟨held, answer, _, _, hupper, rfl, rfl⟩

/-- The action of a statement is its direct evaluation. -/
theorem Linked.completes_execute_iff (hlinked : program.Linked)
    (hstatement : program.get? index = some statement) :
    (program.execute index statement).Completes log flow ↔ program.Performs statement log flow :=
  ⟨hlinked.performs_of_completes hstatement, hlinked.completes_of_performs hstatement⟩

end Execute

end Program

end SmallBasic

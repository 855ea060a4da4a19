import SmallBasic.Proofs.Direct
import SmallBasic.Proofs.Jumps

/-!
# Order of texts

Texts are ordered as numbers. No text is read as an undefined number, not even one that names an
infinity or spells a number that is too large, so each text has a place among the integers, and the
order of texts is the order of their places. In particular the two tests of a counting loop, which
are written in two statements, are the same comparison: the loop is entered if the lower bound is
less than or equal to the upper one, and goes on if the counter is.

## Main definitions

* `place` — the place of a text in the order.
* `Clause.Opens`, `Clause.Closes` — what a counting loop compares when it is entered, and at the end
  of a pass.

## Main statements

* `ordering_of_texts` — the order is a total preorder, and the tests of a counting loop agree.
-/

namespace SmallBasic

/-! ## Places -/

/-- The place of the number of a text among the integers. -/
def place (text : String) : Int := (Number.ofText text).rank?.getD 0

variable (a b c : String)

theorem rank?_ofText : (Number.ofText a).rank? = some (place a) := by
  obtain ⟨rank, hrank⟩ := Number.exists_rank?_ofText a
  rw [place, hrank, Option.getD_some]

theorem ofText_ne_undefined : Number.ofText a ≠ .undefined := by
  intro hundefined
  have hrank := rank?_ofText a
  rw [hundefined] at hrank
  cases hrank

theorem lt_ofText : (Number.ofText a).lt (Number.ofText b) = decide (place a < place b) := by
  simp only [Number.lt, Number.compareBy, rank?_ofText]

theorem le_ofText : (Number.ofText a).le (Number.ofText b) = decide (place a ≤ place b) := by
  simp only [Number.le, Number.compareBy, rank?_ofText]

theorem isTrue_truthText (holds : Bool) : isTrue (truthText holds) = holds := by
  cases holds <;> decide +kernel

theorem isTrue_lessEqual :
    isTrue (Operator.lessEqual.apply a b) = decide (place a ≤ place b) := by
  rw [Operator.apply, isTrue_truthText, le_ofText]

theorem less_eq_not_greaterEqual :
    Operator.less.apply a b = truthText (!isTrue (Operator.greaterEqual.apply a b)) := by
  simp only [Operator.apply, isTrue_truthText, lt_ofText, le_ofText, ← Int.not_le, decide_not]

theorem greater_eq_not_lessEqual :
    Operator.greater.apply a b = truthText (!isTrue (Operator.lessEqual.apply a b)) :=
  less_eq_not_greaterEqual b a

theorem lessEqual_total : isTrue (Operator.lessEqual.apply a b) = true ∨
    isTrue (Operator.lessEqual.apply b a) = true := by
  simp only [isTrue_lessEqual, decide_eq_true_eq]
  exact Int.le_total _ _

variable {a b c} in
theorem lessEqual_trans (hab : isTrue (Operator.lessEqual.apply a b) = true)
    (hbc : isTrue (Operator.lessEqual.apply b c) = true) :
    isTrue (Operator.lessEqual.apply a c) = true := by
  simp only [isTrue_lessEqual, decide_eq_true_eq] at hab hbc ⊢
  exact Int.le_trans hab hbc

/-! ## Counting loops -/

/-- The header of a counting loop is executed in these exchanges, and `first` is compared with
`bound`. -/
inductive Clause.Opens (first bound : String) : Clause → List Exchange → Prop
  | for {counter : String} {lower upper : Expr} {before after : List Exchange} (answer : String)
      (hlower : lower.Yields before first) (hupper : upper.Yields after bound) :
      Clause.Opens first bound (.for counter lower upper)
        (before ++ (.writeVariable counter first, answer) :: after)

/-- A pass through the loop of this header is ended in these exchanges, and `value`, to which the
counter goes up, is compared with `bound`. -/
inductive Clause.Closes (value bound : String) : Clause → List Exchange → Prop
  | for {counter held : String} {lower upper : Expr} {after : List Exchange} (answer : String)
      (hvalue : Operator.addition held "1" = value) (hupper : upper.Yields after bound) :
      Clause.Closes value bound (.for counter lower upper)
        ((.readVariable counter, held) :: (.writeVariable counter value, answer) :: after)

open SmallBasic.Action

namespace Program

variable {program : Program} {index : Nat} {statement header : Statement}
  {first value bound : String} {log : List Exchange} {flow : Flow}

/-- A counting loop is passed over exactly if its lower bound is greater than the upper one. -/
theorem completes_iff_of_opens (hopens : statement.clause.Opens first bound log) :
    (program.execute index statement).Completes log flow ↔
      flow = if isTrue (Operator.greater.apply first bound) then
        .jump (program.target statement + 1) else .next := by
  have hdone : (program.execute index statement).Completes log
      (if isTrue (Operator.greater.apply first bound) then
        .jump (program.target statement + 1) else .next) := by
    generalize hclause : statement.clause = clause at hopens
    cases hopens with
    | «for» answer hlower hupper =>
      simp only [execute, hclause, completes_bind_iff, completes_request_iff,
        completes_ite_pure_iff, Expr.completes_eval_iff]
      refine ⟨_, _, _, hlower, ⟨_, answer, _, rfl, ⟨_, _, [], hupper, ⟨rfl, ?_⟩,
        (List.append_nil _).symm⟩, rfl⟩, rfl⟩
      rw [Operator.apply, isTrue_truthText]
  exact ⟨fun hcompletes => (hdone.unique hcompletes rfl).2, fun hflow => hflow ▸ hdone⟩

/-- A counting loop goes on exactly if its counter is less than or equal to the upper bound. -/
theorem completes_iff_of_closes (hclause : statement.clause = .endFor)
    (hheader : program.get? (program.target statement) = some header)
    (hcloses : header.clause.Closes value bound log) :
    (program.execute index statement).Completes log flow ↔
      flow = if isTrue (Operator.lessEqual.apply value bound) then
        .jump (program.target statement + 1) else .next := by
  have hdone : (program.execute index statement).Completes log
      (if isTrue (Operator.lessEqual.apply value bound) then
        .jump (program.target statement + 1) else .next) := by
    generalize hfor : header.clause = clause at hcloses
    cases hcloses with
    | @«for» _ held _ _ _ answer hvalue hupper =>
      simp only [execute, hclause, completes_repeatFor_iff hheader hfor]
      refine ⟨held, answer, _, _, hupper, by rw [hvalue], ?_⟩
      rw [hvalue, isTrue_lessEqual, le_ofText]
  exact ⟨fun hcompletes => (hdone.unique hcompletes rfl).2, fun hflow => hflow ▸ hdone⟩

end Program

/-- The order of texts is a total preorder. No text is read as an undefined number; `<` is not `>=`,
and `>` is not `<=`; two texts can be compared in one direction at least, `<=` is transitive, and
`<` is `>` the other way round. So the two tests of a counting loop are complements: the header
passes over the body on texts with `>`, and the end of a pass goes on with texts with `<=`. -/
theorem ordering_of_texts (a b : String) :
    Number.ofText a ≠ .undefined ∧
      Operator.less.apply a b = truthText (!isTrue (Operator.greaterEqual.apply a b)) ∧
      Operator.greater.apply a b = truthText (!isTrue (Operator.lessEqual.apply a b)) ∧
      (isTrue (Operator.lessEqual.apply a b) = true ∨
        isTrue (Operator.lessEqual.apply b a) = true) ∧
      (∀ c, isTrue (Operator.lessEqual.apply a b) = true →
        isTrue (Operator.lessEqual.apply b c) = true →
          isTrue (Operator.lessEqual.apply a c) = true) ∧
      Operator.less.apply a b = Operator.greater.apply b a ∧
      (∀ (program : Program) (index : Nat) (header : Statement) (log : List Exchange) (flow : Flow),
        header.clause.Opens a b log →
          ((program.execute index header).Completes log flow ↔
            flow = if isTrue (Operator.greater.apply a b) then
              .jump (program.target header + 1) else .next)) ∧
      ∀ (program : Program) (index : Nat) (header closer : Statement) (log : List Exchange)
        (flow : Flow), closer.clause = .endFor →
        program.get? (program.target closer) = some header → header.clause.Closes a b log →
          ((program.execute index closer).Completes log flow ↔
            flow = if isTrue (Operator.lessEqual.apply a b) then
              .jump (program.target closer + 1) else .next) := by
  refine ⟨ofText_ne_undefined a, less_eq_not_greaterEqual a b, greater_eq_not_lessEqual a b,
    lessEqual_total a b, fun c hab hbc => lessEqual_trans hab hbc, rfl, ?_, ?_⟩
  · intro program index header log flow hopens
    exact Program.completes_iff_of_opens hopens
  · intro program index header closer log flow hclause hheader hcloses
    exact Program.completes_iff_of_closes hclause hheader hcloses

/-- The clause opens a loop with these bounds, which are written out. -/
def loopsFrom (counter first bound : String) : Option Clause → Bool
  | some (.for name (.literal lower) (.literal upper)) =>
    name == counter && lower == first && upper == bound
  | _ => false

theorem eq_of_loopsFrom {counter first bound : String} {clause? : Option Clause}
    (hloops : loopsFrom counter first bound clause? = true) :
    clause? = some (.for counter (.literal first) (.literal bound)) := by
  unfold loopsFrom at hloops
  split at hloops
  · simp only [Bool.and_eq_true, beq_iff_eq] at hloops
    obtain ⟨⟨rfl, rfl⟩, rfl⟩ := hloops
    rfl
  · cases hloops

/-- The names of an infinity and of an undefined number are in the place of zero, so that a loop
from one to the other is entered. -/
theorem ordering_of_texts_names : ∃ program header,
    Program.parse "For i = \"inf\" To \"NaN\"\nEndFor" = .ok program ∧
      program.get? 0 = some header ∧
      header.clause.Opens "inf" "NaN" [(.writeVariable "i" "inf", "")] ∧
      (program.execute 0 header).Completes [(.writeVariable "i" "inf", "")] .next := by
  obtain ⟨program, hparse, hcheck⟩ := Program.exists_of_any "For i = \"inf\" To \"NaN\"\nEndFor"
    (fun program => loopsFrom "i" "inf" "NaN" (program.clause? 0)) (by decide +kernel)
  obtain ⟨header, hheader, hclause⟩ := Option.map_eq_some_iff.1 (eq_of_loopsFrom hcheck)
  have hopens : header.clause.Opens "inf" "NaN" [(.writeVariable "i" "inf", "")] := by
    rw [hclause]
    exact .for "" (.literal _) (.literal _)
  obtain ⟨-, -, -, -, -, -, hentry, -⟩ := ordering_of_texts "inf" "NaN"
  refine ⟨program, header, hparse, hheader, hopens, ?_⟩
  rw [hentry program 0 header _ _ hopens, if_neg (by decide +kernel)]

end SmallBasic

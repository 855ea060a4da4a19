import Mathlib.Data.List.Basic
import SmallBasic.Expr.Basic

/-!
# The grammar of operators

Grouping goes through the operators from the tightest to the loosest one, and through each of them
from left to right. The tree that comes out is that of a grammar with one level per operator, in
which every operator leans to the left: the loosest operator of a chain stands at the root, and
where it occurs more than once, the last occurrence does. What is before it is the left subtree, and
what is after it is the right one.

The same tree comes out if operands and operators are kept in two rows that are reduced in place, an
operator with the operands beside it at a time; every index that this takes is in range.

## Main definitions

* `Chain.join` — two chains with an operator between them.
* `Operator.IsLoosest` — the last one in precedence among some operators.
* `Expr.InOrder` — a tree read from left to right is a chain.
* `Chain.Parts.fold?` — the tree of a chain, by reduction in place.

## Main statements

* `Chain.fold_join` — the last loosest operator is the root.
* `Chain.exists_join` — every chain with an operator has a last loosest one.
* `Chain.inOrder_fold` — folding keeps all operands and operators, in order.
* `Chain.Parts.fold?_parts` — reduction in place never runs out of range, and gives the same tree.
* `Chain.fold_grammar` — all of this, for a list of operands and a list of operators.
-/

namespace SmallBasic

/-- Among some operators, the one that comes last in precedence. -/
structure Operator.IsLoosest (op : Operator) (ops : List Operator) : Prop where
  mem : op ∈ ops
  le : ∀ other ∈ ops, precedence.idxOf other ≤ precedence.idxOf op

namespace Operator

theorem mem_precedence (op : Operator) : op ∈ precedence := by cases op <;> decide

theorem exists_isLoosest {ops : List Operator} (hops : ops ≠ []) : ∃ op, IsLoosest op ops := by
  induction ops with
  | nil => exact absurd rfl hops
  | cons first ops ih =>
    rcases eq_or_ne ops [] with rfl | hmore
    · exact ⟨first, by simp, by simp⟩
    · obtain ⟨op, hmem, hle⟩ := ih hmore
      rcases Nat.le_total (precedence.idxOf first) (precedence.idxOf op) with hfirst | hfirst
      · exact ⟨op, by grind, by grind⟩
      · exact ⟨first, by grind, by grind⟩

end Operator

namespace Chain

variable {chain left right : Chain} {op : Operator} {ops : List Operator}

/-- The operands from left to right. -/
def operands (chain : Chain) : List Expr := chain.first :: chain.links.map Prod.snd

/-- The operators from left to right. -/
def operators (chain : Chain) : List Operator := chain.links.map Prod.fst

/-- Two chains with an operator between them. -/
def join (left : Chain) (op : Operator) (right : Chain) : Chain :=
  ⟨left.first, left.links ++ (op, right.first) :: right.links⟩

@[simp] theorem operands_join (left : Chain) (op : Operator) (right : Chain) :
    (left.join op right).operands = left.operands ++ right.operands := by
  simp [operands, join]

@[simp] theorem operators_join (left : Chain) (op : Operator) (right : Chain) :
    (left.join op right).operators = left.operators ++ op :: right.operators := by
  simp [operators, join]

theorem length_operators (chain : Chain) : chain.operators.length = chain.links.length := by
  simp [operators]

@[simp] theorem operators_eq_nil_iff : chain.operators = [] ↔ chain.links = [] := by
  simp [operators]

theorem operands_of_operators_nil (hchain : chain.operators = []) :
    chain.operands = [chain.first] := by
  simp [operands, operators_eq_nil_iff.1 hchain]

/-! ## One operator at a time -/

/-- Grouping removes an operator and leaves the others where they are. -/
theorem operators_group (chain : Chain) (op : Operator) :
    (chain.group op).operators = chain.operators.filter (· ≠ op) := by
  obtain ⟨first, links⟩ := chain
  simp only [group, operators]
  induction links generalizing first with
  | nil => rfl
  | cons link links ih =>
    obtain ⟨other, operand⟩ := link
    by_cases hother : other = op <;> simp [groupFrom, hother, ih]

/-- Grouping an operator does not reach across another one. -/
theorem group_join {other : Operator} (hother : op ≠ other) (left right : Chain) :
    (left.join op right).group other = (left.group other).join op (right.group other) := by
  obtain ⟨first, links⟩ := left
  simp only [group, join]
  induction links generalizing first with
  | nil => simp [groupFrom, hother]
  | cons link links ih =>
    obtain ⟨next, operand⟩ := link
    by_cases hnext : next = other <;> simp [groupFrom, hnext, ih]

/-- With no other operator on its left and none on its right, an operator joins what it groups on
its left with what stands on its right. -/
theorem group_join_self (hleft : ∀ other ∈ left.operators, other = op)
    (hright : right.links = []) :
    (left.join op right).group op = ⟨.binary op (left.group op).first right.first, []⟩ := by
  obtain ⟨first, links⟩ := left
  simp only [group, join, hright]
  induction links generalizing first with
  | nil => simp [groupFrom]
  | cons link links ih =>
    obtain ⟨other, operand⟩ := link
    obtain ⟨hother, hleft⟩ := List.forall_mem_cons.1 hleft
    obtain rfl : other = op := hother
    simpa [groupFrom] using ih (.binary other first operand) hleft

/-! ## One operator after the other -/

theorem foldl_group_of_links_nil (hchain : chain.links = []) (ops : List Operator) :
    ops.foldl group chain = chain := by
  induction ops with
  | nil => rfl
  | cons op ops ih =>
    obtain ⟨first, links⟩ := chain
    obtain rfl : links = [] := hchain
    exact ih

theorem fold_of_links_nil (hchain : chain.links = []) : chain.fold = chain.first := by
  rw [fold, foldl_group_of_links_nil hchain]

theorem operators_foldl_group (ops : List Operator) (chain : Chain) :
    (ops.foldl group chain).operators = chain.operators.filter (· ∉ ops) := by
  induction ops generalizing chain with
  | nil => simp
  | cons op ops ih =>
    rw [List.foldl_cons, ih, operators_group, List.filter_filter]
    exact List.filter_congr fun other _ => by grind

theorem foldl_group_join (hop : op ∉ ops) (left right : Chain) :
    ops.foldl group (left.join op right) =
      (ops.foldl group left).join op (ops.foldl group right) := by
  induction ops generalizing left right with
  | nil => rfl
  | cons other ops ih =>
    obtain ⟨hother, hop⟩ := List.ne_and_not_mem_of_not_mem_cons hop
    simp only [List.foldl_cons, group_join hother, ih hop]

/-- Once all tighter operators have been grouped, the first operand is final on both sides of a
loosest operator. -/
theorem foldl_group_first {before after : List Operator}
    (hchain : ∀ other ∈ chain.operators, other ∈ before ∨ other = op) :
    ((before ++ op :: after).foldl group chain).first =
      ((before.foldl group chain).group op).first := by
  have hnil : ((before.foldl group chain).group op).operators = [] := by
    rw [operators_group, operators_foldl_group, List.filter_filter, List.filter_eq_nil_iff]
    grind
  rw [List.foldl_append, List.foldl_cons,
    foldl_group_of_links_nil (operators_eq_nil_iff.1 hnil)]

/-- The last loosest operator of a chain is the root of its tree. -/
theorem fold_join (hloosest : op.IsLoosest (left.join op right).operators)
    (hlast : op ∉ right.operators) :
    (left.join op right).fold = .binary op left.fold right.fold := by
  -- All operators are at or before the level of `op`, and those on the right are before it.
  obtain ⟨before, after, hlevels, hop⟩ := List.eq_append_cons_of_mem op.mem_precedence
  have htighter : ∀ other ∈ (left.join op right).operators, other ∈ before ∨ other = op := by
    intro other hother
    have hle := hloosest.le other hother
    rw [hlevels] at hle
    grind
  have hleft : ∀ other ∈ left.operators, other ∈ before ∨ other = op :=
    fun other hother => htighter other (by simp [hother])
  have hright : ∀ other ∈ right.operators, other ∈ before := by
    intro other hother
    have hne : other ≠ op := fun hsame => hlast (hsame ▸ hother)
    exact (htighter other (by simp [hother])).resolve_right hne
  have hnil : (before.foldl group right).links = [] := by
    rw [← operators_eq_nil_iff, operators_foldl_group, List.filter_eq_nil_iff]
    simpa using hright
  have hsame : ∀ other ∈ (before.foldl group left).operators, other = op := by
    intro other hother
    rw [operators_foldl_group, List.mem_filter] at hother
    exact (hleft other hother.1).resolve_left (by simpa using hother.2)
  calc (left.join op right).fold
      = ((before.foldl group (left.join op right)).group op).first := by
        rw [fold, hlevels, foldl_group_first htighter]
    _ = .binary op ((before.foldl group left).group op).first (before.foldl group right).first := by
        rw [foldl_group_join hop, group_join_self hsame hnil]
    _ = .binary op left.fold right.fold := by
        rw [fold, hlevels, foldl_group_first hleft, fold, hlevels, List.foldl_append,
          foldl_group_of_links_nil hnil]

/-- A chain without operators is its only operand. -/
@[simp] theorem fold_first (e : Expr) : fold ⟨e, []⟩ = e := fold_of_links_nil rfl

/-- A single operator joins its operands, whatever its precedence. -/
@[simp] theorem fold_single (op : Operator) (left right : Expr) :
    fold ⟨left, [(op, right)]⟩ = .binary op left right := by
  have hloosest : op.IsLoosest (join ⟨left, []⟩ op ⟨right, []⟩).operators :=
    ⟨by simp, by simp [operators, join]⟩
  have hjoin := fold_join hloosest (by simp [operators])
  rwa [fold_first, fold_first] at hjoin

/-- Every chain with an operator has a last loosest one. -/
theorem exists_join (hchain : chain.links ≠ []) :
    ∃ (left : Chain) (op : Operator) (right : Chain), chain = left.join op right ∧
      op.IsLoosest chain.operators ∧ op ∉ right.operators := by
  obtain ⟨first, links⟩ := chain
  obtain ⟨op, hloosest⟩ := Operator.exists_isLoosest (mt operators_eq_nil_iff.1 hchain)
  obtain ⟨after, before, hops, hlast⟩ :=
    List.eq_append_cons_of_mem (List.mem_reverse.2 hloosest.mem)
  rw [operators, List.reverse_eq_append_iff, List.reverse_cons, List.append_assoc] at hops
  obtain ⟨lefts, rest, rfl, hlefts, hrest⟩ := List.map_eq_append_iff.1 hops
  obtain ⟨link, rights, rfl, hlink, hrights⟩ := List.map_eq_cons_iff.1 hrest
  obtain ⟨_, operand⟩ := link
  obtain rfl : _ = op := hlink
  refine ⟨⟨first, lefts⟩, _, ⟨operand, rights⟩, rfl, hloosest, ?_⟩
  rw [operators, hrights]
  simpa using hlast

end Chain

/-! ## Reading a tree in order -/

/-- Read from left to right, the tree has the operands and the operators of the chain: nothing is
lost, repeated or moved. An operand can be a tree of its own. -/
inductive Expr.InOrder : Expr → Chain → Prop
  | operand (e : Expr) : Expr.InOrder e ⟨e, []⟩
  | binary {l r : Expr} {left right : Chain} (op : Operator) (hleft : l.InOrder left)
      (hright : r.InOrder right) : Expr.InOrder (.binary op l r) (left.join op right)

namespace Chain

/-- Folding keeps all operands and operators, in order. -/
theorem inOrder_fold (chain : Chain) : chain.fold.InOrder chain := by
  induction hlength : chain.links.length using Nat.strongRecOn generalizing chain with
  | ind length ih =>
    by_cases hchain : chain.links = []
    · rw [fold_of_links_nil hchain]
      obtain ⟨first, links⟩ := chain
      obtain rfl : links = [] := hchain
      exact .operand first
    · obtain ⟨left, op, right, rfl, hloosest, hlast⟩ := exists_join hchain
      have hlinks : left.links.length + right.links.length < length := by
        simp only [join, List.length_append, List.length_cons] at hlength
        omega
      rw [fold_join hloosest hlast]
      exact .binary op (ih _ (by omega) left rfl) (ih _ (by omega) right rfl)

/-! ## Reduction in place -/

/-- The operands and the operators of a chain, in two rows. -/
structure Parts where
  operands : List Expr
  operators : List Operator

/-- The two rows of a chain. -/
def parts (chain : Chain) : Parts := ⟨chain.operands, chain.operators⟩

namespace Parts

/-- Replaces the operator at an index, and the operands beside it, by the operation. Nothing is
returned if an index is out of range. -/
def contract? (parts : Parts) (index : Nat) : Option Parts := do
  let op ← parts.operators[index]?
  let right ← parts.operands[index + 1]?
  let left ← parts.operands[index]?
  return ⟨(parts.operands.eraseIdx (index + 1)).set index (.binary op left right),
    parts.operators.eraseIdx index⟩

/-- Contracts the first occurrence of an operator while there is one, at most `count` times. -/
def contractAll? (op : Operator) : (count : Nat) → Parts → Option Parts
  | 0, parts => some parts
  | count + 1, parts =>
    match parts.operators.idxOf? op with
    | none => some parts
    | some index => do contractAll? op count (← parts.contract? index)

/-- Contracts all operators in order of precedence. The operand that is left is the tree. -/
def fold? (parts : Parts) : Option Expr := do
  let folded ← Operator.precedence.foldlM
    (fun parts op => contractAll? op parts.operators.length parts) parts
  folded.operands[0]?

/-- The rows with one more operand and one more operator in front. -/
def cons (parts : Parts) (operand : Expr) (op : Operator) : Parts :=
  ⟨operand :: parts.operands, op :: parts.operators⟩

theorem contract?_cons (parts : Parts) (operand : Expr) (op : Operator) (index : Nat) :
    (parts.cons operand op).contract? (index + 1) =
      (parts.contract? index).map (·.cons operand op) := by
  simp only [contract?, cons, List.getElem?_cons_succ]
  cases parts.operators[index]? <;> cases parts.operands[index + 1]? <;>
    cases parts.operands[index]? <;> rfl

/-- An operator that is not contracted stays in front. -/
theorem contractAll?_cons {op other : Operator} (hother : other ≠ op) (count : Nat) (parts : Parts)
    (operand : Expr) :
    contractAll? op count (parts.cons operand other) =
      (contractAll? op count parts).map (·.cons operand other) := by
  induction count generalizing parts with
  | zero => rfl
  | succ count ih =>
    have hfirst : (parts.cons operand other).operators.idxOf? op =
        (parts.operators.idxOf? op).map (· + 1) := by
      simp [cons, List.idxOf?_cons, hother]
    rw [contractAll?, contractAll?, hfirst]
    cases parts.operators.idxOf? op with
    | none => rfl
    | some index =>
      simp only [Option.map_some, contract?_cons]
      cases parts.contract? index with
      | none => rfl
      | some next => exact ih next

/-- Contracting an operator everywhere is grouping it. -/
theorem contractAll?_parts (op : Operator) (first : Expr) {links : List (Operator × Expr)}
    {count : Nat} (hcount : links.length ≤ count) :
    contractAll? op count (parts ⟨first, links⟩) = some (groupFrom op first links).parts := by
  induction links generalizing first count with
  | nil => cases count <;> rfl
  | cons link links ih =>
    obtain ⟨other, operand⟩ := link
    rw [List.length_cons] at hcount
    by_cases hother : other = op
    · obtain ⟨count, rfl⟩ : ∃ more, count = more + 1 := ⟨count - 1, by omega⟩
      subst hother
      have hcontract : contractAll? other (count + 1) (parts ⟨first, (other, operand) :: links⟩) =
          contractAll? other count (parts ⟨.binary other first operand, links⟩) := by
        simp [contractAll?, contract?, parts, Chain.operands, Chain.operators, List.idxOf?_cons]
      rw [hcontract, ih _ (by omega), groupFrom, if_pos rfl]
    · have hcons : parts ⟨first, (other, operand) :: links⟩ =
          (parts ⟨operand, links⟩).cons first other := rfl
      rw [hcons, contractAll?_cons hother, ih operand (by omega), groupFrom, if_neg hother]
      rfl

theorem foldlM_contractAll? (ops : List Operator) (chain : Chain) :
    ops.foldlM (fun parts op => contractAll? op parts.operators.length parts) chain.parts =
      some (ops.foldl group chain).parts := by
  induction ops generalizing chain with
  | nil => rfl
  | cons op ops ih =>
    have hop : contractAll? op chain.parts.operators.length chain.parts = _ :=
      contractAll?_parts op chain.first (Nat.le_of_eq chain.length_operators.symm)
    rw [List.foldlM_cons, hop]
    exact ih (chain.group op)

/-- No index is out of range, and the tree is that of the chain. -/
theorem fold?_parts (chain : Chain) : chain.parts.fold? = some chain.fold := by
  rw [fold?, foldlM_contractAll?]
  rfl

end Parts

/-- Two rows with one more operand than operators are those of a chain. -/
theorem exists_parts_eq {operands : List Expr} {operators : List Operator}
    (hlength : operands.length = operators.length + 1) :
    ∃ chain : Chain, chain.operands = operands ∧ chain.operators = operators := by
  cases operands with
  | nil => cases hlength
  | cons first operands =>
    rw [List.length_cons, Nat.add_right_cancel_iff] at hlength
    refine ⟨⟨first, operators.zip operands⟩, ?_, ?_⟩
    · rw [Chain.operands, List.map_snd_zip (Nat.le_of_eq hlength)]
    · rw [Chain.operators, List.map_fst_zip (Nat.le_of_eq hlength.symm)]

/-- The grammar of operators, for operands and operators of which there is one less. Reduced in
place they make a tree, and no index is out of range. Without operators the tree is the only
operand. Otherwise the root is the last occurrence of the operator that comes last in precedence,
and its subtrees are the trees of what stands before it and of what stands after it. Read from left
to right, the tree gives back the operands and the operators. -/
theorem fold_grammar {operands : List Expr} {operators : List Operator}
    (hlength : operands.length = operators.length + 1) :
    ∃ chain : Chain, chain.operands = operands ∧ chain.operators = operators ∧
      Parts.fold? ⟨operands, operators⟩ = some chain.fold ∧
      (operators = [] → operands = [chain.fold]) ∧
      (operators ≠ [] → ∃ (left : Chain) (op : Operator) (right : Chain),
        operands = left.operands ++ right.operands ∧
        operators = left.operators ++ op :: right.operators ∧
        op.IsLoosest operators ∧ op ∉ right.operators ∧
        chain.fold = .binary op left.fold right.fold) ∧
      chain.fold.InOrder chain := by
  obtain ⟨chain, rfl, rfl⟩ := exists_parts_eq hlength
  refine ⟨chain, rfl, rfl, Parts.fold?_parts chain, fun hnil => ?_, fun hops => ?_,
    chain.inOrder_fold⟩
  · rw [fold_of_links_nil (operators_eq_nil_iff.1 hnil), operands_of_operators_nil hnil]
  · obtain ⟨left, op, right, rfl, hloosest, hlast⟩ :=
      exists_join (mt operators_eq_nil_iff.2 hops)
    exact ⟨left, op, right, operands_join left op right, operators_join left op right, hloosest,
      hlast, fold_join hloosest hlast⟩

theorem fold_grammar_difference :
    ([.literal "1", .literal "2", .literal "3", .literal "4"] : List Expr).length =
        ([.sub, .mul, .sub] : List Operator).length + 1 ∧
      ∃ chain : Chain, chain.operators = [.sub, .mul, .sub] ∧ chain.fold.InOrder chain ∧
        chain.fold = .binary .sub
          (.binary .sub (.literal "1") (.binary .mul (.literal "2") (.literal "3")))
          (.literal "4") := by
  have hlength : ([.literal "1", .literal "2", .literal "3", .literal "4"] : List Expr).length =
      ([.sub, .mul, .sub] : List Operator).length + 1 := rfl
  obtain ⟨chain, -, hoperators, hfold, -, -, horder⟩ := fold_grammar hlength
  exact ⟨hlength, chain, hoperators, horder, (Option.some.inj hfold).symm⟩

end Chain

end SmallBasic

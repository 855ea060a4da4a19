import SmallBasic.Proofs.Outline
import SmallBasic.Proofs.Reading

/-!
# Nested clauses

Which sequences of clauses are the clauses of an outline. The words of the blocks that are open form
a stack: a clause that continues or closes a block has to belong to the innermost one. A sequence
that starts and ends with an empty stack has an outline.

## Main definitions

* `nest`, `nestAll` — the open blocks after a clause, and after a sequence of clauses.

## Main statements

* `exists_outline` — clauses that nest are those of a body.
-/

namespace SmallBasic

namespace Clause

/-- Whether a clause ends a branch or a block, and so cannot stand first in a body. -/
def isEnd (clause : Clause) : Bool :=
  match clause.role with
  | .simple | .opens => false
  | .continues | .closes | .repeats => true

end Clause

/-- The words of the open blocks after a clause, innermost first. There are none if the clause does
not belong to the innermost block. -/
def nest (words : List Keyword) (clause : Clause) : Option (List Keyword) :=
  match clause.role, words with
  | .simple, words => some words
  | .opens, words => clause.opener?.map (· :: words)
  | .continues, word :: words =>
    if word = .if ∨ word = .elseIf then clause.opener?.map (· :: words) else none
  | .closes, word :: words | .repeats, word :: words =>
    if some word.closer = clause.word? then some words else none
  | _, [] => none

/-- The words of the open blocks after a sequence of clauses. -/
def nestAll (words : List Keyword) : List Clause → Option (List Keyword)
  | [] => some words
  | clause :: clauses => (nest words clause).bind (nestAll · clauses)

/-- Whatever remains after a body that cannot be made longer: nothing, or a clause that ends the
block around it. -/
def EndsBlock (clauses : List Clause) : Prop := ∀ clause ∈ clauses.head?, clause.isEnd = true

theorem nestAll_cons_eq_some {words last : List Keyword} {clause : Clause}
    {clauses : List Clause} :
    nestAll words (clause :: clauses) = some last ↔
      ∃ next, nest words clause = some next ∧ nestAll next clauses = some last := by
  simp [nestAll, Option.bind_eq_some_iff]

/-- Clauses that leave an open block open go on with a clause that ends it. -/
theorem exists_end_of_nestAll_cons {word : Keyword} {words : List Keyword} {clauses : List Clause}
    (hnest : nestAll (word :: words) clauses = some []) (hend : EndsBlock clauses) :
    ∃ clause rest, clauses = clause :: rest ∧ clause.isEnd = true := by
  cases clauses with
  | nil => simp [nestAll] at hnest
  | cons clause rest => exact ⟨clause, rest, rfl, hend clause rfl⟩

/-- A clause is simple, opens a block, or ends one. -/
theorem Clause.simple_or_opens_or_ends (clause : Clause) :
    clause.role = .simple ∨ (∃ bracket : Bracket, clause = bracket.opener) ∨
      (∃ condition, clause = .if condition) ∨ clause.isEnd = true := by
  cases clause with
  | «while» condition => exact .inr (.inl ⟨.while condition, rfl⟩)
  | «for» counter lower upper => exact .inr (.inl ⟨.for counter lower upper, rfl⟩)
  | sub name => exact .inr (.inl ⟨.sub name, rfl⟩)
  | «if» condition => exact .inr (.inr (.inl ⟨condition, rfl⟩))
  | assign | bind | invoke | label | goto | callSub => exact .inl rfl
  | elseIf | «else» | endIf | endWhile | endFor | endSub => exact .inr (.inr (.inr rfl))

/-- The word of an open block. -/
def Bracket.word : Bracket → Keyword
  | .while _ => .while
  | .for _ _ _ => .for
  | .sub _ => .sub

theorem nest_simple {words : List Keyword} {clause : Clause} (hrole : clause.role = .simple) :
    nest words clause = some words := by
  simp [nest, hrole]

theorem nest_opener (words : List Keyword) (bracket : Bracket) :
    nest words bracket.opener = some (bracket.word :: words) := by
  cases bracket <;> rfl

theorem nest_if (words : List Keyword) (condition : Expr) :
    nest words (.if condition) = some (.if :: words) := rfl

/-- A clause that continues a block takes the place of the branch before it. -/
theorem nest_continues {words next : List Keyword} {clause : Clause}
    (hrole : clause.role = .continues) (hnest : nest words clause = some next) :
    ∃ outer inner rest, words = outer :: rest ∧ clause.opener? = some inner ∧
      next = inner :: rest := by
  cases words with
  | nil => simp [nest, hrole] at hnest
  | cons outer rest =>
    simp only [nest, hrole] at hnest
    split at hnest
    · obtain ⟨inner, hinner, rfl⟩ := Option.map_eq_some_iff.1 hnest
      exact ⟨outer, inner, rest, rfl, hinner, rfl⟩
    · cases hnest

/-- A clause that closes a block takes its word from the stack. -/
theorem nest_closes {words next : List Keyword} {clause : Clause}
    (hrole : clause.role = .closes ∨ clause.role = .repeats)
    (hnest : nest words clause = some next) : ∃ word, words = word :: next := by
  cases words with
  | nil => obtain hrole | hrole := hrole <;> simp [nest, hrole] at hnest
  | cons word rest =>
    refine ⟨word, ?_⟩
    obtain hrole | hrole := hrole <;>
    · simp only [nest, hrole] at hnest
      split at hnest
      · cases hnest
        rfl
      · cases hnest

/-- Only the closer of a bracket ends what the bracket opened. -/
theorem nest_bracket {bracket : Bracket} {words next : List Keyword} {clause : Clause}
    (hnest : nest (bracket.word :: words) clause = some next) (hend : clause.isEnd = true) :
    clause = bracket.closer ∧ next = words := by
  cases bracket <;> cases clause <;>
    simp_all [nest, Clause.isEnd, Clause.role, Clause.word?, Bracket.closer, Bracket.word,
      Keyword.closer, Keyword.block]

/-- A branch with a condition ends with another branch or with the chain. -/
theorem nest_branch {word : Keyword} {words next : List Keyword} {clause : Clause}
    (hword : word = .if ∨ word = .elseIf) (hnest : nest (word :: words) clause = some next)
    (hend : clause.isEnd = true) :
    (∃ condition, clause = .elseIf condition ∧ next = .elseIf :: words) ∨
      (clause = .else ∧ next = .else :: words) ∨ (clause = .endIf ∧ next = words) := by
  obtain rfl | rfl := hword <;> cases clause <;>
    simp_all [nest, Clause.isEnd, Clause.role, Clause.opener?, Clause.word?, Keyword.closer,
      Keyword.block]

/-- The last branch of a chain ends with the chain. -/
theorem nest_else {words next : List Keyword} {clause : Clause}
    (hnest : nest (.else :: words) clause = some next) (hend : clause.isEnd = true) :
    clause = .endIf ∧ next = words := by
  cases clause <;>
    simp_all [nest, Clause.isEnd, Clause.role, Clause.word?, Keyword.closer, Keyword.block]

/-- At most `n` clauses start with a body after which nothing of the block is left. -/
def HasBody (n : Nat) : Prop :=
  ∀ clauses : List Clause, clauses.length ≤ n → ∀ words, nestAll words clauses = some [] →
    ∃ (body : Body) (rest : List Clause), clauses = body.clauses ++ rest ∧
      nestAll words rest = some [] ∧ EndsBlock rest

/-- At most `n` clauses that end a branch with a condition start with the rest of its chain. -/
def HasBranches (n : Nat) : Prop :=
  ∀ clauses : List Clause, clauses.length ≤ n → ∀ word words, (word = .if ∨ word = .elseIf) →
    nestAll (word :: words) clauses = some [] → EndsBlock clauses →
    ∃ (branches : Branches) (rest : List Clause), clauses = branches.clauses ++ rest ∧
      nestAll words rest = some []

theorem HasBody.succ {n : Nat} (hbody : HasBody n) (hbranches : HasBranches n) :
    HasBody (n + 1) := by
  intro clauses hlength words hnest
  cases clauses with
  | nil => exact ⟨.nil, [], rfl, hnest, by simp [EndsBlock]⟩
  | cons clause clauses =>
    have hshort : clauses.length ≤ n := Nat.le_of_succ_le_succ hlength
    obtain ⟨next, hnext, hafter⟩ := nestAll_cons_eq_some.1 hnest
    rcases clause.simple_or_opens_or_ends with hrole | ⟨bracket, rfl⟩ | ⟨condition, rfl⟩ | hend
    · obtain rfl : words = next := by simpa [nest_simple hrole] using hnext
      obtain ⟨body, rest, rfl, hrest, hends⟩ := hbody clauses hshort words hafter
      exact ⟨.step clause hrole body, rest, rfl, hrest, hends⟩
    · obtain rfl : bracket.word :: words = next := by simpa [nest_opener] using hnext
      obtain ⟨inner, tail, rfl, htail, hends⟩ := hbody clauses hshort _ hafter
      obtain ⟨closer, tail, rfl, hcloser⟩ := exists_end_of_nestAll_cons htail hends
      obtain ⟨outer, houter, hrest⟩ := nestAll_cons_eq_some.1 htail
      obtain ⟨rfl, rfl⟩ := nest_bracket houter hcloser
      simp only [List.length_append, List.length_cons] at hshort
      obtain ⟨body, rest, rfl, hlast, hends⟩ := hbody tail (by omega) _ hrest
      exact ⟨.block bracket inner body, rest, by simp [Body.clauses], hlast, hends⟩
    · obtain rfl : .if :: words = next := by simpa [nest_if] using hnext
      obtain ⟨inner, tail, rfl, htail, hends⟩ := hbody clauses hshort _ hafter
      simp only [List.length_append] at hshort
      obtain ⟨branches, after, rfl, hrest⟩ :=
        hbranches tail (by omega) _ _ (.inl rfl) htail hends
      simp only [List.length_append] at hshort
      obtain ⟨body, rest, rfl, hlast, hends⟩ := hbody after (by omega) _ hrest
      exact ⟨.chain condition inner branches body, rest, by simp [Body.clauses], hlast, hends⟩
    · exact ⟨.nil, clause :: clauses, rfl, hnest, by simp [EndsBlock, hend]⟩

theorem HasBranches.succ {n : Nat} (hbody : HasBody n) (hbranches : HasBranches n) :
    HasBranches (n + 1) := by
  intro clauses hlength word words hword hnest hends
  obtain ⟨clause, clauses, rfl, hend⟩ := exists_end_of_nestAll_cons hnest hends
  have hshort : clauses.length ≤ n := Nat.le_of_succ_le_succ hlength
  obtain ⟨next, hnext, hafter⟩ := nestAll_cons_eq_some.1 hnest
  rcases nest_branch hword hnext hend with ⟨condition, rfl, rfl⟩ | ⟨rfl, rfl⟩ | ⟨rfl, rfl⟩
  · obtain ⟨inner, tail, rfl, htail, hends⟩ := hbody clauses hshort _ hafter
    simp only [List.length_append] at hshort
    obtain ⟨branches, rest, rfl, hrest⟩ := hbranches tail (by omega) _ _ (.inr rfl) htail hends
    exact ⟨.elseIf condition inner branches, rest, by simp [Branches.clauses], hrest⟩
  · obtain ⟨inner, tail, rfl, htail, hends⟩ := hbody clauses hshort _ hafter
    obtain ⟨closer, rest, rfl, hcloser⟩ := exists_end_of_nestAll_cons htail hends
    obtain ⟨outer, houter, hrest⟩ := nestAll_cons_eq_some.1 htail
    obtain ⟨rfl, rfl⟩ := nest_else houter hcloser
    exact ⟨.else inner, rest, by simp [Branches.clauses], hrest⟩
  · exact ⟨.endIf, clauses, rfl, hafter⟩

theorem hasBody_and_hasBranches (n : Nat) : HasBody n ∧ HasBranches n := by
  induction n with
  | zero =>
    constructor
    · intro clauses hlength words hnest
      obtain rfl := List.length_eq_zero_iff.1 (Nat.le_zero.1 hlength)
      exact ⟨.nil, [], rfl, hnest, by simp [EndsBlock]⟩
    · intro clauses hlength word words _ hnest hends
      obtain ⟨clause, rest, rfl, _⟩ := exists_end_of_nestAll_cons hnest hends
      simp at hlength
  | succ n ih => exact ⟨ih.1.succ ih.2, .succ ih.1 ih.2⟩

/-- Clauses that open and close their blocks in order are those of a body. -/
theorem exists_outline {clauses : List Clause} (hnest : nestAll [] clauses = some []) :
    ∃ body : Body, body.clauses = clauses := by
  obtain ⟨body, rest, rfl, hrest, hends⟩ :=
    (hasBody_and_hasBranches clauses.length).1 clauses (Nat.le_refl _) [] hnest
  -- No clause can end a block where none is open.
  cases rest with
  | nil => exact ⟨body, (List.append_nil _).symm⟩
  | cons clause rest =>
    obtain ⟨next, hnext, _⟩ := nestAll_cons_eq_some.1 hrest
    have hend := hends clause rfl
    cases clause <;> simp_all [nest, Clause.isEnd, Clause.role]

end SmallBasic

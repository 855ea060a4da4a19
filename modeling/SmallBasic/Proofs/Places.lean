import SmallBasic.Program.Draft
import SmallBasic.Proofs.Reading

/-!
# Where errors stand

What is wrong with a line is reported at one of its tokens, or behind the last one. No reader makes
up a place of its own: it knows the tokens that it is given, and the end of the line.

The places are taken together as a predicate on lines and columns. If all tokens of a line and its
end stand at such places, then so do its errors, whatever the predicate is.

## Main definitions

* `Token.Stands`, `SyntaxError.Stands` — a token, or an error, at such a place.
* `Locates` — a result of reading, with its errors at such places.
* `Line.LocatesWith` — what the readers of expressions report with so much fuel.

## Main statements

* `Line.locatesWith` — the readers of expressions report errors at such places only.
* `Line.locates_readClause` — so does the reader of clauses.
* `Draft.locates_readTokens` — and so does the reader of lines, whatever blocks are open.
-/

namespace SmallBasic

/-- A token at one of these places. -/
def Token.Stands (P : Nat → Nat → Prop) (token : Token) : Prop := P token.line token.column

/-- An error at one of these places. -/
def SyntaxError.Stands (P : Nat → Nat → Prop) (error : SyntaxError) : Prop :=
  P error.line error.column

/-- All of the tokens stand at such places. -/
def AllStand (P : Nat → Nat → Prop) (tokens : List Token) : Prop :=
  ∀ token ∈ tokens, token.Stands P

@[simp] theorem allStand_nil (P : Nat → Nat → Prop) : AllStand P [] := List.forall_mem_nil _

@[simp] theorem allStand_cons {P : Nat → Nat → Prop} {token : Token} {tokens : List Token} :
    AllStand P (token :: tokens) ↔ token.Stands P ∧ AllStand P tokens := List.forall_mem_cons

/-- What was read has the property `Q`, or the error stands at one of these places. -/
def Locates (P : Nat → Nat → Prop) {α : Type} (Q : α → Prop) : Except SyntaxError α → Prop
  | .ok value => Q value
  | .error error => error.Stands P

section Locates

variable {P : Nat → Nat → Prop} {α β : Type} {Q : α → Prop} {R : β → Prop}
  {read : Except SyntaxError α}

theorem Locates.bind (hread : Locates P Q read) {next : α → Except SyntaxError β}
    (hnext : ∀ value, Q value → Locates P R (next value)) : Locates P R (read >>= next) := by
  cases read with
  | ok value => exact hnext value hread
  | error error => exact hread

theorem Locates.map (hread : Locates P Q read) {f : α → β} (hf : ∀ value, Q value → R (f value)) :
    Locates P R (f <$> read) := by
  cases read with
  | ok value => exact hf value hread
  | error error => exact hread

end Locates

theorem stands_memberError {P : Nat → Nat → Prop} {object member : Token}
    (hobject : object.Stands P) (hmember : member.Stands P) (error : MemberError) :
    (memberError object member error).Stands P := by
  unfold memberError
  split
  · exact hobject
  · exact hmember

namespace Line

variable {P : Nat → Nat → Prop} {line : Line} {exhausted : SyntaxError.Cause} {fuel : Nat}
  {tokens rest : List Token}

/-! ## One token at a time -/

section Tokens

variable (hend : P line.number line.endColumn) (htokens : AllStand P tokens)

include hend htokens

theorem locates_expect (kind : Token.Kind) :
    Locates P (AllStand P) (line.expect kind tokens) := by
  cases tokens with
  | nil => exact hend
  | cons token rest =>
    rw [expect]
    split
    · exact (allStand_cons.1 htokens).2
    · exact (allStand_cons.1 htokens).1

theorem locates_expectSymbol :
    Locates P (fun read => read.1.Stands P ∧ AllStand P read.2) (line.expectSymbol tokens) := by
  cases tokens with
  | nil => exact hend
  | cons token rest =>
    rw [expectSymbol]
    split
    · exact allStand_cons.1 htokens
    · exact (allStand_cons.1 htokens).1

omit hend in
theorem locates_expectEnd : Locates P (fun _ => True) (expectEnd tokens) := by
  cases tokens with
  | nil => trivial
  | cons token rest => exact (allStand_cons.1 htokens).1

theorem locates_readSigned (negative : Bool) :
    Locates P (fun read => AllStand P read.2) (line.readSigned negative tokens) := by
  induction tokens generalizing negative with
  | nil => exact hend
  | cons token rest ih =>
    obtain ⟨htoken, hrest⟩ := allStand_cons.1 htokens
    rw [readSigned]
    split
    · exact ih hrest _
    · exact hrest
    · exact htoken

end Tokens

/-! ## Expressions -/

/-- With so much fuel, the readers of expressions report errors at such places only. -/
structure LocatesWith (line : Line) (P : Nat → Nat → Prop) (exhausted : SyntaxError.Cause)
    (fuel : Nat) : Prop where
  expr : ∀ ending condition {tokens}, AllStand P tokens →
    Locates P (fun read => AllStand P read.2.2)
      (line.readExprWith exhausted fuel ending condition tokens)
  links : ∀ ending condition {tokens}, AllStand P tokens →
    Locates P (fun read => AllStand P read.2.2)
      (line.readLinksWith exhausted fuel ending condition tokens)
  operand : ∀ ending condition {tokens}, AllStand P tokens →
    Locates P (fun read => AllStand P read.2)
      (line.readOperandWith exhausted fuel ending condition tokens)
  name : ∀ {name tokens}, name.Stands P → AllStand P tokens →
    Locates P (fun read => AllStand P read.2) (line.readNameWith exhausted fuel name tokens)
  indices : ∀ {tokens}, AllStand P tokens →
    Locates P (fun read => AllStand P read.2) (line.readIndicesWith exhausted fuel tokens)
  args : ∀ {tokens}, AllStand P tokens →
    Locates P (fun read => AllStand P read.2) (line.readArgsWith exhausted fuel tokens)
  moreArgs : ∀ {tokens}, AllStand P tokens →
    Locates P (fun read => AllStand P read.2) (line.readMoreArgsWith exhausted fuel tokens)

namespace LocatesWith

theorem zero (hend : P line.number line.endColumn) (exhausted : SyntaxError.Cause) :
    line.LocatesWith P exhausted 0 := by
  constructor <;> intros <;> exact hend

section Succ

variable (hend : P line.number line.endColumn) (ih : line.LocatesWith P exhausted fuel)
  (htokens : AllStand P tokens)

include ih htokens

theorem expr_succ (ending : Ending) (condition : Bool) :
    Locates P (fun read => AllStand P read.2.2)
      (line.readExprWith exhausted (fuel + 1) ending condition tokens) := by
  rw [readExprWith]
  refine (ih.operand ending condition htokens).bind fun operand hrest => ?_
  exact (ih.links ending condition hrest).bind fun links hrest => hrest

include hend

theorem links_succ (ending : Ending) (condition : Bool) :
    Locates P (fun read => AllStand P read.2.2)
      (line.readLinksWith exhausted (fuel + 1) ending condition tokens) := by
  cases tokens with
  | nil =>
    rw [readLinksWith]
    split
    · exact allStand_nil P
    · exact hend
  | cons token tokens =>
    obtain ⟨htoken, hrest⟩ := allStand_cons.1 htokens
    rw [readLinksWith]
    split
    · exact hrest
    · split
      · exact htoken
      · refine (ih.operand ending condition hrest).bind fun operand hrest => ?_
        exact (ih.links ending condition hrest).bind fun links hrest => hrest

theorem operand_succ (ending : Ending) (condition : Bool) :
    Locates P (fun read => AllStand P read.2)
      (line.readOperandWith exhausted (fuel + 1) ending condition tokens) := by
  cases tokens with
  | nil =>
    rw [readOperandWith]
    exact hend
  | cons token tokens =>
    obtain ⟨htoken, hrest⟩ := allStand_cons.1 htokens
    rw [readOperandWith]
    split
    · exact hrest
    · exact hrest
    · exact locates_readSigned hend hrest true
    · exact (ih.expr _ condition hrest).bind fun inner hrest => hrest
    · exact ih.name htoken hrest
    · split <;> exact htoken

theorem name_succ {name : Token} (hname : name.Stands P) :
    Locates P (fun read => AllStand P read.2)
      (line.readNameWith exhausted (fuel + 1) name tokens) := by
  cases tokens with
  | nil =>
    rw [readNameWith]
    exact allStand_nil P
  | cons token tokens =>
    obtain ⟨htoken, hrest⟩ := allStand_cons.1 htokens
    rw [readNameWith]
    split
    · exact (ih.indices htokens).bind fun indices hrest => hrest
    · refine (locates_expectSymbol hend hrest).bind fun read hread => ?_
      obtain ⟨member, after⟩ := read
      obtain ⟨hmember, hafter⟩ := hread
      dsimp only
      split
      · refine (ih.args (allStand_cons.1 hafter).2).bind fun args hrest => ?_
        split
        · exact hrest
        · exact stands_memberError hname hmember _
      · split
        · exact hafter
        · exact stands_memberError hname hmember _
    · exact htoken
    · exact htokens

omit hend

theorem indices_succ :
    Locates P (fun read => AllStand P read.2)
      (line.readIndicesWith exhausted (fuel + 1) tokens) := by
  by_cases hkind : ∀ token ∈ tokens.head?, token.kind ≠ .leftBracket
  · rw [readIndicesWith_end hkind]
    exact htokens
  · obtain ⟨token, rest, rfl, hbracket⟩ := exists_cons_of_kind hkind
    rw [readIndicesWith_bracket hbracket]
    refine (ih.expr _ _ (allStand_cons.1 htokens).2).bind fun index hrest => ?_
    exact (ih.indices hrest).bind fun indices hrest => hrest

theorem args_succ :
    Locates P (fun read => AllStand P read.2)
      (line.readArgsWith exhausted (fuel + 1) tokens) := by
  by_cases hkind : ∀ token ∈ tokens.head?, token.kind ≠ .rightParen
  · rw [readArgsWith_more hkind]
    exact ih.moreArgs htokens
  · obtain ⟨token, rest, rfl, hparen⟩ := exists_cons_of_kind hkind
    rw [readArgsWith_end hparen]
    exact (allStand_cons.1 htokens).2

theorem moreArgs_succ :
    Locates P (fun read => AllStand P read.2)
      (line.readMoreArgsWith exhausted (fuel + 1) tokens) := by
  rw [readMoreArgsWith]
  refine (ih.expr _ _ htokens).bind fun read hrest => ?_
  dsimp only
  split
  · exact (ih.moreArgs hrest).bind fun args hrest => hrest
  · exact hrest

end Succ

theorem succ (hend : P line.number line.endColumn) (ih : line.LocatesWith P exhausted fuel) :
    line.LocatesWith P exhausted (fuel + 1) where
  expr ending condition _ htokens := expr_succ ih htokens ending condition
  links ending condition _ htokens := links_succ hend ih htokens ending condition
  operand ending condition _ htokens := operand_succ hend ih htokens ending condition
  name hname htokens := name_succ hend ih htokens hname
  indices htokens := indices_succ ih htokens
  args htokens := args_succ ih htokens
  moreArgs htokens := moreArgs_succ ih htokens

end LocatesWith

theorem locatesWith (hend : P line.number line.endColumn) (exhausted : SyntaxError.Cause)
    (fuel : Nat) : line.LocatesWith P exhausted fuel := by
  induction fuel with
  | zero => exact .zero hend exhausted
  | succ fuel ih => exact ih.succ hend

/-! ## Clauses -/

section Clauses

variable (hend : P line.number line.endColumn) (htokens : AllStand P tokens)

include hend htokens

theorem locates_readRest (condition : Bool) :
    Locates P (fun _ => True) (line.readRest condition tokens) :=
  ((locatesWith hend _ _).expr _ condition htokens).bind fun _ _ => trivial

theorem locates_readCondition : Locates P (fun _ => True) (line.readCondition tokens) := by
  refine ((locatesWith hend _ _).expr _ true htokens).bind fun read hrest => ?_
  exact (locates_expectEnd hrest).bind fun _ _ => trivial

theorem locates_readName : Locates P (fun _ => True) (line.readName tokens) := by
  refine (locates_expectSymbol hend htokens).bind fun read hread => ?_
  exact (locates_expectEnd hread.2).bind fun _ _ => trivial

theorem locates_readFor : Locates P (fun _ => True) (line.readFor tokens) := by
  refine (locates_expectSymbol hend htokens).bind fun counter hcounter => ?_
  refine (locates_expect hend hcounter.2 _).bind fun rest hrest => ?_
  refine ((locatesWith hend _ _).expr _ false hrest).bind fun lower hlower => ?_
  exact (locates_readRest hend hlower false).bind fun _ _ => trivial

theorem locates_readKeyword {first : Token} (hfirst : first.Stands P) (word : Keyword) :
    Locates P (fun _ => True) (line.readKeyword first word tokens) := by
  cases word with
  | «if» | elseIf => exact (locates_readCondition hend htokens).map fun _ _ => trivial
  | «while» => exact (locates_readRest hend htokens true).map fun _ _ => trivial
  | «for» => exact locates_readFor hend htokens
  | sub | goto => exact (locates_readName hend htokens).map fun _ _ => trivial
  | «else» | endIf | endWhile | endFor | endSub =>
    exact (locates_expectEnd htokens).map fun _ _ => trivial
  | «then» | «to» | step => exact hfirst

theorem locates_readMemberValue {object member : Token} (hobject : object.Stands P)
    (hmember : member.Stands P) :
    Locates P (fun _ => True) (line.readMemberValue object member tokens) := by
  unfold readMemberValue
  split
  · exact stands_memberError hobject hmember _
  · split
    · exact (locates_readRest hend htokens false).map fun _ _ => trivial
    · exact hmember
  · refine (locates_readRest hend htokens false).bind fun value _ => ?_
    split
    · trivial
    -- The subroutine is missed where the value starts.
    · cases tokens with
      | nil => exact hmember
      | cons token rest => exact (allStand_cons.1 htokens).1
  · exact hmember

theorem locates_readMember {object : Token} (hobject : object.Stands P) :
    Locates P (fun _ => True) (line.readMember object tokens) := by
  refine (locates_expectSymbol hend htokens).bind fun read hread => ?_
  obtain ⟨member, rest⟩ := read
  obtain ⟨hmember, hrest⟩ := hread
  cases rest with
  | nil => exact hend
  | cons token rest =>
    obtain ⟨htoken, hrest⟩ := allStand_cons.1 hrest
    dsimp only
    split
    · refine ((locatesWith hend _ _).args hrest).bind fun args hrest => ?_
      split
      · exact stands_memberError hobject hmember _
      · exact (locates_expectEnd hrest).bind fun _ _ => trivial
    · exact locates_readMemberValue hend hrest hobject hmember
    · exact htoken

theorem locates_readSymbol {name : Token} (hname : name.Stands P) :
    Locates P (fun _ => True) (line.readSymbol name tokens) := by
  cases tokens with
  | nil => exact hname
  | cons token rest =>
    obtain ⟨htoken, hrest⟩ := allStand_cons.1 htokens
    rw [readSymbol]
    split
    · exact (locates_expectEnd hrest).map fun _ _ => trivial
    · exact locates_readMember hend hrest hname
    · refine ((locatesWith hend _ _).indices htokens).bind fun indices hrest => ?_
      refine (locates_expect hend hrest _).bind fun rest hrest => ?_
      exact (locates_readRest hend hrest false).map fun _ _ => trivial
    · exact (locates_readRest hend hrest false).map fun _ _ => trivial
    · refine (locates_expect hend hrest _).bind fun rest hrest => ?_
      exact (locates_expectEnd hrest).bind fun _ _ => trivial
    · exact htoken

/-- Whatever is wrong with a line is reported at one of its tokens, or at its end. -/
theorem locates_readClause {first : Token} (hfirst : first.Stands P) :
    Locates P (fun _ => True) (line.readClause first tokens) := by
  unfold readClause
  split
  · exact locates_readKeyword hend htokens hfirst _
  · exact locates_readSymbol hend htokens hfirst
  · exact hfirst

end Clauses

end Line

/-! ## Lines -/

namespace Draft

variable {P : Nat → Nat → Prop} {number : Nat} {first : Token} {rest : List Token}

/-- A line that does not fit the blocks around it is refused at its first token. -/
theorem stands_of_refusal? {draft : Draft} {word : Keyword} {error : SyntaxError}
    (hfirst : first.Stands P) (hrefusal : draft.refusal? first word = some error) :
    error.Stands P := by
  unfold refusal? at hrefusal
  grind [Token.Stands, SyntaxError.Stands, Token.unexpected, Token.error]

/-- A line is refused at one of its tokens, or at its end. -/
theorem locates_readTokens (draft : Draft)
    (hend : P number (Line.ofTokens number (first :: rest)).endColumn)
    (hfirst : first.Stands P) (hrest : AllStand P rest) :
    Locates P (fun _ => True) (draft.readTokens number first rest) := by
  have hclause := Line.locates_readClause hend hrest hfirst
  have hread : Locates P (fun _ => True) (do
      let clause ← (Line.ofTokens number (first :: rest)).readClause first rest
      if clause.opener? = some .sub ∧ draft.inSub then throw (first.error .nestedSub)
      return draft.add number clause) := by
    refine hclause.bind fun clause _ => ?_
    split
    · exact hfirst
    · trivial
  unfold readTokens
  split
  · split
    · exact stands_of_refusal? hfirst ‹_›
    · exact hread
  · exact hread

end Draft

end SmallBasic

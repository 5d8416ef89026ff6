import Calculator.Proofs.Expr.PostOrder
import Calculator.Proofs.Formula.Stages
import Calculator.Proofs.ReversePolish.Operands

/-!
# Nothing but literals is left of the numbers

Joining leaves a list as it is if it has no space.  So every row of digits and points has
to have its space, in the list and in every argument: one row without it would stay.

* `scopes` are a list and all arguments in it, and `RowsEnded` says of one of them that
  its rows have their spaces.
* `Joined.isWhole` and `Joined.mem_literals` say what a list has in it once it is joined:
  no parts of numbers, and no literals but those that were there before and those of
  numbers.
* `fragments_joined` puts them together with what the lexer gives.
-/

namespace Calculator

open ReversePolish

/-- Whether a token can stand in a list whose digits are joined. -/
def Token.isWhole : Token → Bool
  | literal _ | constant _ | var | operator _ | fn .. => true
  | _ => false

namespace ReversePolish

/-! ## Scopes -/

mutual

/-- The argument of a token and all arguments in it. -/
def argumentsToken : Token → List (List Token)
  | .fn _ arg => arg :: arguments arg
  | _ => []

/-- The arguments of all functions in a list, at every depth. -/
def arguments : List Token → List (List Token)
  | [] => []
  | token :: tokens => argumentsToken token ++ arguments tokens

end

/-- A list and all arguments in it. -/
def scopes (tokens : List Token) : List (List Token) := tokens :: arguments tokens

/-- There are no arguments in a number. -/
theorem arguments_number {parts : List Token} (hparts : ∀ token ∈ parts, token.isNumberPart)
    (negative : Bool) (rest : List Token) :
    arguments (Token.sign negative ++ parts ++ .space :: rest) = arguments rest := by
  have hrow : arguments (parts ++ .space :: rest) = arguments rest := by
    induction parts with
    | nil => rfl
    | cons part parts ih =>
      obtain ⟨hpart, hparts⟩ := List.forall_mem_cons.mp hparts
      have hnone : argumentsToken part = [] := by
        cases part <;> first | rfl | cases hpart
      rw [List.cons_append, arguments, hnone, List.nil_append, ih hparts]
  cases negative with
  | false => exact hrow
  | true => exact hrow

/-- If the numbers of a list are set apart, so are those of its arguments. -/
theorem Apart.scopes {tokens : List Token} (h : Apart tokens) :
    ∀ scope ∈ scopes tokens, Apart scope := by
  rw [ReversePolish.scopes, List.forall_mem_cons]
  refine ⟨h, ?_⟩
  induction h with
  | nil => simp [arguments]
  | number negative _ hparts _ ih =>
    rw [arguments_number hparts]
    exact ih
  | @symbol token htoken tokens _ ih =>
    have hnone : argumentsToken token = [] := by
      cases token <;> first | rfl | cases htoken
    rw [arguments, hnone]
    exact ih
  | fn f harg _ iharg ih =>
    intro scope hmem
    rcases List.mem_append.mp hmem with hscope | hscope
    · rcases List.mem_cons.mp hscope with rfl | hscope
      · exact harg
      · exact iharg scope hscope
    · exact ih scope hscope

/-! ## Rows and their spaces -/

/-- Whether every row of digits and points in a list has a space directly behind it.  What has
another digit or point behind it is no whole row. -/
def RowsEnded (tokens : List Token) : Prop :=
  ∀ before row after, tokens = before ++ row ++ after → row ≠ [] →
    (∀ token ∈ row, token.isNumberPart) → after.head?.any Token.isNumberPart = false →
    after.head? = some .space

theorem rowsEnded_nil : RowsEnded [] := by
  intro before row after h hne
  simp [hne] at h

/-- A digit or point has to be followed by another one or by a space. -/
theorem RowsEnded.cons {token : Token} {tokens : List Token} (h : RowsEnded tokens)
    (hnext : token.isNumberPart →
      tokens.head?.any Token.isNumberPart ∨ tokens.head? = some .space) :
    RowsEnded (token :: tokens) := by
  intro before row after heq hne hrow hafter
  cases before with
  | cons first before => exact h before row after (List.cons.inj heq).2 hne hrow hafter
  | nil =>
    -- The row begins with the token itself.
    obtain ⟨first, more, rfl⟩ := List.exists_cons_of_ne_nil hne
    obtain ⟨rfl, htokens⟩ := List.cons.inj heq
    obtain ⟨htoken, hmore⟩ := List.forall_mem_cons.mp hrow
    cases more with
    | nil =>
      subst htokens
      rcases hnext htoken with hpart | hspace
      · rw [hpart] at hafter
        cases hafter
      · exact hspace
    | cons next more =>
      have htail : tokens = [] ++ (next :: more) ++ after := htokens
      exact h [] (next :: more) after htail (List.cons_ne_nil _ _) hmore hafter

theorem Apart.rowsEnded {tokens : List Token} (h : Apart tokens) : RowsEnded tokens := by
  induction h with
  | nil => exact rowsEnded_nil
  | @number negative parts tokens hne hparts _ ih =>
    clear hne
    have hspace : RowsEnded (.space :: tokens) := ih.cons fun hpart => nomatch hpart
    have hrow : RowsEnded (parts ++ .space :: tokens) := by
      induction parts with
      | nil => exact hspace
      | cons part parts ihparts =>
        obtain ⟨hpart, hparts⟩ := List.forall_mem_cons.mp hparts
        refine (ihparts hparts).cons fun _ => ?_
        cases parts with
        | nil => exact .inr rfl
        | cons next parts => exact .inl (hparts next List.mem_cons_self)
    cases negative with
    | false => exact hrow
    | true => exact hrow.cons fun hpart => nomatch hpart
  | @symbol token htoken tokens _ ih =>
    have hpart : token.isNumberPart = false := by
      cases token <;> first | rfl | cases htoken
    exact ih.cons fun htrue => absurd htrue (by simp [hpart])
  | fn f _ _ _ ih => exact ih.cons fun hpart => nomatch hpart

/-! ## What is in a joined list -/

theorem flat_symbol {token : Token} (h : isSymbol token) (tokens : List Token) :
    flat (token :: tokens) = token :: flat tokens := by
  cases token <;> first | rfl | cases h

/-- A joined list has no parts of numbers at any depth. -/
theorem Joined.isWhole {apart joined : List Token} (h : Joined apart joined) :
    ∀ token ∈ flat joined, token.isWhole := by
  induction h with
  | nil => simp [flat]
  | number n _ ih =>
    rw [flat_symbol rfl, List.forall_mem_cons]
    exact ⟨rfl, ih⟩
  | @symbol token htoken _ joined _ ih =>
    rw [flat_symbol htoken, List.forall_mem_cons]
    refine ⟨?_, ih⟩
    cases token <;> first | rfl | cases htoken
  | fn f _ _ iharg ih =>
    intro token hmem
    rcases List.mem_append.mp hmem with hfn | htail
    · rcases List.mem_append.mp hfn with harg | hself
      · exact iharg token harg
      · rw [List.mem_singleton.mp hself]
        rfl
    · exact ih token htail

/-- A literal in a joined list has been there before, or it is the literal of a number. -/
theorem Joined.mem_literals {apart joined : List Token} (h : Joined apart joined) {n : Numeral}
    (hmem : .literal n ∈ flat joined) :
    .literal n ∈ flat apart ∨ ∃ m : SignedNumber, n = m.numeral := by
  induction h with
  | nil => cases hmem
  | @number m apart joined _ ih =>
    rw [flat_symbol rfl] at hmem
    rcases List.mem_cons.mp hmem with hself | htail
    · exact .inr ⟨m, Token.literal.inj hself⟩
    · refine (ih htail).imp_left fun hin => ?_
      rw [flat_append]
      exact List.mem_append_right _ (List.mem_cons_of_mem _ hin)
  | @symbol token htoken apart joined _ ih =>
    rw [flat_symbol htoken] at hmem ⊢
    rcases List.mem_cons.mp hmem with rfl | htail
    · exact .inl List.mem_cons_self
    · exact (ih htail).imp_left (List.mem_cons_of_mem _)
  | fn f _ _ iharg ih =>
    rcases List.mem_append.mp hmem with hfn | htail
    · rcases List.mem_append.mp hfn with harg | hself
      · refine (iharg harg).imp_left fun hin => ?_
        exact List.mem_append_left _ (List.mem_append_left _ hin)
      · cases List.mem_singleton.mp hself
    · exact (ih htail).imp_left (List.mem_append_right _)

/-- Reordering makes no literals. -/
theorem literal_not_mem_ofInfix {tokens out : List Token} (h : ofInfix tokens = .ok out)
    (hread : ∀ token ∈ tokens, Yard.isRead token) (n : Numeral) : .literal n ∉ flat out := by
  intro hmem
  have hoperand : .literal n ∈ collect operandsOf true tokens := by
    rw [← operands_ofInfix h, operands, List.mem_filter]
    exact ⟨hmem, rfl⟩
  obtain ⟨expects, following, token, htoken, hof⟩ := mem_collect hoperand
  rcases mem_operandsOf hof with hnumber | ⟨rfl, -⟩
  · cases hnumber
  · cases hread _ htoken

end ReversePolish

/-- An expression is plain if the literals of its reverse Polish order are those of numbers. -/
theorem Expr.isPlain_of_mem_literals {e : Expr}
    (h : ∀ n, .literal n ∈ flat e.postOrder → ∃ m : SignedNumber, n = m.numeral) :
    e.IsPlain := by
  induction e with
  | numeral n => exact h n (List.mem_singleton.mpr rfl)
  | constant c => trivial
  | var => trivial
  | binary op left right ihleft ihright =>
    rw [postOrder, flat_append, flat_append] at h
    refine ⟨ihleft fun n hmem => h n ?_, ihright fun n hmem => h n ?_⟩
    · exact List.mem_append_left _ (List.mem_append_left _ hmem)
    · exact List.mem_append_left _ (List.mem_append_right _ hmem)
  | call f arg ih =>
    refine ih fun n hmem => h n ?_
    exact List.mem_append_left _ (List.mem_append_left _ hmem)

/-! ## All stages -/

/-- No part of a number survives reordering and joining, and every literal is one of a number.

The first half is about any tokens without signs.  Those of a text have none, whichever table it
is read with, and the second half is about them. -/
theorem fragments_joined {M : Type → Type} [NameTable M] (names : M Fn) :
    (∀ tokens apart, Token.negative ∉ tokens → ofInfix tokens = .ok apart →
      (∀ scope ∈ scopes apart, RowsEnded scope) ∧
        ∀ joined, joinDigits apart = .ok joined → ∀ token ∈ flat joined, token.isWhole) ∧
    ∀ text tokens, (Lexer.ofText names text).tokens = .ok tokens →
      Token.negative ∉ tokens ∧
        ∀ apart joined, ofInfix tokens = .ok apart → joinDigits apart = .ok joined →
          (∀ n, .literal n ∈ flat joined →
            ∃ m : SignedNumber, n.text = m.text ∧ Numeral.ofText? n.text = some n) ∧
          ∀ root, Expr.ofTokens joined = .ok root → root.IsPlain := by
  constructor
  · intro tokens apart hnegative hapart
    constructor
    · intro scope hscope
      exact ((apart_ofInfix hapart hnegative).scopes scope hscope).rowsEnded
    · intro joined hjoin
      exact (joined_ofInfix hapart hnegative hjoin).isWhole
  · intro text tokens htokens
    have hnegative := Lexer.negative_not_mem htokens
    refine ⟨hnegative, ?_⟩
    intro apart joined hapart hjoin
    have hliterals : ∀ n, .literal n ∈ flat joined → ∃ m : SignedNumber, n = m.numeral := by
      intro n hmem
      have hnone := literal_not_mem_ofInfix hapart (Lexer.isRead_of_mem htokens) n
      exact ((joined_ofInfix hapart hnegative hjoin).mem_literals hmem).resolve_left hnone
    constructor
    · intro n hmem
      obtain ⟨m, rfl⟩ := hliterals n hmem
      refine ⟨m, m.text_numeral, ?_⟩
      rw [m.text_numeral, m.ofText?_text]
    · intro root hroot
      apply Expr.isPlain_of_mem_literals
      rw [Expr.postOrder_of_ofTokens hroot]
      exact hliterals

/-- A number with a point that multiplies a function, and a sign in its argument that becomes a
number. -/
theorem fragments_joined_coefficient :
    ∃ tokens apart joined root,
      ((Lexer.ofText standardNames "2.5sin(-x)").tokens = .ok tokens ∧
        ofInfix tokens = .ok apart ∧ joinDigits apart = .ok joined ∧
        Expr.ofTokens joined = .ok root) ∧
      Token.negative ∉ tokens ∧ (∀ scope ∈ scopes apart, RowsEnded scope) ∧
      (∀ token ∈ flat joined, token.isWhole) ∧
      (∀ n, .literal n ∈ flat joined →
        ∃ m : SignedNumber, n.text = m.text ∧ Numeral.ofText? n.text = some n) ∧
      root.IsPlain := by
  have hok : (Formula.read "2.5sin(-x)").isOk := by decide +kernel
  obtain ⟨formula, hformula⟩ := Outcomes.exists_of_isOk hok
  obtain ⟨tokens, apart, htokens, hapart, hjoin, hroot, -⟩ := Formula.read_eq_ok_iff.mp hformula
  obtain ⟨hstages, htext⟩ := fragments_joined standardNames
  obtain ⟨hnegative, hliterals⟩ := htext _ tokens htokens
  obtain ⟨hrows, hwhole⟩ := hstages tokens apart hnegative hapart
  obtain ⟨hnumbers, hplain⟩ := hliterals apart formula.tokens hapart hjoin
  exact ⟨tokens, apart, formula.tokens, formula.root, ⟨htokens, hapart, hjoin, hroot⟩, hnegative,
    hrows, hwhole formula.tokens hjoin, hnumbers, hplain formula.root hroot⟩

end Calculator

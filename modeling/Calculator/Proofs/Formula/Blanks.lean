import Calculator.Formula.Basic
import Calculator.Proofs.Grammar.Basic
import Calculator.Proofs.Lexer.Language
import Calculator.Proofs.ReversePolish.Numbers

/-!
# White space between tokens

White space is a token that every later stage can see, but it can be put between any two
tokens without a difference, as long as they do not hold together (`Token.holds`).

* `Token.markCallsFrom_append` and `Token.markCallsFrom_spaces`: marking takes a list
  apart at any place, and has nothing to do with a space.
* `Yard.run_insert`: no step of the yard can tell whether there are more spaces behind its
  token, but for the parts of a number, and `Yard.Loose` says that these are not concerned.
  The steps behind that start from the same state.
* `Formula.outcome_insert` puts this together for texts.  It is about texts that are
  refused, too: they are refused for the same reason.
-/

namespace Calculator

open Outcomes (mapM_id_eq_ok_iff)
open ReversePolish (Yard joinDigits ofInfix)

/-! ## Marks -/

namespace Token

theorem isNumberPart_unmark (token : Token) : token.unmark.isNumberPart = token.isNumberPart := by
  cases token <;> rfl

theorem startsFactor_unmark (token : Token) : token.unmark.startsFactor = token.startsFactor := by
  cases token <;> rfl

/-- What marking does with one token, whatever is behind it. -/
theorem markCallsFrom_cons (opened : List Opened) (token : Token) :
    (∃ e, ∀ tokens, markCallsFrom opened (token :: tokens) = .error e) ∨
      ∃ marked next, marked.unmark = token.unmark ∧
        ∀ tokens, markCallsFrom opened (token :: tokens) =
          (marked :: ·) <$> markCallsFrom next tokens := by
  cases token with
  | openCall => exact .inr ⟨openCall, .call :: opened, rfl, fun _ => by rw [markCallsFrom]⟩
  | openGroup => exact .inr ⟨openGroup, .group :: opened, rfl, fun _ => by rw [markCallsFrom]⟩
  | closeGroup =>
    cases opened with
    | nil => exact .inl ⟨.malformed, fun _ => rfl⟩
    | cons kind opened =>
      cases kind with
      | call => exact .inr ⟨closeCall, opened, rfl, fun _ => rfl⟩
      | group => exact .inr ⟨closeGroup, opened, rfl, fun _ => rfl⟩
  | _ => exact .inr ⟨_, opened, rfl, fun _ => by simp only [markCallsFrom]⟩

/-- What marking does with the beginning of a list, whatever is behind it. -/
theorem markCallsFrom_append (opened : List Opened) (before : List Token) :
    (∃ e, ∀ after, markCallsFrom opened (before ++ after) = .error e) ∨
      ∃ marked next, marked.map unmark = before.map unmark ∧
        ∀ after, markCallsFrom opened (before ++ after) =
          (marked ++ ·) <$> markCallsFrom next after := by
  induction before generalizing opened with
  | nil => exact .inr ⟨[], opened, rfl, fun after => (id_map _).symm⟩
  | cons token before ih =>
    rcases markCallsFrom_cons opened token with ⟨e, herror⟩ | ⟨first, next, hfirst, hnext⟩
    · exact .inl ⟨e, fun after => herror (before ++ after)⟩
    · rcases ih next with ⟨e, herror⟩ | ⟨marked, left, hmarked, hleft⟩
      · refine .inl ⟨e, fun after => ?_⟩
        rw [List.cons_append, hnext, herror]
        rfl
      · refine .inr ⟨first :: marked, left, ?_, fun after => ?_⟩
        · rw [List.map_cons, List.map_cons, hfirst, hmarked]
        · rw [List.cons_append, hnext, hleft, ← comp_map]
          rfl

theorem markCallsFrom_spaces {spaces : List Token} (h : ∀ token ∈ spaces, token = .space)
    (opened : List Opened) (after : List Token) :
    markCallsFrom opened (spaces ++ after) = (spaces ++ ·) <$> markCallsFrom opened after := by
  induction spaces with
  | nil => exact (id_map _).symm
  | cons token spaces ih =>
    obtain ⟨rfl, hspaces⟩ := List.forall_mem_cons.mp h
    rw [List.cons_append, markCallsFrom, ih hspaces, ← comp_map]
    · rfl
    all_goals simp

/-- Marking changes nothing but marks. -/
theorem map_unmark_of_markCallsFrom {opened : List Opened} {tokens marked : List Token}
    (h : markCallsFrom opened tokens = .ok marked) : marked.map unmark = tokens.map unmark := by
  rw [← List.append_nil tokens] at h
  rcases markCallsFrom_append opened tokens with ⟨e, herror⟩ | ⟨found, next, hfound, hnext⟩
  · rw [herror] at h
    cases h
  · rw [hnext] at h
    obtain ⟨rest, hrest, rfl⟩ := Outcomes.map_eq_ok_iff.mp h
    obtain ⟨-, rfl⟩ := markCallsFrom_nil_eq_ok_iff.mp hrest
    rw [List.append_nil]
    exact hfound

/-- The ends of a list are of the same kind with any marks. -/
theorem any_ends_of_unmark {tokens others : List Token}
    (h : tokens.map unmark = others.map unmark) {p : Token → Bool}
    (hp : ∀ token, p (unmark token) = p token) :
    tokens.head?.any p = others.head?.any p ∧ tokens.getLast?.any p = others.getLast?.any p := by
  have hmarks : ∀ end? : Option Token, end?.any p = (end?.map unmark).any p := by
    intro end?
    cases end? with
    | none => rfl
    | some token => exact (hp token).symm
  rw [hmarks tokens.head?, hmarks others.head?, hmarks tokens.getLast?, hmarks others.getLast?,
    ← List.head?_map, ← List.head?_map, ← List.getLast?_map, ← List.getLast?_map, h]
  exact ⟨rfl, rfl⟩

end Token

/-! ## Reordering -/

namespace ReversePolish.Yard

/-- A step sees the next token that is no space, and only the parts of a number see whether it
is directly behind them. -/
theorem step_congr_of_find? {following other : List Token} {token : Token}
    (hfind : following.find? (fun token => !token.isSpace) =
      other.find? fun token => !token.isSpace)
    (hhead : token.isNumberPart →
      following.head?.any Token.startsFactor = other.head?.any Token.startsFactor ∧
        following.head?.any Token.isNumberPart = other.head?.any Token.isNumberPart)
    (yard : Yard) : yard.step token following = yard.step token other := by
  have hsign : yard.takeSign following = yard.takeSign other := by
    simp only [takeSign, hfind]
  by_cases hpart : token.isNumberPart
  · obtain ⟨hfactor, hnumber⟩ := hhead hpart
    exact step_congr ⟨hfactor, hnumber, by rw [hfind], by rw [hfind]⟩ yard token
  · cases token <;> first | exact absurd rfl hpart | simp only [step, take, hsign]

/-- Whether no number goes on from one list into the next, and none of the first list multiplies
what the next begins with. -/
def Loose (before after : List Token) : Prop :=
  before.getLast?.any Token.isNumberPart →
    after.head?.any Token.startsFactor = false ∧ after.head?.any Token.isNumberPart = false

theorem Loose.tail {token : Token} {before after : List Token} (h : Loose (token :: before) after) :
    Loose before after := by
  cases before with
  | nil => exact fun hlast => nomatch hlast
  | cons next before => exact h

/-- Marks make no difference to numbers. -/
theorem Loose.of_unmark {before after before' after' : List Token} (h : Loose before after)
    (hbefore : before'.map Token.unmark = before.map Token.unmark)
    (hafter : after'.map Token.unmark = after.map Token.unmark) : Loose before' after' := by
  unfold Loose
  rw [(Token.any_ends_of_unmark hbefore Token.isNumberPart_unmark).2,
    (Token.any_ends_of_unmark hafter Token.startsFactor_unmark).1,
    (Token.any_ends_of_unmark hafter Token.isNumberPart_unmark).1]
  exact h

/-- Spaces make no difference, but for those between the parts of a number or behind a number
that multiplies the next token. -/
theorem run_insert {spaces : List Token} (hspaces : ∀ token ∈ spaces, token = .space)
    {before after : List Token} (h : Loose before after) (yard : Yard) :
    yard.run (before ++ (spaces ++ after)) = yard.run (before ++ after) := by
  induction before generalizing yard with
  | nil => exact run_spaces hspaces yard after
  | cons token before ih =>
    have hstep : yard.step token (before ++ (spaces ++ after)) =
        yard.step token (before ++ after) := by
      apply step_congr_of_find?
      · rw [List.find?_append, find?_spaces hspaces, ← List.find?_append]
      · intro hpart
        cases before with
        | cons next before => exact ⟨rfl, rfl⟩
        | nil =>
          obtain ⟨hfactor, hnumber⟩ := h hpart
          cases spaces with
          | nil => exact ⟨rfl, rfl⟩
          | cons first spaces =>
            obtain ⟨rfl, -⟩ := List.forall_mem_cons.mp hspaces
            exact ⟨hfactor.symm, hnumber.symm⟩
    rw [List.cons_append, List.cons_append, run, run, hstep]
    cases yard.step token (before ++ after) with
    | error e => rfl
    | ok next => exact ih h.tail next

end ReversePolish.Yard

/-! ## Texts -/

/-- Whether the second of two tokens has to stand directly behind the first one to be read as it
is: between the parts of a number, a number and the factor it multiplies, and a function and its
parenthesis. -/
def Token.holds : Token → Token → Bool
  | .fn .., .openCall => true
  | token, next => token.isNumberPart && (next.isNumberPart || next.startsFactor)

/-- The last token of the first part of a text is no function, unless a parenthesis holds it. -/
theorem Spells.isFn_getLast? {cs : List Char} {before after : List Token}
    (h : Spells cs (before ++ after))
    (hholds : ∀ token ∈ before.getLast?, ∀ next ∈ after.head?, token.holds next = false) :
    ∀ token ∈ before.getLast?, token.isFn = false := by
  intro token htoken
  cases token with
  | fn f arg =>
    obtain ⟨init, rfl⟩ := List.getLast?_eq_some_iff.mp htoken
    have hopen : after.head? = some .openCall := by
      have hnext := (h.callsOpened.2 init.length).mp ⟨f, arg, by simp⟩
      rwa [List.getElem?_append_right (by simp), List.length_append, List.length_singleton,
        Nat.sub_self, ← List.head?_eq_getElem?] at hnext
    cases hholds _ htoken _ hopen
  | _ => rfl

/-- What does not hold together is no number and what belongs to it. -/
theorem Token.loose_of_holds {before after : List Token}
    (h : ∀ token ∈ before.getLast?, ∀ next ∈ after.head?, token.holds next = false) :
    Yard.Loose before after := by
  intro hpart
  cases hlast : before.getLast? with
  | none => simp [hlast] at hpart
  | some token =>
    have htoken : token.isNumberPart := by simpa [hlast] using hpart
    cases hfirst : after.head? with
    | none => exact ⟨rfl, rfl⟩
    | some next =>
      have hnext : token.holds next = (next.isNumberPart || next.startsFactor) := by
        cases token <;> first | rfl | cases htoken
      have happart := h token hlast next hfirst
      rw [hnext, Bool.or_eq_false_iff] at happart
      exact happart.symm

/-- The text of a row of white space. -/
def Grammar.Blanks.text (blanks : Grammar.Blanks) : String := String.ofList blanks.chars

/-- White space is not changed by marking. -/
theorem Grammar.Blanks.spells_text (blanks : Grammar.Blanks) :
    Spells blanks.text.toList blanks.tokens := by
  have hunmark : blanks.tokens.map Token.unmark = blanks.tokens := by
    rw [tokens, List.map_map]
    rfl
  rw [text, String.toList_ofList, ← hunmark]
  exact blanks.spells

namespace Formula

/-- What a list of tokens is read as: the tokens in reverse Polish order, and their expression. -/
def arrange (tokens : List Token) : Except ReadError (List Token × Expr) := do
  let apart ← ofInfix tokens
  let joined ← joinDigits apart
  let root ← Expr.ofTokens joined
  .ok (joined, root)

/-- What a text is read as, but for the text itself. -/
def outcome (text : String) : Except ReadError (List Token × Expr) :=
  (fun formula => (formula.tokens, formula.root)) <$> Formula.read text

/-- The outcome is that of the tokens of the text. -/
theorem outcome_of_spells {text : String} {tokens : List Token}
    (h : Spells text.toList tokens) : outcome text = Token.markCalls tokens >>= arrange := by
  have hitems : (Lexer.ofText standardNames text).items.mapM id = .ok tokens :=
    Lexer.items_of_spells h
  have htokens : (Lexer.ofText standardNames text).tokens = Token.markCalls tokens := by
    rw [Lexer.tokens, hitems]
    rfl
  rw [outcome, Formula.read, readWith, htokens]
  simp only [map_bind]
  rfl

/-- Spaces that part no number from what belongs to it are arranged away. -/
theorem arrange_insert {spaces : List Token} (hspaces : ∀ token ∈ spaces, token = .space)
    {before after : List Token} (h : Yard.Loose before after) :
    Token.markCalls (before ++ (spaces ++ after)) >>= arrange =
      Token.markCalls (before ++ after) >>= arrange := by
  rw [Token.markCalls, Token.markCalls]
  rcases Token.markCallsFrom_append [] before with ⟨e, herror⟩ | ⟨marked, next, hmarked, hnext⟩
  · rw [herror, herror]
  · rw [hnext, hnext, Token.markCallsFrom_spaces hspaces]
    cases hbehind : Token.markCallsFrom next after with
    | error e => rfl
    | ok behind =>
      have hloose := h.of_unmark hmarked (Token.map_unmark_of_markCallsFrom hbehind)
      have hinfix : ofInfix (marked ++ (spaces ++ behind)) = ofInfix (marked ++ behind) := by
        rw [ofInfix, ofInfix, Yard.run_insert hspaces hloose]
      change arrange (marked ++ (spaces ++ behind)) = arrange (marked ++ behind)
      rw [arrange, arrange, hinfix]

/-- White space between two tokens makes no difference, unless they hold together: a text that
can be read is read as the same, and one that cannot is refused for the same reason. -/
theorem outcome_insert {text : String} {before after : List Token}
    (hitems : (Lexer.ofText standardNames text).items = (before ++ after).map .ok)
    (hholds : ∀ token ∈ before.getLast?, ∀ next ∈ after.head?, token.holds next = false) :
    (∃ left right, text = left ++ right ∧
      (Lexer.ofText standardNames left).items = before.map .ok) ∧
    ∀ left right, text = left ++ right →
      (Lexer.ofText standardNames left).items = before.map .ok →
      ∀ blanks : Grammar.Blanks, outcome (left ++ blanks.text ++ right) = outcome text := by
  have hspells : Spells text.toList (before ++ after) :=
    Lexer.spells_of_items (mapM_id_eq_ok_iff.mpr hitems)
  constructor
  · obtain ⟨left, right, htext, hleft, -⟩ := hspells.exists_append (hspells.isFn_getLast? hholds)
    refine ⟨String.ofList left, String.ofList right, ?_, ?_⟩
    · rw [← String.ofList_append, ← htext, String.ofList_toList]
    · exact mapM_id_eq_ok_iff.mp (Lexer.items_of_spells (String.toList_ofList ▸ hleft))
  · intro left right htext hbefore blanks
    have hleft : Spells left.toList before :=
      Lexer.spells_of_items (mapM_id_eq_ok_iff.mpr hbefore)
    have happend : Spells (left.toList ++ right.toList) (before ++ after) := by
      rw [← String.toList_append, ← htext]
      exact hspells
    obtain ⟨after', hafter', hright⟩ := hleft.of_append happend
    obtain rfl := List.append_cancel_left hafter'
    have hinserted : Spells (left ++ blanks.text ++ right).toList
        (before ++ (blanks.tokens ++ after)) := by
      rw [String.toList_append, String.toList_append, List.append_assoc]
      exact hleft.append (blanks.spells_text.append hright)
    rw [outcome_of_spells hspells, outcome_of_spells hinserted]
    exact arrange_insert (fun _ => Grammar.Blanks.eq_space_of_mem) (Token.loose_of_holds hholds)

/-- A sign looks over the white space behind it. -/
theorem outcome_insert_sign :
    let before : List Token := [.operator .sub]
    let after : List Token := [.fn .sin [], .openCall, .digit 2, .var, .closeGroup]
    let blanks : Grammar.Blanks :=
      ⟨['\u2003', '\n'], List.forall_mem_cons.mpr ⟨rfl, List.forall_mem_singleton.mpr rfl⟩⟩
    ((Lexer.ofText standardNames "-sin(2x)").items = (before ++ after).map .ok ∧
      ∀ token ∈ before.getLast?, ∀ next ∈ after.head?, token.holds next = false) ∧
    outcome ("-" ++ blanks.text ++ "sin(2x)") = outcome "-sin(2x)" ∧
      (outcome "-sin(2x)").isOk := by
  intro before after blanks
  have hspells : Spells "-sin(2x)".toList (before ++ after) :=
    .single rfl (.call .sin (.single rfl (.single rfl (.single rfl .nil))))
  have hitems := mapM_id_eq_ok_iff.mp (Lexer.items_of_spells hspells)
  have hleft : Spells "-".toList before := .single rfl .nil
  have hbefore := mapM_id_eq_ok_iff.mp (Lexer.items_of_spells hleft)
  have hholds : ∀ token ∈ before.getLast?, ∀ next ∈ after.head?, token.holds next = false := by
    simp [before, after, Token.holds, Token.isNumberPart]
  refine ⟨⟨hitems, hholds⟩, ?_, by decide +kernel⟩
  exact (outcome_insert hitems hholds).2 "-" "sin(2x)" rfl hbefore blanks

end Formula

end Calculator

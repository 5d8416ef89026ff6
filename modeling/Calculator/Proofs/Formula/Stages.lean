import Calculator.Formula.Basic
import Calculator.Proofs.Lexer.Spelling
import Calculator.Proofs.ReversePolish.Outputs

/-!
# The stages of a formula that is read

`Formula.readWith_eq_ok_iff` names what the stages between a text and its expression
give, if all of them succeed.  Two things are known then without a look at the stages
again.

* The tokens come from a text, so none of them is a sign or a literal, whichever table
  the text is read with (`Lexer.isRead_of_mem`).
* The numbers in reverse Polish order are numbers that can be read
  (`Formula.joined_of_readWith`).
-/

namespace Calculator

open Outcomes (bind_eq_ok_iff)
open ReversePolish (Joined Yard joinDigits joined_ofInfix ofInfix)

namespace Lexer

variable {M : Type → Type} [NameTable M]

/-- With any table, the lexer gives no sign and no literal. -/
theorem Reads.isRead {names : M Fn} {cs : List Char} {read : List Token}
    (h : Reads names cs read) {token : Token} (hmem : token ∈ read) : Yard.isRead token := by
  have hkind := h.isSingle_or_of_mem hmem
  cases token <;> first | rfl | simp [Token.isSingle, Token.isFn] at hkind

/-- The tokens of a text are none but those that can be read. -/
theorem isRead_of_mem {names : M Fn} {text : String} {tokens : List Token}
    (h : (Lexer.ofText names text).tokens = .ok tokens) :
    ∀ token ∈ tokens, Yard.isRead token := by
  obtain ⟨hreads, -⟩ := tokens_iff_reads.mp h
  intro token hmem
  have htoken : Yard.isRead token.unmark := hreads.isRead (List.mem_map_of_mem hmem)
  cases token <;> first | rfl | exact htoken

/-- No text has a sign among its tokens: a `-` is an operator. -/
theorem negative_not_mem {names : M Fn} {text : String} {tokens : List Token}
    (h : (Lexer.ofText names text).tokens = .ok tokens) : Token.negative ∉ tokens := by
  intro hmem
  exact Bool.false_ne_true (isRead_of_mem h _ hmem)

end Lexer

theorem Spells.isRead_of_mem {cs : List Char} {tokens : List Token} (h : Spells cs tokens) :
    ∀ token ∈ tokens, Yard.isRead token :=
  fun _ => (Lexer.reads_standardNames_iff.mpr h).isRead

namespace Formula

variable {M : Type → Type} [NameTable M]

/-- What every stage gives, if a text is read. -/
theorem readWith_eq_ok_iff {names : M Fn} {text : String} {formula : Formula} :
    Formula.readWith names text = .ok formula ↔
      ∃ tokens apart, (Lexer.ofText names text).tokens = .ok tokens ∧
        ofInfix tokens = .ok apart ∧ joinDigits apart = .ok formula.tokens ∧
        Expr.ofTokens formula.tokens = .ok formula.root ∧ formula.text = text := by
  unfold Formula.readWith
  constructor
  · intro h
    obtain ⟨tokens, htokens, h⟩ := bind_eq_ok_iff.mp h
    obtain ⟨apart, hapart, h⟩ := bind_eq_ok_iff.mp h
    obtain ⟨joined, hjoined, h⟩ := bind_eq_ok_iff.mp h
    obtain ⟨root, hroot, h⟩ := bind_eq_ok_iff.mp h
    cases h
    exact ⟨tokens, apart, htokens, hapart, hjoined, hroot, rfl⟩
  · intro h
    obtain ⟨tokens, apart, htokens, hapart, hjoined, hroot, rfl⟩ := h
    refine bind_eq_ok_iff.mpr ⟨tokens, htokens, ?_⟩
    refine bind_eq_ok_iff.mpr ⟨apart, hapart, ?_⟩
    refine bind_eq_ok_iff.mpr ⟨formula.tokens, hjoined, ?_⟩
    exact bind_eq_ok_iff.mpr ⟨formula.root, hroot, rfl⟩

theorem read_eq_ok_iff {text : String} {formula : Formula} :
    Formula.read text = .ok formula ↔
      ∃ tokens apart, (Lexer.ofText standardNames text).tokens = .ok tokens ∧
        ofInfix tokens = .ok apart ∧ joinDigits apart = .ok formula.tokens ∧
        Expr.ofTokens formula.tokens = .ok formula.root ∧ formula.text = text :=
  readWith_eq_ok_iff

/-- The literals of a formula that is read are the numbers of its text. -/
theorem joined_of_readWith {names : M Fn} {text : String} {formula : Formula}
    (h : Formula.readWith names text = .ok formula) :
    ∃ tokens apart, (Lexer.ofText names text).tokens = .ok tokens ∧
      ofInfix tokens = .ok apart ∧ Joined apart formula.tokens ∧
      Expr.ofTokens formula.tokens = .ok formula.root := by
  obtain ⟨tokens, apart, htokens, hapart, hjoined, hroot, -⟩ := readWith_eq_ok_iff.mp h
  have hnegative := Lexer.negative_not_mem htokens
  exact ⟨tokens, apart, htokens, hapart, joined_ofInfix hapart hnegative hjoined, hroot⟩

theorem joined_of_read {text : String} {formula : Formula} (h : Formula.read text = .ok formula) :
    ∃ tokens apart, (Lexer.ofText standardNames text).tokens = .ok tokens ∧
      ofInfix tokens = .ok apart ∧ Joined apart formula.tokens ∧
      Expr.ofTokens formula.tokens = .ok formula.root :=
  joined_of_readWith h

end Formula

end Calculator

import Calculator.Expr.OfTokens
import Calculator.Proofs.ReversePolish.Numbers

/-!
# The reverse Polish order of an expression

An expression is written in reverse Polish order with its operands in front of each
operator.

* `Expr.apart` has the numbers as rows of digits, as they come out of the yard, and
  `Expr.postOrder` has them as literals.
* `Expr.joined_apart`: joining goes from one to the other, if all numerals are plain
  numbers (`Expr.IsPlain`).
* `Expr.ofTokens_postOrder`: reading goes back to the expression, and
  `Expr.postOrder_of_ofTokens`: nothing else is read as it.
* `Expr.ofTokens_inverts_postOrder`: every list is read as the expression whose reverse
  Polish order it is, and refused if there is none.
-/

namespace Calculator

open ReversePolish (Joined)

namespace Expr

/-- An expression in reverse Polish order, with its numbers as digits that are set apart. -/
def apart : Expr → List Token
  | numeral n => n.tokens ++ [.space]
  | constant c => [.constant c]
  | var => [.var]
  | binary op left right => left.apart ++ right.apart ++ [.operator op]
  | call f arg => [.fn f arg.apart]

/-- An expression in reverse Polish order. -/
def postOrder : Expr → List Token
  | numeral n => [.literal n]
  | constant c => [.constant c]
  | var => [.var]
  | binary op left right => left.postOrder ++ right.postOrder ++ [.operator op]
  | call f arg => [.fn f arg.postOrder]

/-- Whether every numeral of an expression is a plain number, perhaps with a sign. -/
def IsPlain : Expr → Prop
  | numeral n => ∃ m : SignedNumber, n = m.numeral
  | constant _ | var => True
  | binary _ left right => left.IsPlain ∧ right.IsPlain
  | call _ arg => arg.IsPlain

/-- The digits of an expression are joined to its numerals. -/
theorem joined_apart {e : Expr} (h : e.IsPlain) : Joined e.apart e.postOrder := by
  induction e with
  | numeral n =>
    obtain ⟨m, rfl⟩ := h
    rw [apart, postOrder, m.tokens_numeral]
    exact .number m .nil
  | constant _ => exact .symbol rfl .nil
  | var => exact .symbol rfl .nil
  | binary op left right ihleft ihright =>
    have hoperands := (ihleft h.1).append (ihright h.2)
    exact hoperands.append (.symbol rfl .nil)
  | call f arg ih => exact .fn f (ih h) .nil

/-! ## Reading -/

theorem ofTokens_eq_ok_iff {tokens : List Token} {root : Expr} :
    ofTokens tokens = .ok root ↔ pushTokens [] tokens = .ok [root] := by
  unfold ofTokens
  constructor
  · intro h
    split at h
    · rename_i hstack
      cases h
      exact hstack
    · cases h
  · intro h
    rw [h]

/-- An expression in reverse Polish order puts itself on the stack. -/
theorem pushTokens_postOrder (e : Expr) (stack : List Expr) (rest : List Token) :
    pushTokens stack (e.postOrder ++ rest) = pushTokens (e :: stack) rest := by
  induction e generalizing stack rest with
  | numeral n => rfl
  | constant c => rfl
  | var => rfl
  | binary op left right ihleft ihright =>
    rw [postOrder, List.append_assoc, List.append_assoc, ihleft, ihright]
    rfl
  | call f arg ih =>
    have harg : pushTokens [] arg.postOrder = .ok [arg] := by
      have hstack := ih [] []
      rw [List.append_nil] at hstack
      exact hstack
    have hpush : pushToken stack (.fn f arg.postOrder) = .ok (call f arg :: stack) := by
      rw [pushToken, harg]
    rw [postOrder, List.singleton_append, pushTokens, hpush]

/-- Reading an expression in reverse Polish order gives it back. -/
theorem ofTokens_postOrder (e : Expr) : ofTokens e.postOrder = .ok e := by
  have hstack := pushTokens_postOrder e [] []
  rw [List.append_nil] at hstack
  exact ofTokens_eq_ok_iff.mpr hstack

mutual

/-- A token is all that is new in the reverse Polish order of the stack. -/
theorem postOrder_pushToken : (token : Token) → {stack after : List Expr} →
    pushToken stack token = .ok after →
    after.reverse.flatMap postOrder = stack.reverse.flatMap postOrder ++ [token]
  | .literal m, _, _, h => by
    cases h
    simp [postOrder]
  | .constant c, _, _, h => by
    cases h
    simp [postOrder]
  | .var, _, _, h => by
    cases h
    simp [postOrder]
  | .operator op, stack, _, h => by
    rcases stack with _ | ⟨right, _ | ⟨left, stack⟩⟩
    · cases h
    · cases h
    · cases h
      simp [postOrder]
  | .fn f arg, stack, _, h => by
    rw [pushToken] at h
    split at h
    · rename_i e harg
      cases h
      have hargument := postOrder_pushTokens arg harg
      have hpost : e.postOrder = arg := by simpa using hargument
      simp [postOrder, hpost]
    · cases h
  | .digit _, _, _, h | .point, _, _, h | .negative, _, _, h | .space, _, _, h
  | .openGroup, _, _, h | .closeGroup, _, _, h | .openCall, _, _, h | .closeCall, _, _, h => by
    cases h

theorem postOrder_pushTokens : (tokens : List Token) → {stack after : List Expr} →
    pushTokens stack tokens = .ok after →
    after.reverse.flatMap postOrder = stack.reverse.flatMap postOrder ++ tokens
  | [], _, _, h => by
    cases h
    rw [List.append_nil]
  | token :: tokens, stack, _, h => by
    rw [pushTokens] at h
    split at h
    · rename_i next hnext
      rw [postOrder_pushTokens tokens h, postOrder_pushToken token hnext, List.append_assoc,
        List.singleton_append]
    · cases h

end

/-- A list is read as an expression only if it is its reverse Polish order. -/
theorem postOrder_of_ofTokens {tokens : List Token} {root : Expr}
    (h : ofTokens tokens = .ok root) : root.postOrder = tokens := by
  have hstack := postOrder_pushTokens tokens (ofTokens_eq_ok_iff.mp h)
  simpa using hstack

/-- A list that is no expression is refused for this reason alone, whatever is wrong in it. -/
theorem eq_malformed_of_ofTokens {tokens : List Token} {e : ReadError}
    (h : ofTokens tokens = .error e) : e = .malformed := by
  unfold ofTokens at h
  split at h
  · cases h
  · cases h
    rfl

/-- Reading inverts reverse Polish order: an expression is read from its own reverse Polish order
and from nothing else, and every list that is the order of no expression is refused.  So is a list
with a function in it whose argument is no expression, since no order has such a token. -/
theorem ofTokens_inverts_postOrder (tokens : List Token) :
    (∀ root, ofTokens tokens = .ok root ↔ tokens = root.postOrder) ∧
      ∀ e, ofTokens tokens = .error e ↔ e = .malformed ∧ ∀ root, tokens ≠ postOrder root := by
  have hok : ∀ root, ofTokens tokens = .ok root ↔ tokens = root.postOrder := by
    intro root
    constructor
    · intro h
      exact (postOrder_of_ofTokens h).symm
    · rintro rfl
      exact ofTokens_postOrder root
  refine ⟨hok, ?_⟩
  intro e
  constructor
  · intro h
    refine ⟨eq_malformed_of_ofTokens h, ?_⟩
    intro root hroot
    rw [(hok root).mpr hroot] at h
    cases h
  · rintro ⟨rfl, hnone⟩
    cases hread : ofTokens tokens with
    | ok root => exact absurd ((hok root).mp hread) (hnone root)
    | error e => rw [eq_malformed_of_ofTokens hread]

end Expr

end Calculator

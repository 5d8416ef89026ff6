import Calculator.Proofs.Lexer.Language
import Mathlib.Logic.Function.Iterate

/-!
# How much a lexer has still to give

`Lexer.bounds` says without reading on how many items are still to come: a parenthesis that
is owed is one of them, and every byte of the text can be one more at most.

* `Lexer.next?_cases` says everything that a call can do.
* `Lexer.bounds_lt_of_next?`: every item lowers the greater bound.  What is left of a text is
  always its end (`Lexer.suffix_of_first?`), so that a token that takes so many characters
  takes at least as many bytes.
* `Lexer.length_items_le` and `Lexer.le_length_items`: the items to come are between the
  bounds, whatever the lexer is.
* `Lexer.items_iterate_after`: calls take the items off from the front.

`Lexer.bounds_hold` puts this together for a lexer that has been asked any number of times.
-/

namespace Calculator

open Text (byteLength byteLength_append splitAt?_eq_some_iff)

/-- Every character has at least one byte. -/
theorem Text.length_le_byteLength (cs : List Char) : cs.length ≤ byteLength cs := by
  induction cs with
  | nil => exact Nat.le_refl 0
  | cons c cs ih =>
    have := c.utf8Size_pos
    rw [List.length_cons, byteLength_cons]
    omega

namespace Lexer

variable {M : Type → Type} [NameTable M]

/-! ## What a token takes -/

theorem suffix_of_name? {names : M Fn} {text rest : List Char} {f : Fn}
    (h : name? names text = .ok (f, rest)) : rest <:+ text := by
  obtain ⟨name, -, rfl, -⟩ := name?_eq_ok_iff.mp h
  exact (List.suffix_cons _ _).trans (List.suffix_append _ _)

/-- What is left behind the first token is the end of the text. -/
theorem suffix_of_first? {names : M Fn} {c : Char} {cs rest : List Char} {token : Token}
    (h : first? names c cs = .ok (token, rest)) : rest <:+ c :: cs := by
  rcases first?_eq_ok_iff.mp h with ⟨-, rfl⟩ | ⟨-, rfl, -⟩ | ⟨f, -, hname, -⟩
  · exact List.suffix_cons c cs
  · exact (List.suffix_cons _ _).trans (List.suffix_cons _ _)
  · exact suffix_of_name? hname

/-- The first token takes at least one byte, and a function at least two. -/
theorem byteLength_lt_of_first? {names : M Fn} {c : Char} {cs rest : List Char} {token : Token}
    (h : first? names c cs = .ok (token, rest)) :
    byteLength rest + token.isFn.toNat < byteLength (c :: cs) := by
  have hlength := length_lt_of_first? h
  obtain ⟨taken, htaken⟩ := suffix_of_first? h
  rw [← htaken] at hlength ⊢
  have hbytes := Text.length_le_byteLength taken
  rw [List.length_append] at hlength
  rw [byteLength_append]
  omega

/-! ## One call -/

/-- What a lexer gives: the parenthesis that it owes, the first token of the text, or the error
that ends it. -/
theorem next?_cases {lexer after : Lexer M} {item : Except ReadError Token}
    (h : lexer.next? = some (item, after)) :
    (lexer.owesCall = true ∧ item = .ok .openCall ∧
        after = ⟨lexer.names, lexer.rest, false⟩) ∨
      ∃ c cs, lexer.owesCall = false ∧ lexer.rest = c :: cs ∧
        ((∃ token rest, first? lexer.names c cs = .ok (token, rest) ∧ item = .ok token ∧
            after = ⟨lexer.names, rest, token.isFn⟩) ∨
          ∃ e, first? lexer.names c cs = .error e ∧ item = .error e ∧
            after = ⟨lexer.names, [], false⟩) := by
  unfold next? at h
  split at h
  · rename_i howes
    cases h
    exact .inl ⟨howes, rfl, rfl⟩
  · rename_i howes
    rw [Bool.not_eq_true] at howes
    split at h
    · cases h
    · rename_i c cs hrest
      split at h
      · rename_i token rest hfirst
        cases h
        exact .inr ⟨c, cs, howes, hrest, .inl ⟨token, rest, hfirst, rfl, rfl⟩⟩
      · rename_i e hfirst
        cases h
        exact .inr ⟨c, cs, howes, hrest, .inr ⟨e, hfirst, rfl, rfl⟩⟩

/-- Every item lowers the greater bound. -/
theorem bounds_lt_of_next? {lexer after : Lexer M} {item : Except ReadError Token}
    (h : lexer.next? = some (item, after)) : after.bounds.2 < lexer.bounds.2 := by
  unfold bounds
  rcases next?_cases h with
    ⟨howes, -, rfl⟩ |
      ⟨c, cs, howes, hrest, ⟨token, rest, hfirst, -, rfl⟩ | ⟨e, -, -, rfl⟩⟩
  · simp [howes]
  · rw [howes, hrest]
    exact byteLength_lt_of_first? hfirst
  · have := c.utf8Size_pos
    rw [howes, hrest, Text.byteLength_cons]
    simp
    omega

/-- Behind an error there is nothing. -/
theorem next?_eq_none_of_error {lexer after : Lexer M} {e : ReadError}
    (h : lexer.next? = some (.error e, after)) : after.next? = none := by
  rcases next?_cases h with
    ⟨-, hitem, -⟩ | ⟨c, cs, -, -, ⟨token, rest, -, hitem, -⟩ | ⟨e, -, -, rfl⟩⟩
  · cases hitem
  · cases hitem
  · rfl

/-! ## All items to come -/

theorem length_items_le (lexer : Lexer M) : lexer.items.length ≤ lexer.bounds.2 := by
  induction hn : lexer.bounds.2 using Nat.strongRecOn generalizing lexer with
  | _ n ih =>
  subst hn
  cases hnext : lexer.next? with
  | none =>
    rw [items_of_next?_eq_none hnext]
    exact Nat.zero_le _
  | some found =>
    obtain ⟨item, after⟩ := found
    have hlt := bounds_lt_of_next? hnext
    rw [items_of_next? hnext, List.length_cons]
    exact Nat.lt_of_le_of_lt (ih after.bounds.2 hlt after rfl) hlt

/-- A parenthesis that is owed is still to come. -/
theorem le_length_items (lexer : Lexer M) : lexer.bounds.1 ≤ lexer.items.length := by
  obtain ⟨names, cs, owesCall⟩ := lexer
  cases owesCall with
  | false => exact Nat.zero_le _
  | true =>
    rw [items_owed, List.length_cons]
    exact Nat.succ_le_succ (Nat.zero_le _)

theorem items_after (lexer : Lexer M) : lexer.after.items = lexer.items.tail := by
  rw [after]
  cases hnext : lexer.next? with
  | none => rw [items_of_next?_eq_none hnext]; rfl
  | some found => rw [items_of_next? hnext]; rfl

/-- A lexer that has been asked for some items has all others still to give. -/
theorem items_iterate_after (lexer : Lexer M) (calls : Nat) :
    (after^[calls] lexer).items = lexer.items.drop calls := by
  induction calls generalizing lexer with
  | zero => rfl
  | succ calls ih => rw [Function.iterate_succ_apply, ih, items_after, List.drop_tail]

/-- A lexer that has been asked any number of times goes on where it has stopped.  It still gives
a number of items that is between its bounds, and then nothing any more.  Every item lowers the
greater bound, and nothing comes behind an error. -/
theorem bounds_hold (names : M Fn) (text : String) (calls : Nat) :
    let lexer := after^[calls] (ofText names text)
    (∀ n, lexer.nth? n = (ofText names text).nth? (calls + n)) ∧
      (∃ count, (∀ n, (lexer.nth? n).isSome ↔ n < count) ∧
          lexer.bounds.1 ≤ count ∧ count ≤ lexer.bounds.2) ∧
      (lexer.next?.isSome → lexer.after.bounds.2 < lexer.bounds.2) ∧
      (∀ e, lexer.nth? 0 = some (.error e) → lexer.nth? 1 = none) ∧
      (lexer.next? = none → ∀ n, lexer.nth? n = none) := by
  intro lexer
  refine ⟨?_, ⟨lexer.items.length, ?_, lexer.le_length_items, lexer.length_items_le⟩, ?_, ?_, ?_⟩
  · intro n
    rw [nth?_eq, nth?_eq, items_iterate_after, List.getElem?_drop]
  · intro n
    rw [nth?_eq, isSome_getElem?]
  · intro hsome
    obtain ⟨⟨item, next⟩, hnext⟩ := Option.isSome_iff_exists.mp hsome
    rw [after, hnext]
    exact bounds_lt_of_next? hnext
  · intro e he
    obtain ⟨⟨item, next⟩, hnext, rfl⟩ := Option.map_eq_some_iff.mp he
    rw [nth?, nth?, after, hnext, next?_eq_none_of_error hnext]
    rfl
  · intro hnone n
    rw [nth?_eq, items_of_next?_eq_none hnone, List.getElem?_nil]

end Lexer

end Calculator

import Calculator.Proofs.Formula.Parenthesized
import Calculator.Proofs.Grammar.Descent
import Calculator.Proofs.Grammar.Reading

/-!
# Which sentences are formulas

The grammar lets a sign stand directly behind another one, as in `--5`, but no such
sentence is read: the first sign finds no operand behind it, so it is taken for an operator
and has no operand on its left.  That is all that can be wrong with a sentence.

* `Sentence.readsAs_tree`: a sentence in which signs stand apart is read.
* `Factor.signsApart_of_placed`, `Term.signsApart_of_placed` and
  `Row.signsApart_of_placed` follow the derivation of a sentence whose tokens are all in
  their places.  A sign in front of another one is out of its place.
* `Term.negation` is what a term with a sign in front of it stands for.

`isOk_read_iff_signsApart` puts this together, for sentences and for terms that are
negated.
-/

namespace Calculator

namespace Formula.ReadsAs

variable {text : String} {root other : Expr}

theorem isOk (h : ReadsAs text root) : (Formula.read text).isOk := by
  obtain ⟨formula, hread, -⟩ := h
  rw [hread]
  rfl

/-- A text is read in one way only. -/
theorem unique (h : ReadsAs text root) (hother : ReadsAs text other) : root = other := by
  obtain ⟨formula, hread, rfl⟩ := h
  obtain ⟨formula', hread', rfl⟩ := hother
  rw [hread] at hread'
  cases hread'
  rfl

end Formula.ReadsAs

namespace Grammar

open Formula (ReadsAs readsAs_of_written)
open ReversePolish (Yard)

/-! ## Sentences that are read -/

/-- A sentence in which signs stand apart is read as its tree. -/
theorem Sentence.readsAs_tree (s : Sentence) (h : s.signsApart) : ReadsAs s.text s.tree := by
  have hplain : s.tree.IsPlain :=
    isPlain_parse s.row.isPlain_operands.1 s.row.isPlain_operands.2
  have hspells := (s.before.spells.append s.row.spells).append s.after.spells
  rw [← List.map_append, ← List.map_append] at hspells
  have hbalanced := (s.before.balanced.append s.row.balanced).append s.after.balanced
  exact readsAs_of_written String.toList_ofList ⟨hspells, hbalanced, Expr.joined_apart hplain⟩
    (Row.ofInfix_of_run (Row.run s.row h) s.before s.after)

/-! ## Tokens in their places -/

variable {place : Place} {token : Token} {rest : List Token}

theorem wellPlaced_cons (h : wellPlaced place (token :: rest)) :
    place.fits token rest ∧ wellPlaced (place.next token) rest := by
  rw [wellPlaced, Bool.and_eq_true, Bool.and_eq_true] at h
  exact ⟨h.1.2, h.2⟩

/-- White space keeps the place in front of it, unless that is behind a number. -/
theorem wellPlaced_of_blanks {blanks : Blanks} (hplace : place.next .space = place)
    (h : wellPlaced place (blanks.tokens ++ rest)) : wellPlaced place rest := by
  unfold Blanks.tokens at h
  generalize blanks.chars = chars at h
  induction chars with
  | nil => exact h
  | cons c chars ih =>
    have hnext := (wellPlaced_cons h).2
    rw [hplace] at hnext
    exact ih hnext

/-- What is known of the tokens behind an operand, which may be a number. -/
def Settled (rest : List Token) : Prop := wellPlaced .number rest ∨ wellPlaced .behind rest

theorem Settled.of_blanks {blanks : Blanks} (h : Settled (blanks.tokens ++ rest)) :
    Settled rest := by
  rcases h with hnumber | hbehind
  · obtain ⟨chars, isBlank⟩ := blanks
    cases chars with
    | nil => exact .inl hnumber
    | cons c chars =>
      -- The first space ends the number.
      let more : Blanks := ⟨chars, fun d hd => isBlank d (List.mem_cons_of_mem c hd)⟩
      have hbehind : wellPlaced .behind (more.tokens ++ rest) := (wellPlaced_cons hnumber).2
      exact .inr (wellPlaced_of_blanks rfl hbehind)
  · exact .inr (wellPlaced_of_blanks rfl hbehind)

/-- An operator or a closing bracket does not distinguish between operands. -/
theorem Settled.next (h : Settled (token :: rest))
    (hnext : ∀ operand : Place, operand.next token = place) : wellPlaced place rest := by
  rcases h with hplaced | hplaced <;>
    · have hrest := (wellPlaced_cons hplaced).2
      rwa [hnext] at hrest

/-- A sign is not taken for the beginning of an operand. -/
theorem Term.operandAhead_of_isNegated {t : Term} (h : t.isNegated) (blanks : Blanks) :
    Place.operandAhead (blanks.tokens ++ (t.tokens ++ rest)) = false := by
  cases t with
  | negated more t =>
    rw [Place.operandAhead, Yard.find?_spaces fun _ => Blanks.eq_space_of_mem]
    rfl
  | _ => cases h

mutual

theorem Factor.signsApart_of_placed : (a : Factor) → {place : Place} → {rest : List Token} →
    wellPlaced place (a.tokens ++ rest) → a.signsApart ∧ wellPlaced .behind rest
  | .var, _, _, h => ⟨rfl, (wellPlaced_cons h).2⟩
  | .constant _, _, _, h => ⟨rfl, (wellPlaced_cons h).2⟩
  | .group before row after, _, _, h => by
    rw [Factor.tokens] at h
    simp only [List.append_assoc, List.cons_append, List.nil_append] at h
    have hbody := wellPlaced_of_blanks rfl (wellPlaced_cons h).2
    obtain ⟨hsigns, hrest⟩ := Row.signsApart_of_placed row hbody
    exact ⟨hsigns, hrest.of_blanks.next fun _ => rfl⟩
  | .call f before row after, _, _, h => by
    rw [Factor.tokens] at h
    simp only [List.append_assoc, List.cons_append, List.nil_append] at h
    have hopen := (wellPlaced_cons (wellPlaced_cons h).2).2
    have hbody := wellPlaced_of_blanks rfl hopen
    obtain ⟨hsigns, hrest⟩ := Row.signsApart_of_placed row hbody
    exact ⟨hsigns, hrest.of_blanks.next fun _ => rfl⟩

theorem Term.signsApart_of_placed : (t : Term) → {rest : List Token} →
    wellPlaced .before (t.tokens ++ rest) → t.signsApart ∧ Settled rest
  | .number n, _, h =>
    ⟨rfl, .inl (wellPlaced_parts (fun _ => PlainNumber.isNumberPart_of_mem_tokens)
      n.tokens_ne_nil h)⟩
  | .factor a, _, h =>
    have hfactor := Factor.signsApart_of_placed a h
    ⟨hfactor.1, .inr hfactor.2⟩
  | .scaled n a, _, h => by
    rw [Term.tokens, List.append_assoc] at h
    have hnumber := wellPlaced_parts (fun _ => PlainNumber.isNumberPart_of_mem_tokens)
      n.tokens_ne_nil h
    obtain ⟨hsigns, hrest⟩ := Factor.signsApart_of_placed a hnumber
    exact ⟨hsigns, .inr hrest⟩
  | .negated blanks t, rest, h => by
    rw [Term.tokens, List.cons_append, List.append_assoc] at h
    obtain ⟨hfits, hoperand⟩ := wellPlaced_cons h
    have hfirst : t.isNegated = false := by
      cases hnegated : t.isNegated with
      | false => rfl
      | true =>
        rw [Place.fits, Term.operandAhead_of_isNegated hnegated blanks] at hfits
        simp at hfits
    obtain ⟨hsigns, hrest⟩ := Term.signsApart_of_placed t (wellPlaced_of_blanks rfl hoperand)
    exact ⟨by rw [Term.signsApart, hfirst, hsigns]; rfl, hrest⟩

theorem Row.signsApart_of_placed : (row : Row) → {rest : List Token} →
    wellPlaced .before (row.tokens ++ rest) → row.signsApart ∧ Settled rest
  | .last t, _, h => Term.signsApart_of_placed t h
  | .next t before op after row, _, h => by
    rw [Row.tokens] at h
    simp only [List.append_assoc, List.cons_append] at h
    obtain ⟨hfirst, hoperator⟩ := Term.signsApart_of_placed t h
    have hright : wellPlaced .before _ := hoperator.of_blanks.next fun _ => rfl
    obtain ⟨hsigns, hrest⟩ := Row.signsApart_of_placed row (wellPlaced_of_blanks rfl hright)
    exact ⟨by rw [Row.signsApart, hfirst, hsigns]; rfl, hrest⟩

end

/-- A sentence is read only if its signs stand apart. -/
theorem Sentence.signsApart_of_isOk {s : Sentence} (h : (Formula.read s.text).isOk) :
    s.signsApart := by
  obtain ⟨formula, hformula⟩ := Outcomes.exists_of_isOk h
  have hplaced := wellPlaced_of_read hformula s.tokens_text (operandsApart_of_sentence s)
  rw [Sentence.tokens, List.append_assoc] at hplaced
  exact (Row.signsApart_of_placed s.row (wellPlaced_of_blanks rfl hplaced)).1

/-- Nothing else can be wrong with a sentence. -/
theorem Sentence.isOk_read_iff (s : Sentence) : (Formula.read s.text).isOk ↔ s.signsApart :=
  ⟨signsApart_of_isOk, fun h => (s.readsAs_tree h).isOk⟩

/-! ## Negation -/

/-- The text of a term. -/
def Term.text (t : Term) : String := String.ofList t.chars

/-- What a term that is read as `root` is with a sign in front of it: its number with a sign if
it begins with one, or else `-1` times the term. -/
def Term.negation (root : Expr) : Term → Expr
  | .number n => .numeral (SignedNumber.mk true n).numeral
  | .scaled n a => .binary .mul (.numeral (SignedNumber.mk true n).numeral) a.tree
  | _ => .binary .mul (.numeral minusOne.numeral) root

/-- A term as a sentence by itself. -/
def Term.sentence (t : Term) : Sentence := ⟨⟨[], by simp⟩, .last t, ⟨[], by simp⟩⟩

theorem Term.text_sentence (t : Term) : t.sentence.text = t.text := by
  rw [Sentence.text, Term.text]
  simp [Sentence.chars, Term.sentence, Row.chars]

theorem Term.tree_negated {t : Term} (h : t.isNegated = false) (blanks : Blanks) :
    (Term.negated blanks t).sentence.tree = t.negation t.sentence.tree := by
  cases t with
  | negated more t => cases h
  | _ =>
    simp only [Sentence.tree, Row.tree, Term.sentence, Row.operands, Term.operand, negation,
      ← Pile.finish_put]
    simp [Pile.finish, Pile.put, Pile.reduce]

/-- A sentence is read exactly if none of its signs stands directly behind another one.  So a
term that is read can be negated, unless it begins with a sign, and is read as its negation. -/
theorem isOk_read_iff_signsApart (s : Sentence) (t : Term) (blanks : Blanks) :
    ((Formula.read s.text).isOk ↔ s.signsApart) ∧
      ∀ root, ReadsAs t.text root →
        ((Formula.read (Term.negated blanks t).text).isOk ↔ t.isNegated = false) ∧
          (t.isNegated = false → ReadsAs (Term.negated blanks t).text (t.negation root)) := by
  refine ⟨s.isOk_read_iff, ?_⟩
  intro root hread
  rw [← Term.text_sentence] at hread
  have hsigns : t.sentence.signsApart := t.sentence.isOk_read_iff.mp hread.isOk
  have hroot : t.sentence.tree = root := (t.sentence.readsAs_tree hsigns).unique hread
  have hnegated : (Term.negated blanks t).sentence.signsApart ↔ t.isNegated = false := by
    have hterm : t.signsApart := hsigns
    simp [Sentence.signsApart, Term.sentence, Row.signsApart, Term.signsApart, hterm]
  rw [← Term.text_sentence, Sentence.isOk_read_iff]
  refine ⟨hnegated, ?_⟩
  intro hfirst
  have htree := Term.tree_negated hfirst blanks
  rw [← hroot, ← htree]
  exact Sentence.readsAs_tree _ (hnegated.mpr hfirst)

/-- A number takes the sign itself, and a group in front of which it stands does not. -/
theorem isOk_read_iff_signsApart_coefficient :
    let two : PlainNumber := ⟨[2], .none, by simp⟩
    let twice : Expr := .binary .mul (.numeral (SignedNumber.mk false two).numeral) .var
    ReadsAs "2x" twice ∧
      ReadsAs "- 2x" (.binary .mul (.numeral (SignedNumber.mk true two).numeral) .var) ∧
      ReadsAs "(2x)" twice ∧ ReadsAs "-(2x)" (.binary .mul (.numeral minusOne.numeral) twice) := by
  intro two twice
  let none : Blanks := ⟨[], by simp⟩
  let blank : Blanks := ⟨[' '], List.forall_mem_singleton.mpr rfl⟩
  let group : Term := .factor (.group none (.last (.scaled two .var)) none)
  have htree : (Row.last (.scaled two .var)).tree = twice := by
    simp only [Row.tree, Row.operands, Term.operand, Factor.tree, ← Pile.finish_put]
    simp [Pile.finish, Pile.put, Pile.reduce, twice]
  have hscaled : ReadsAs (Term.scaled two .var).text twice := by
    rw [← Term.text_sentence, ← htree]
    exact Sentence.readsAs_tree _ rfl
  have hgroup : ReadsAs group.text twice := by
    have hgrouped : group.sentence.tree = twice := by
      rw [← htree]
      simp [Sentence.tree, Row.tree, Term.sentence, Row.operands, Term.operand, Factor.tree,
        ← Pile.finish_put, Pile.finish, Pile.put, Pile.reduce, group]
    rw [← Term.text_sentence, ← hgrouped]
    exact Sentence.readsAs_tree _ rfl
  have hnumber := (isOk_read_iff_signsApart group.sentence (.scaled two .var) blank).2 twice hscaled
  have hfactor := (isOk_read_iff_signsApart group.sentence group none).2 twice hgroup
  exact ⟨hscaled, hnumber.2 rfl, hgroup, hfactor.2 rfl⟩

/-- A term that is read, and that is not read any more with a sign in front of it. -/
theorem not_isOk_read_two_signs :
    let none : Blanks := ⟨[], by simp⟩
    let five : Term := .negated none (.number ⟨[5], .none, by simp⟩)
    five.text = "-5" ∧ (Formula.read "-5").isOk ∧
      (Term.negated none five).text = "--5" ∧ ¬ (Formula.read "--5").isOk := by
  intro none five
  exact ⟨rfl, by decide +kernel, rfl, by decide +kernel⟩

end Grammar

end Calculator

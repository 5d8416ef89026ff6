import Calculator.Proofs.Grammar.Basic
import Calculator.Proofs.Grammar.Placement
import Calculator.Proofs.ReversePolish.Order
import Calculator.Proofs.ReversePolish.Scopes

/-!
# Which formulas are sentences

A text may be read as a formula and still be no sentence of the grammar: in `1 2 +` the
operator stands behind both of its operands.  Two operands side by side are the only
thing that can be wrong with a formula.

* `Unread` is what is known about the rest of a formula whose operands stand apart: it is
  spelled by its tokens, each is in its place, its brackets match and its numbers can be
  read.
* `Unread.blanks`, `Unread.number`, `Unread.factor`, `Unread.term` and `parsesRow` take a
  derivation off the front of it, as a recursive-descent parser does.
* `operandsApart_of_sentence` is the other direction: the operands of a sentence stand
  apart.
-/

namespace Calculator.Grammar

open ReversePolish (Numbers Yard)

/-! ## The rest of a formula -/

/-- What is known about the rest of a formula; `signed` says whether the sign of its first number
has been read already. -/
structure Unread (signed : Bool) (place : Place) (opened : List Token.Opened) (cs : List Char)
    (tokens : List Token) : Prop where
  spells : Spells cs (tokens.map Token.unmark)
  placed : wellPlaced place tokens
  matched : tokens.foldlM Token.bracket opened = some []
  numbers : Numbers (Token.sign signed ++ Yard.digitsIn place.expects tokens)

variable {signed : Bool} {place : Place} {opened : List Token.Opened} {cs : List Char}
  {token : Token} {tokens : List Token}

theorem Unread.admits (h : Unread signed place opened cs (token :: tokens)) :
    place.admits token := by
  have hplaced := h.placed
  rw [wellPlaced, Bool.and_eq_true, Bool.and_eq_true] at hplaced
  exact hplaced.1.1

theorem Unread.fits (h : Unread signed place opened cs (token :: tokens)) :
    place.fits token tokens := by
  have hplaced := h.placed
  rw [wellPlaced, Bool.and_eq_true, Bool.and_eq_true] at hplaced
  exact hplaced.1.2

theorem Unread.isRead (h : Unread signed place opened cs (token :: tokens)) :
    Yard.isRead token := by
  have hunmarked := h.spells.isRead_of_mem token.unmark (by simp)
  cases token <;> first | rfl | exact hunmarked

/-- Only a number and a sign have digits to give, and any other token may be skipped. -/
theorem Unread.skip (h : Unread signed place opened cs (token :: tokens))
    (hfn : token.isFn = false) (hdigits : Yard.digitsOf place.expects tokens token = []) :
    ∃ piece rest next, cs = piece ++ rest ∧ token.unmark.WrittenAs piece ∧
      Token.bracket opened token = some next ∧
      Unread signed (place.next token) next rest tokens := by
  have hunmark : token.unmark.isFn = false := by
    cases token <;> first | rfl | cases hfn
  obtain ⟨piece, rest, hcs, hwritten, hspells⟩ := h.spells.exists_of_cons hunmark
  have hplaced := h.placed
  rw [wellPlaced, Bool.and_eq_true] at hplaced
  have hmatched := h.matched
  rw [List.foldlM_cons] at hmatched
  obtain ⟨next, hnext, hmatched⟩ := Option.bind_eq_some_iff.mp hmatched
  have hnumbers := h.numbers
  rw [Yard.digitsIn, hdigits, List.nil_append, ← Place.expects_next] at hnumbers
  exact ⟨piece, rest, next, hcs, hwritten, hnext, hspells, hplaced.2, hmatched, hnumbers⟩

/-- White space is skipped up to the next token. -/
theorem Unread.blanks (hplace : place.next .space = place)
    (h : Unread signed place opened cs tokens) :
    ∃ (blanks : Blanks) (cs' : List Char) (tokens' : List Token), cs = blanks.chars ++ cs' ∧
      tokens = blanks.tokens ++ tokens' ∧ Unread signed place opened cs' tokens' ∧
      tokens'.head? ≠ some .space := by
  induction tokens generalizing cs with
  | nil => exact ⟨⟨[], by simp⟩, cs, [], rfl, rfl, h, by simp⟩
  | cons token tokens ih =>
    by_cases hspace : token = .space
    · subst hspace
      obtain ⟨piece, rest, next, rfl, hwritten, hnext, hrest⟩ := h.skip rfl rfl
      cases hnext
      rw [hplace] at hrest
      obtain ⟨⟨chars, isBlank⟩, cs', tokens', rfl, rfl, hunread, hhead⟩ := ih hrest
      rcases hwritten with ⟨-, c, hc, rfl⟩ | ⟨hne, -⟩
      · refine ⟨⟨c :: chars, ?_⟩, cs', tokens', rfl, rfl, hunread, hhead⟩
        intro d hd
        rcases List.mem_cons.mp hd with rfl | hd
        · exact hc
        · exact isBlank d hd
      · exact absurd rfl hne
    · exact ⟨⟨[], by simp⟩, cs, token :: tokens, rfl, rfl, h, by simpa using hspace⟩

/-! ## Numbers -/

/-- The parts of a number are spelled by themselves. -/
theorem spells_parts {parts more : List Token} (hparts : ∀ token ∈ parts, token.isNumberPart)
    (h : Spells cs ((parts ++ more).map Token.unmark)) :
    ∃ rest, cs = (parts.flatMap fun token => token.spelling.toList) ++ rest ∧
      Spells rest (more.map Token.unmark) := by
  induction parts generalizing cs with
  | nil => exact ⟨cs, rfl, h⟩
  | cons part parts ih =>
    obtain ⟨hpart, hparts⟩ := List.forall_mem_cons.mp hparts
    have hunmark : part.unmark = part ∧ part.isFn = false ∧ part ≠ .space := by
      cases part <;> first
        | exact absurd hpart Bool.false_ne_true
        | exact ⟨rfl, rfl, by simp⟩
    obtain ⟨hunmark, hfn, hspace⟩ := hunmark
    rw [List.cons_append, List.map_cons, hunmark] at h
    obtain ⟨piece, rest, rfl, hwritten, hspells⟩ := h.exists_of_cons hfn
    obtain ⟨rest, rfl, hrest⟩ := ih hparts hspells
    refine ⟨rest, ?_, hrest⟩
    rw [hwritten.eq_spelling hspace, List.flatMap_cons, List.append_assoc]

theorem wellPlaced_parts {parts more : List Token} (hparts : ∀ token ∈ parts, token.isNumberPart)
    (hne : parts ≠ []) (h : wellPlaced place (parts ++ more)) : wellPlaced .number more := by
  induction parts generalizing place with
  | nil => exact absurd rfl hne
  | cons part parts ih =>
    obtain ⟨hpart, hparts⟩ := List.forall_mem_cons.mp hparts
    have hnext : place.next part = .number := by
      cases part <;> first | rfl | cases hpart
    rw [List.cons_append, wellPlaced, hnext, Bool.and_eq_true] at h
    cases parts with
    | nil => exact h.2
    | cons next parts =>
      exact ih hparts (by simp) h.2

/-- A row of digits and points is a number, since it can be read. -/
theorem Unread.number (h : Unread signed .before opened cs (token :: tokens))
    (hpart : token.isNumberPart) :
    ∃ (n : PlainNumber) (cs' : List Char) (tokens' : List Token), cs = n.chars ++ cs' ∧
      token :: tokens = n.tokens ++ tokens' ∧ Unread false .number opened cs' tokens' ∧
      tokens'.head?.any Token.isNumberPart = false ∧ tokens'.length ≤ tokens.length := by
  obtain ⟨parts, more, heq, hne, hparts, hmore, hle⟩ := Yard.exists_number_append hpart tokens
  obtain ⟨hspells, hplaced, hmatched, hnumbers⟩ := h
  rw [heq] at hspells hplaced hmatched hnumbers ⊢
  rw [Yard.digitsIn_parts hparts hne hmore, ← List.append_assoc] at hnumbers
  obtain ⟨n, rfl, hrest⟩ := hnumbers.exists_of_append hparts
  obtain ⟨rest, rfl, hspelled⟩ := spells_parts hparts hspells
  rw [List.foldlM_append, Token.balanced_parts hparts] at hmatched
  refine ⟨n, rest, more, ?_, rfl, ⟨hspelled, wellPlaced_parts hparts hne hplaced, hmatched, ?_⟩,
    hmore, hle⟩
  · rw [PlainNumber.flatMap_spelling_tokens]
  · exact hrest

/-- Behind a number that multiplies nothing, it is the same as behind any other operand. -/
theorem Unread.of_number (h : Unread false .number opened cs tokens)
    (hnumber : tokens.head?.any Token.isNumberPart = false)
    (hfactor : tokens.head?.any Token.startsFactor = false) :
    Unread false .behind opened cs tokens := by
  refine ⟨h.spells, ?_, h.matched, h.numbers⟩
  have hplaced := h.placed
  cases tokens with
  | nil => exact hplaced
  | cons token tokens =>
    rw [wellPlaced] at hplaced ⊢
    cases token <;> first
      | exact hplaced
      | exact absurd hnumber.symm Bool.false_ne_true
      | exact absurd hfactor.symm Bool.false_ne_true

theorem digitsOf_sign {following : List Token} (h : Place.operandAhead following) :
    Yard.digitsOf true following (.operator .sub) =
      if Yard.numberAhead following then [.negative]
      else [.negative, .digit ⟨1, ReversePolish.one_lt_ten⟩, .space] := by
  have hsign : Operator.sub = Operator.sub ∧ true = true := ⟨rfl, rfl⟩
  rw [Yard.digitsOf, if_pos hsign, Yard.numberAhead]
  rw [Place.operandAhead] at h
  generalize (following.find? fun token => !token.isSpace) = next at h ⊢
  cases next with
  | none => cases h
  | some next => cases next <;> first | rfl | exact absurd h Bool.false_ne_true

/-- A `-` where an operand has to come is a sign, and an operand comes behind it. -/
theorem Unread.sign {op : Operator} (h : Unread false .before opened cs (.operator op :: tokens)) :
    op = .sub ∧ Place.operandAhead tokens ∧
      ∃ rest, cs = '-' :: rest ∧ Unread (Yard.numberAhead tokens) .before opened rest tokens := by
  have hfits := h.fits
  simp only [Place.fits, Bool.and_eq_true, decide_eq_true_eq] at hfits
  obtain ⟨rfl, hahead⟩ := hfits
  obtain ⟨piece, rest, rfl, hwritten, hspells⟩ := h.spells.exists_of_cons rfl
  obtain rfl : piece = ['-'] := hwritten.eq_spelling (by simp [Token.unmark])
  have hplaced := h.placed
  rw [wellPlaced, Bool.and_eq_true] at hplaced
  refine ⟨rfl, hahead, rest, rfl, hspells, hplaced.2, h.matched, ?_⟩
  have hnumbers : Numbers (Yard.digitsOf true tokens (.operator .sub) ++
      Yard.digitsIn true tokens) := h.numbers
  rw [digitsOf_sign hahead] at hnumbers
  cases hnumber : Yard.numberAhead tokens with
  | true =>
    rw [hnumber, if_pos rfl] at hnumbers
    exact hnumbers
  | false =>
    rw [hnumber, if_neg Bool.false_ne_true] at hnumbers
    have hone : ∀ part ∈ [Token.digit ⟨1, ReversePolish.one_lt_ten⟩], part.isNumberPart := by
      simp [Token.isNumberPart]
    have hrow : Numbers (Token.sign true ++ [.digit ⟨1, ReversePolish.one_lt_ten⟩] ++
        .space :: Yard.digitsIn true tokens) := hnumbers
    obtain ⟨-, -, hrest⟩ := hrow.exists_of_append hone
    exact hrest

/-! ## Factors, terms and rows -/

/-- Whether a row, with white space around it, can be taken off the front of the tokens, up to
their end or to a closing bracket. -/
def ParsesRow (tokens : List Token) : Prop :=
  ∀ {opened : List Token.Opened} {cs : List Char}, Unread false .before opened cs tokens →
    ∃ (s : Sentence) (cs' : List Char) (tokens' : List Token), cs = s.chars ++ cs' ∧
      tokens = s.tokens ++ tokens' ∧ Unread false .behind opened cs' tokens' ∧
      ∀ token ∈ tokens'.head?, token.isClose

/-- The bracket that closes another one. -/
def closing : Token.Opened → Token
  | .group => .closeGroup
  | .call => .closeCall

variable {n : Nat}

/-- What stands in a bracket is a row, and the bracket is closed behind it. -/
theorem Unread.body (ih : ∀ tokens : List Token, tokens.length < n → ParsesRow tokens)
    {kind : Token.Opened} (h : Unread false .before (kind :: opened) cs tokens)
    (hlength : tokens.length < n) :
    ∃ (s : Sentence) (cs' : List Char) (tokens' : List Token), cs = s.chars ++ ')' :: cs' ∧
      tokens = s.tokens ++ closing kind :: tokens' ∧ Unread false .behind opened cs' tokens' := by
  obtain ⟨s, rest, tokens', rfl, rfl, hrest, hclose⟩ := ih tokens hlength h
  cases tokens' with
  | nil =>
    have hmatched := hrest.matched
    cases hmatched
  | cons token tokens' =>
    have htoken : token.isClose := hclose token rfl
    obtain ⟨hfn, hspace, hdigits⟩ : token.isFn = false ∧ token.unmark ≠ .space ∧
        Yard.digitsOf Place.behind.expects tokens' token = [] := by
      cases token <;> first
        | exact absurd htoken Bool.false_ne_true
        | exact ⟨rfl, by simp [Token.unmark], rfl⟩
    obtain ⟨piece, cs', next, rfl, hwritten, hnext, hunread⟩ := hrest.skip hfn hdigits
    have hpiece := hwritten.eq_spelling hspace
    -- Only the bracket that closes the innermost one goes on.
    obtain ⟨rfl, rfl⟩ : token = closing kind ∧ next = opened := by
      cases token <;> cases kind <;> first
        | exact absurd htoken Bool.false_ne_true
        | exact ⟨rfl, (Option.some.inj hnext).symm⟩
        | cases hnext
    refine ⟨s, cs', tokens', ?_, rfl, ?_⟩
    · rw [hpiece]
      cases kind <;> rfl
    · cases kind <;> exact hunread

/-- A factor may stand where an operand has to come, or directly behind a number. -/
theorem Unread.factor (ih : ∀ tokens : List Token, tokens.length < n → ParsesRow tokens)
    (h : Unread false place opened cs (token :: tokens)) (hstart : token.startsFactor)
    (hlength : tokens.length < n) :
    ∃ (a : Factor) (cs' : List Char) (tokens' : List Token), cs = a.chars ++ cs' ∧
      token :: tokens = a.tokens ++ tokens' ∧ Unread false .behind opened cs' tokens' := by
  cases token with
  | var =>
    obtain ⟨piece, rest, next, rfl, hwritten, hnext, hrest⟩ := h.skip rfl rfl
    cases hnext
    obtain rfl := hwritten.eq_spelling (by simp [Token.unmark])
    exact ⟨.var, rest, tokens, rfl, rfl, hrest⟩
  | constant c =>
    obtain ⟨piece, rest, next, rfl, hwritten, hnext, hrest⟩ := h.skip rfl rfl
    cases hnext
    obtain rfl := hwritten.eq_spelling (by simp [Token.unmark])
    exact ⟨.constant c, rest, tokens, rfl, rfl, hrest⟩
  | openGroup =>
    obtain ⟨piece, rest, next, rfl, hwritten, hnext, hrest⟩ := h.skip rfl rfl
    cases hnext
    obtain rfl := hwritten.eq_spelling (by simp [Token.unmark])
    obtain ⟨s, cs', tokens', rfl, rfl, hunread⟩ := Unread.body ih hrest hlength
    refine ⟨.group s.before s.row s.after, cs', tokens', ?_, ?_, hunread⟩
    · simp [Token.unmark, Token.spelling, Factor.chars, Sentence.chars]
    · simp [Factor.tokens, Sentence.tokens, closing]
  | fn f arg =>
    obtain ⟨rfl, rest, more, rfl, hmore, hspells⟩ := Spells.exists_of_fn h.spells
    obtain ⟨tokens, rfl, rfl⟩ : ∃ behind, tokens = .openCall :: behind ∧
        more = behind.map Token.unmark := by
      cases tokens with
      | nil => cases hmore
      | cons next behind =>
        obtain ⟨hnext, hbehind⟩ := List.cons.inj hmore
        cases next <;> first | exact ⟨behind, rfl, hbehind.symm⟩ | cases hnext
    have hplaced := h.placed
    simp only [wellPlaced, Bool.and_eq_true] at hplaced
    have hrest : Unread false .before (.call :: opened) rest tokens :=
      ⟨hspells, hplaced.2.2, h.matched, h.numbers⟩
    rw [List.length_cons] at hlength
    obtain ⟨s, cs', tokens', rfl, rfl, hunread⟩ := Unread.body ih hrest (by omega)
    refine ⟨.call f s.before s.row s.after, cs', tokens', ?_, ?_, hunread⟩
    · simp [Factor.chars, Sentence.chars]
    · simp [Factor.tokens, Sentence.tokens, closing]
  | _ => cases hstart

/-- A number is a term by itself, or together with the factor directly behind it. -/
theorem Unread.scaled (ih : ∀ tokens : List Token, tokens.length < n → ParsesRow tokens)
    (h : Unread signed .before opened cs (token :: tokens)) (hpart : token.isNumberPart)
    (hlength : tokens.length < n) :
    ∃ (t : Term) (cs' : List Char) (tokens' : List Token), cs = t.chars ++ cs' ∧
      token :: tokens = t.tokens ++ tokens' ∧ Unread false .behind opened cs' tokens' := by
  obtain ⟨m, rest, more, rfl, heq, hrest, hmore, hle⟩ := h.number hpart
  rw [heq]
  by_cases hfactor : more.head?.any Token.startsFactor
  · cases more with
    | nil => cases hfactor
    | cons next more =>
      rw [List.length_cons] at hle
      obtain ⟨a, cs', tokens', rfl, hmore, hend⟩ := Unread.factor ih hrest hfactor (by omega)
      refine ⟨.scaled m a, cs', tokens', ?_, ?_, hend⟩
      · rw [Term.chars, List.append_assoc]
      · rw [Term.tokens, List.append_assoc, hmore]
  · exact ⟨.number m, rest, more, rfl, rfl, hrest.of_number hmore (by simpa using hfactor)⟩

/-- An operand without a sign in front of it, or with one that has been read already. -/
theorem Unread.unsigned (ih : ∀ tokens : List Token, tokens.length < n → ParsesRow tokens)
    (h : Unread signed .before opened cs (token :: tokens))
    (hsigned : token.isNumberPart = false → signed = false)
    (hstart : token.isNumberPart || token.startsFactor) (hlength : tokens.length < n) :
    ∃ (t : Term) (cs' : List Char) (tokens' : List Token), cs = t.chars ++ cs' ∧
      token :: tokens = t.tokens ++ tokens' ∧ Unread false .behind opened cs' tokens' := by
  cases hnumber : token.isNumberPart with
  | true => exact Unread.scaled ih h hnumber hlength
  | false =>
    rw [hsigned hnumber] at h
    have hfactor : token.startsFactor := by simpa [hnumber] using hstart
    obtain ⟨a, cs', tokens', hcs, htokens, hend⟩ := Unread.factor ih h hfactor hlength
    exact ⟨.factor a, cs', tokens', hcs, htokens, hend⟩

/-- A sign and the operand behind it, with white space between them. -/
theorem Unread.negated (ih : ∀ tokens : List Token, tokens.length < n → ParsesRow tokens)
    {op : Operator} (h : Unread false .before opened cs (.operator op :: tokens))
    (hlength : tokens.length < n) :
    ∃ (t : Term) (cs' : List Char) (tokens' : List Token), cs = t.chars ++ cs' ∧
      .operator op :: tokens = t.tokens ++ tokens' ∧
        Unread false .behind opened cs' tokens' := by
  obtain ⟨rfl, hahead, rest, rfl, hrest⟩ := h.sign
  obtain ⟨blanks, cs', tokens', rfl, rfl, hoperand, hhead⟩ := hrest.blanks rfl
  cases tokens' with
  | nil =>
    rw [Place.operandAhead, Yard.find?_spaces fun _ => Blanks.eq_space_of_mem] at hahead
    cases hahead
  | cons first more =>
    have hfirst : first.isSpace = false := by
      cases first <;> first | rfl | exact absurd rfl hhead
    have hfind : (blanks.tokens ++ first :: more).find? (fun token => !token.isSpace) =
        some first := by
      rw [Yard.find?_spaces fun _ => Blanks.eq_space_of_mem,
        List.find?_cons_of_pos (by simp [hfirst])]
    rw [Yard.numberAhead, hfind, Option.any_some] at hoperand
    rw [Place.operandAhead, hfind, Option.any_some] at hahead
    rw [List.length_append, List.length_cons] at hlength
    obtain ⟨t, cs', tokens', rfl, hmore, hend⟩ :=
      Unread.unsigned ih hoperand (fun hnumber => hnumber) hahead (by omega)
    refine ⟨.negated blanks t, cs', tokens', ?_, ?_, hend⟩
    · rw [Term.chars, List.cons_append, List.append_assoc]
    · rw [Term.tokens, List.cons_append, List.append_assoc, hmore]

/-- A term begins where an operand has to come. -/
theorem Unread.term (ih : ∀ tokens : List Token, tokens.length < n → ParsesRow tokens)
    (h : Unread false .before opened cs (token :: tokens)) (hspace : token ≠ .space)
    (hlength : tokens.length < n) :
    ∃ (t : Term) (cs' : List Char) (tokens' : List Token), cs = t.chars ++ cs' ∧
      token :: tokens = t.tokens ++ tokens' ∧ Unread false .behind opened cs' tokens' := by
  by_cases hstart : token.isNumberPart || token.startsFactor
  · exact Unread.unsigned ih h (fun _ => rfl) hstart hlength
  · -- Nothing but a sign is left.
    obtain ⟨op, rfl⟩ : ∃ op, token = .operator op := by
      have hread := h.isRead
      have hadmits := h.admits
      have hfits := h.fits
      cases token <;> first
        | exact ⟨_, rfl⟩
        | exact absurd rfl hstart
        | exact absurd rfl hspace
        | exact absurd hread Bool.false_ne_true
        | exact absurd hadmits Bool.false_ne_true
        | exact absurd hfits Bool.false_ne_true
    exact Unread.negated ih h hlength

/-- Behind an operand nothing but white space, an operator and a closing bracket may stand. -/
theorem Unread.isClose (h : Unread signed .behind opened cs (token :: tokens))
    (hspace : token ≠ .space) (hop : ∀ op, token ≠ .operator op) : token.isClose := by
  have hread := h.isRead
  have hadmits := h.admits
  cases token <;> first
    | rfl
    | exact absurd hread Bool.false_ne_true
    | exact absurd hadmits Bool.false_ne_true
    | exact absurd rfl hspace
    | exact absurd rfl (hop _)

/-- Every rest of a formula that begins where an operand has to come begins with a row. -/
theorem parsesRow (tokens : List Token) : ParsesRow tokens := by
  -- A bracket and an operator take the rest behind them, which is shorter.
  induction hn : tokens.length using Nat.strongRecOn generalizing tokens with
  | _ n ih =>
  subst hn
  intro opened cs h
  have hshorter : ∀ more : List Token, more.length < tokens.length → ParsesRow more :=
    fun more hlt => ih more.length hlt more rfl
  obtain ⟨before, cs, tokens, rfl, rfl, hrow, hhead⟩ := h.blanks rfl
  cases tokens with
  | nil =>
    have hplaced := hrow.placed
    cases hplaced
  | cons token tokens =>
    have hspace : token ≠ .space := by simpa using hhead
    have hlength : tokens.length < (before.tokens ++ token :: tokens).length := by
      rw [List.length_append, List.length_cons]
      omega
    obtain ⟨t, cs, rest, rfl, heq, hbehind⟩ := Unread.term hshorter hrow hspace hlength
    obtain ⟨after, cs, rest, rfl, rfl, hend, hnext⟩ := hbehind.blanks rfl
    rw [heq] at hshorter ⊢
    by_cases hop : ∃ op more, rest = .operator op :: more
    · obtain ⟨op, more, rfl⟩ := hop
      have hdigits : Yard.digitsOf Place.behind.expects more (.operator op) = [] := by
        simp [Yard.digitsOf, Place.expects]
      obtain ⟨piece, cs, next, rfl, hwritten, hopened, hright⟩ := hend.skip rfl hdigits
      cases hopened
      obtain rfl := hwritten.eq_spelling (by simp [Token.unmark])
      have hshort : more.length <
          (before.tokens ++ (t.tokens ++ (after.tokens ++ .operator op :: more))).length := by
        simp only [List.length_append, List.length_cons]
        omega
      obtain ⟨s, cs, rest, rfl, rfl, hlast, hclose⟩ := hshorter more hshort hright
      refine ⟨⟨before, .next t after op s.before s.row, s.after⟩, cs, rest, ?_, ?_, hlast, hclose⟩
      · simp [Sentence.chars, Row.chars, Token.unmark, Token.spelling]
      · simp [Sentence.tokens, Row.tokens]
    · refine ⟨⟨before, .last t, after⟩, cs, rest, ?_, ?_, hend, ?_⟩
      · simp [Sentence.chars, Row.chars]
      · simp [Sentence.tokens, Row.tokens]
      · intro token htoken
        obtain ⟨more, rfl⟩ : ∃ more, rest = token :: more := List.head?_eq_some_iff.mp htoken
        apply hend.isClose
        · intro hspace
          exact hnext (congrArg some hspace)
        · intro op hoperator
          exact hop ⟨op, more, congrArg (· :: more) hoperator⟩

/-! ## The operands of a sentence -/

theorem operandsApart_blanks {rest : List Token} (hplace : place.next .space = place)
    (hcall : place ≠ .call) (h : operandsApart place rest) (blanks : Blanks) :
    operandsApart place (blanks.tokens ++ rest) := by
  have hadmits : place.admits .space := by
    cases place <;> first | rfl | exact absurd rfl hcall
  unfold Blanks.tokens
  induction blanks.chars with
  | nil => exact h
  | cons c chars ih =>
    show (place.admits .space && operandsApart (place.next .space) _) = true
    rw [hadmits, hplace]
    exact ih

/-- What may stand behind any operand may also stand behind a number. -/
theorem operandsApart_number {rest : List Token} (h : operandsApart .behind rest) :
    operandsApart .number rest := by
  cases rest with
  | nil => rfl
  | cons token rest =>
    rw [operandsApart, Bool.and_eq_true] at h
    obtain ⟨hadmits, hrest⟩ := h
    rw [operandsApart]
    cases token <;> first | exact hrest | exact absurd hadmits Bool.false_ne_true

/-- The parts of a number may stand behind one another. -/
theorem operandsApart_parts {parts rest : List Token} (hparts : ∀ token ∈ parts, token.isNumberPart)
    (hne : parts ≠ []) (hplace : place = .before ∨ place = .number)
    (h : operandsApart .number rest) : operandsApart place (parts ++ rest) := by
  induction parts generalizing place with
  | nil => exact absurd rfl hne
  | cons part parts ih =>
    obtain ⟨hpart, hparts⟩ := List.forall_mem_cons.mp hparts
    have hstep : place.admits part = true ∧ place.next part = .number := by
      rcases hplace with rfl | rfl <;>
        cases part <;> first | exact ⟨rfl, rfl⟩ | exact absurd hpart Bool.false_ne_true
    rw [List.cons_append, operandsApart, hstep.1, hstep.2, Bool.true_and]
    by_cases hnil : parts = []
    · rw [hnil]
      exact h
    · exact ih hparts hnil (.inr rfl)

theorem operandsApart_plainNumber (n : PlainNumber) {rest : List Token}
    (h : operandsApart .number rest) : operandsApart .before (n.tokens ++ rest) :=
  operandsApart_parts (fun _ => PlainNumber.isNumberPart_of_mem_tokens) n.tokens_ne_nil (.inl rfl) h

mutual

/-- A factor may stand where an operand has to come, and behind a number. -/
theorem Factor.operandsApart : (a : Factor) → {place : Place} →
    place = .before ∨ place = .number → {rest : List Token} → operandsApart .behind rest →
    Grammar.operandsApart place (a.tokens ++ rest)
  | .var, place, hplace, rest, h => by
    rcases hplace with rfl | rfl <;> exact h
  | .constant c, place, hplace, rest, h => by
    rcases hplace with rfl | rfl <;> exact h
  | .group before row after, place, hplace, rest, h => by
    have hclose : Grammar.operandsApart .behind (.closeGroup :: rest) := h
    have hbody := operandsApart_blanks rfl (by simp) (Row.operandsApart row
      (operandsApart_blanks rfl (by simp) hclose after)) before
    rw [Factor.tokens]
    simp only [List.append_assoc, List.cons_append, List.nil_append]
    rcases hplace with rfl | rfl <;> exact hbody
  | .call f before row after, place, hplace, rest, h => by
    have hclose : Grammar.operandsApart .behind (.closeCall :: rest) := h
    have hbody := operandsApart_blanks rfl (by simp) (Row.operandsApart row
      (operandsApart_blanks rfl (by simp) hclose after)) before
    rw [Factor.tokens]
    simp only [List.append_assoc, List.cons_append, List.nil_append]
    rcases hplace with rfl | rfl <;> exact hbody

theorem Term.operandsApart : (t : Term) → {rest : List Token} →
    operandsApart .behind rest → Grammar.operandsApart .before (t.tokens ++ rest)
  | .number n, _, h => operandsApart_plainNumber n (operandsApart_number h)
  | .factor a, _, h => Factor.operandsApart a (.inl rfl) h
  | .scaled n a, _, h => by
    rw [Term.tokens, List.append_assoc]
    exact operandsApart_plainNumber n (Factor.operandsApart a (.inr rfl) h)
  | .negated blanks t, _, h => by
    have hoperand := operandsApart_blanks rfl (by simp) (Term.operandsApart t h) blanks
    rw [Term.tokens, List.cons_append, List.append_assoc]
    exact hoperand

theorem Row.operandsApart : (row : Row) → {rest : List Token} →
    operandsApart .behind rest → Grammar.operandsApart .before (row.tokens ++ rest)
  | .last t, _, h => Term.operandsApart t h
  | .next t before op after row, rest, h => by
    have hright := operandsApart_blanks rfl (by simp) (Row.operandsApart row h) after
    have hoperator : Grammar.operandsApart .behind
        (.operator op :: (after.tokens ++ (row.tokens ++ rest))) := hright
    rw [Row.tokens]
    simp only [List.append_assoc, List.cons_append]
    exact Term.operandsApart t (operandsApart_blanks rfl (by simp) hoperator before)

end

/-- The operands of a sentence stand apart. -/
theorem operandsApart_of_sentence (s : Sentence) : operandsApart .before s.tokens := by
  have hend : operandsApart .behind (s.after.tokens ++ []) :=
    operandsApart_blanks rfl (by simp) rfl s.after
  have hrow := operandsApart_blanks rfl (by simp) (Row.operandsApart s.row hend) s.before
  rw [List.append_nil, ← List.append_assoc] at hrow
  exact hrow

/-! ## All stages -/

/-- A formula whose operands stand apart is a sentence. -/
theorem exists_sentence {text : String} {formula : Formula} (h : Formula.read text = .ok formula)
    (htokens : (Lexer.ofText standardNames text).tokens = .ok tokens)
    (hapart : operandsApart .before tokens) : ∃ s : Sentence, s.text = text := by
  obtain ⟨tokens', apart, htokens', hinfix, hjoined, -⟩ := Formula.joined_of_read h
  rw [htokens] at htokens'
  cases htokens'
  obtain ⟨hspells, -⟩ := Lexer.tokens_eq_ok_iff.mp htokens
  have hnumbers : Numbers (Yard.digitsIn true tokens) := by
    rw [← ReversePolish.digits_ofInfix hinfix (Lexer.isRead_of_mem htokens)]
    exact hjoined.numbers
  have hunread : Unread false .before [] text.toList tokens :=
    ⟨hspells, wellPlaced_of_read h htokens hapart,
      ReversePolish.foldlM_bracket_ofInfix hinfix, hnumbers⟩
  obtain ⟨s, cs, rest, hcs, -, hend, hclose⟩ := parsesRow tokens hunread
  cases rest with
  | nil =>
    have hempty : cs = [] := by
      cases hend.spells
      rfl
    rw [hempty, List.append_nil] at hcs
    exact ⟨s, by rw [Sentence.text, ← hcs, String.ofList_toList]⟩
  | cons token rest =>
    -- No bracket is open that could be closed.
    have htoken : token.isClose := hclose token rfl
    have hmatched := hend.matched
    rw [List.foldlM_cons] at hmatched
    cases token <;> first
      | exact absurd htoken Bool.false_ne_true
      | cases hmatched

/-- A formula is a sentence exactly if no operand of it stands directly behind another one, white
space aside, except a factor directly behind a number.  Every operator then stands behind an
operand and in front of one, unless it is a sign. -/
theorem sentence_iff_operandsApart {text : String} {formula : Formula}
    (h : Formula.read text = .ok formula)
    (htokens : (Lexer.ofText standardNames text).tokens = .ok tokens) :
    ((∃ s : Sentence, s.text = text) ↔ operandsApart .before tokens) ∧
      (operandsApart .before tokens → wellPlaced .before tokens) := by
  refine ⟨⟨?_, exists_sentence h htokens⟩, wellPlaced_of_read h htokens⟩
  intro hsentence
  obtain ⟨s, rfl⟩ := hsentence
  rw [s.tokens_text] at htokens
  cases htokens
  exact operandsApart_of_sentence s

/-- A sign, a coefficient and a group may stand directly behind one another. -/
theorem sentence_iff_operandsApart_coefficient :
    ∃ formula tokens, Formula.read "-2(x + 1)" = .ok formula ∧
      (Lexer.ofText standardNames "-2(x + 1)").tokens = .ok tokens ∧
      operandsApart .before tokens ∧ (∃ s : Sentence, s.text = "-2(x + 1)") ∧
      wellPlaced .before tokens := by
  have hok : (Formula.read "-2(x + 1)").isOk := by decide +kernel
  obtain ⟨formula, hformula⟩ := Outcomes.exists_of_isOk hok
  have htokens : (Lexer.ofText standardNames "-2(x + 1)").tokens =
      .ok [.operator .sub, .digit 2, .openGroup, .var, .space, .operator .add, .space, .digit 1,
        .closeGroup] :=
    Lexer.tokens_eq_ok_iff.mpr ⟨.single rfl (.single rfl (.single rfl (.single rfl (.single rfl
      (.single rfl (.single rfl (.single rfl (.single rfl .nil)))))))), [], rfl, by simp⟩
  obtain ⟨hsentence, hplaced⟩ := sentence_iff_operandsApart hformula htokens
  exact ⟨formula, _, hformula, htokens, rfl, hsentence.mpr rfl, hplaced rfl⟩

/-- An operator behind both of its operands makes a formula, but no sentence. -/
theorem exists_formula_not_sentence :
    (Formula.read "1 2 +").isOk ∧ ¬ ∃ s : Sentence, s.text = "1 2 +" := by
  refine ⟨by decide +kernel, ?_⟩
  intro hsentence
  obtain ⟨s, hs⟩ := hsentence
  have htokens : (Lexer.ofText standardNames "1 2 +").tokens =
      .ok [.digit 1, .space, .digit 2, .space, .operator .add] :=
    Lexer.tokens_eq_ok_iff.mpr ⟨.single rfl (.single rfl (.single rfl (.single rfl (.single rfl
      .nil)))), [], rfl, by simp⟩
  have hapart := operandsApart_of_sentence s
  rw [← hs, s.tokens_text] at htokens
  rw [Except.ok.inj htokens] at hapart
  exact absurd hapart (by decide)

end Calculator.Grammar

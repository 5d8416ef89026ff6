import Calculator.Proofs.Formula.Stages

/-!
# Parentheses and their partners

Which parenthesis closes which can be said without a stack.  `Token.Nested` are the lists whose
parentheses match, and `Token.Partners read kind i j` says that the parenthesis at `j` closes the
one at `i`, which opens a `kind`: what stands between them is nested.

* `Token.height` counts how many parentheses are opened and not closed.  It is zero for a nested
  list and never negative for the beginning of one (`Nested.rising`).  So a parenthesis has one
  partner at most (`opener_unique`).
* `Token.Pending before opened` parts a text at the parentheses that are still open.  Those are
  the ones without a partner (`Pending.exists_rising`, `Pending.mem_or_exists_partner`).
* `Token.MarkedBy read tokens` says what marking should do, and `Token.Unmatched read` what it
  should refuse.  `Marking` is the invariant of marking, one more token at a time, and
  `Marking.run` what becomes of it at the end.

`Lexer.tokens_markedBy` is about whole texts, whichever table they are read with.
-/

namespace Calculator

namespace Token

/-! ## Partners -/

/-- The parenthesis that opens a group or an argument. -/
def Opened.opener : Opened → Token
  | group => openGroup
  | call => openCall

theorem Opened.opener_injective {kind kind' : Opened} (h : kind.opener = kind'.opener) :
    kind = kind' := by
  cases kind <;> cases kind' <;> first | rfl | cases h

theorem Opened.opener_ne_closeGroup (kind : Opened) : kind.opener ≠ closeGroup := by
  cases kind <;> simp [opener]

/-- Whether a token is a parenthesis, before the ends of arguments are marked. -/
def isParenthesis : Token → Bool
  | openGroup | openCall | closeGroup => true
  | _ => false

/-- A token opens something, or it closes something, or it is no parenthesis. -/
theorem opener_or_closeGroup_or_plain (token : Token) :
    (∃ kind : Opened, token = kind.opener) ∨ token = closeGroup ∨ token.isParenthesis = false := by
  cases token with
  | openGroup => exact .inl ⟨.group, rfl⟩
  | openCall => exact .inl ⟨.call, rfl⟩
  | closeGroup => exact .inr (.inl rfl)
  | _ => exact .inr (.inr rfl)

theorem Opened.isParenthesis_opener (kind : Opened) : kind.opener.isParenthesis := by
  cases kind <;> rfl

/-- Lists whose parentheses match, before the ends of arguments are marked. -/
inductive Nested : List Token → Prop where
  | nil : Nested []
  | plain {token : Token} (htoken : token.isParenthesis = false) {tokens : List Token}
      (tail : Nested tokens) : Nested (token :: tokens)
  | pair (kind : Opened) {inner tokens : List Token} (hinner : Nested inner)
      (tail : Nested tokens) : Nested (kind.opener :: (inner ++ closeGroup :: tokens))

/-- Whether the parenthesis at `j` closes the one at `i`, which opens a `kind`. -/
def Partners (read : List Token) (kind : Opened) (i j : Nat) : Prop :=
  ∃ before inner, before ++ kind.opener :: (inner ++ [closeGroup]) <+: read ∧ Nested inner ∧
    i = before.length ∧ j = before.length + inner.length + 1

/-! ## How far parentheses are open -/

/-- How many more parentheses are opened than closed by a token. -/
def rise : Token → Int
  | openGroup | openCall => 1
  | closeGroup => -1
  | _ => 0

/-- How many more parentheses are opened than closed in a list. -/
def height (tokens : List Token) : Int := (tokens.map rise).sum

@[simp] theorem height_nil : height [] = 0 := rfl

@[simp] theorem height_cons (token : Token) (tokens : List Token) :
    height (token :: tokens) = token.rise + height tokens := by
  simp [height]

@[simp] theorem height_append (tokens more : List Token) :
    height (tokens ++ more) = height tokens + height more := by
  simp [height]

@[simp] theorem rise_opener (kind : Opened) : kind.opener.rise = 1 := by
  cases kind <;> rfl

theorem rise_of_plain {token : Token} (h : token.isParenthesis = false) : token.rise = 0 := by
  cases token <;> first | rfl | cases h

/-- Whether no beginning of a list closes more than it opens. -/
def Rising (tokens : List Token) : Prop := ∀ before, before <+: tokens → 0 ≤ height before

theorem Rising.height_nonneg {tokens : List Token} (h : Rising tokens) : 0 ≤ height tokens :=
  h tokens (List.prefix_refl tokens)

theorem rising_nil : Rising [] := by
  intro before hbefore
  rw [List.prefix_nil.mp hbefore]
  exact Int.le_refl 0

theorem Rising.cons {token : Token} (htoken : 0 ≤ token.rise) {tokens : List Token}
    (h : Rising tokens) : Rising (token :: tokens) := by
  intro before hbefore
  rcases List.prefix_cons_iff.mp hbefore with rfl | ⟨rest, rfl, hrest⟩
  · exact Int.le_refl 0
  · have := h rest hrest
    rw [height_cons]
    omega

theorem prefix_append_cases {before tokens more : List Token} (h : before <+: tokens ++ more) :
    before <+: tokens ∨ ∃ rest, before = tokens ++ rest ∧ rest <+: more := by
  rcases List.prefix_or_prefix_of_prefix h (List.prefix_append tokens more) with
    hshort | ⟨rest, rfl⟩
  · exact .inl hshort
  · exact .inr ⟨rest, rfl, (List.prefix_append_right_inj tokens).mp h⟩

theorem Rising.append {tokens more : List Token} (h : Rising tokens) (hmore : Rising more) :
    Rising (tokens ++ more) := by
  intro before hbefore
  rcases prefix_append_cases hbefore with hshort | ⟨rest, rfl, hrest⟩
  · exact h before hshort
  · have := hmore rest hrest
    have := h.height_nonneg
    rw [height_append]
    omega

theorem Nested.height_eq_zero {tokens : List Token} (h : Nested tokens) : height tokens = 0 := by
  induction h with
  | nil => rfl
  | plain htoken _ ih => rw [height_cons, rise_of_plain htoken, ih, Int.zero_add]
  | pair kind _ _ ihinner ih =>
    have hclose : rise closeGroup = -1 := rfl
    rw [height_cons, height_append, height_cons, rise_opener, hclose, ihinner, ih]
    omega

/-- A nested list nowhere closes more than it has opened. -/
theorem Nested.rising {tokens : List Token} (h : Nested tokens) : Rising tokens := by
  induction h with
  | nil => exact rising_nil
  | plain htoken _ ih => exact ih.cons (by rw [rise_of_plain htoken])
  | @pair kind inner tokens hinner _ ihinner ih =>
    have hclose : rise closeGroup = -1 := rfl
    intro before hbefore
    rcases List.prefix_cons_iff.mp hbefore with rfl | ⟨rest, rfl, hrest⟩
    · exact Int.le_refl 0
    · rw [height_cons, rise_opener]
      rcases prefix_append_cases hrest with hshort | ⟨behind, rfl, hbehind⟩
      · have := ihinner rest hshort
        omega
      · rw [height_append, hinner.height_eq_zero]
        rcases List.prefix_cons_iff.mp hbehind with rfl | ⟨more, rfl, hmore⟩
        · rw [height_nil]
          omega
        · have := ih more hmore
          rw [height_cons, hclose]
          omega

theorem Nested.append {tokens more : List Token} (h : Nested tokens) (hmore : Nested more) :
    Nested (tokens ++ more) := by
  induction h with
  | nil => exact hmore
  | plain htoken _ ih => exact .plain htoken ih
  | pair kind hinner _ _ ih =>
    rw [List.cons_append, List.append_assoc]
    exact .pair kind hinner ih

/-- An opening parenthesis in a nested list has its partner there. -/
theorem Nested.not_open {before inner : List Token} {kind : Opened}
    (h : Nested (before ++ kind.opener :: inner)) : ¬ Nested inner := by
  intro hinner
  have hbefore := h.rising before (List.prefix_append _ _)
  have hheight := h.height_eq_zero
  rw [height_append, height_cons, rise_opener, hinner.height_eq_zero] at hheight
  omega

/-- A token of two lists in a row is in one of them. -/
theorem append_eq_append_cons {tokens more before rest : List Token} {token : Token}
    (h : tokens ++ more = before ++ token :: rest) :
    (∃ between, tokens = before ++ token :: between ∧ rest = between ++ more) ∨
      ∃ between, before = tokens ++ between ∧ more = between ++ token :: rest := by
  rcases List.append_eq_append_iff.mp h with hmore | ⟨between, rfl, hrest⟩
  · exact .inr hmore
  · cases between with
    | nil => exact .inr ⟨[], by simp, hrest.symm⟩
    | cons first between =>
      obtain ⟨rfl, rfl⟩ := List.cons.inj hrest
      exact .inl ⟨between, rfl, rfl⟩

/-- There is one place only where a nested list behind an opening parenthesis can begin. -/
theorem opener_unique {before inner before' inner' : List Token} {kind kind' : Opened}
    (hinner : Nested inner) (hinner' : Nested inner')
    (h : before ++ kind.opener :: inner = before' ++ kind'.opener :: inner') :
    before = before' ∧ kind = kind' := by
  rcases append_eq_append_cons h with ⟨between, rfl, rfl⟩ | ⟨between, rfl, hbehind⟩
  · exact absurd hinner hinner'.not_open
  · cases between with
    | nil => exact ⟨(List.append_nil before).symm, Opened.opener_injective (List.cons.inj hbehind).1⟩
    | cons token between =>
      obtain ⟨-, rfl⟩ := List.cons.inj hbehind
      exact absurd hinner' hinner.not_open

/-! ## A text up to some place -/

/-- Nested lists, parted by the parentheses that are still open, the latest first. -/
inductive Pending : List Token → List Opened → Prop where
  | nested {before : List Token} (h : Nested before) : Pending before []
  | opened (kind : Opened) {before inner : List Token} {opened : List Opened}
      (hbefore : Pending before opened) (hinner : Nested inner) :
      Pending (before ++ kind.opener :: inner) (kind :: opened)

theorem Pending.nested_of_nil {before : List Token} (h : Pending before []) : Nested before := by
  cases h with
  | nested h => exact h

theorem Pending.append {before inner : List Token} {opened : List Opened}
    (h : Pending before opened) (hinner : Nested inner) : Pending (before ++ inner) opened := by
  cases h with
  | nested h => exact .nested (h.append hinner)
  | opened kind hbefore h =>
    rw [List.append_assoc, List.cons_append]
    exact .opened kind hbefore (h.append hinner)

/-- Behind a parenthesis that is still open, nothing closes more than has been opened there. -/
theorem Pending.exists_rising {read : List Token} {left : List Opened} (h : Pending read left)
    {kind : Opened} (hkind : kind ∈ left) :
    ∃ before rest, read = before ++ kind.opener :: rest ∧ Rising rest := by
  induction h with
  | nested h => cases hkind
  | @opened latest before inner opened _ hinner ih =>
    rcases List.mem_cons.mp hkind with rfl | hopened
    · exact ⟨before, inner, rfl, hinner.rising⟩
    · obtain ⟨start, rest, rfl, hrest⟩ := ih hopened
      refine ⟨start, rest ++ latest.opener :: inner, by simp, hrest.append ?_⟩
      exact hinner.rising.cons (by rw [rise_opener]; decide)

/-- Every opening parenthesis of a nested list has its partner in it. -/
theorem Nested.exists_partner {tokens : List Token} (h : Nested tokens) {before rest : List Token}
    {kind : Opened} (htokens : tokens = before ++ kind.opener :: rest) :
    ∃ inner, inner ++ [closeGroup] <+: rest ∧ Nested inner := by
  induction h generalizing before rest with
  | nil => simp at htokens
  | @plain token htoken tokens tail ih =>
    cases before with
    | nil =>
      rw [(List.cons.inj htokens).1, kind.isParenthesis_opener] at htoken
      cases htoken
    | cons first before => exact ih (List.cons.inj htokens).2
  | @pair latest inner tokens hinner tail ihinner ih =>
    cases before with
    | nil =>
      obtain ⟨-, rfl⟩ := List.cons.inj htokens
      exact ⟨inner, ⟨tokens, by simp⟩, hinner⟩
    | cons first before =>
      rcases append_eq_append_cons (List.cons.inj htokens).2 with
        ⟨between, rfl, rfl⟩ | ⟨between, rfl, hbehind⟩
      · obtain ⟨partner, hpartner, hnested⟩ := ihinner rfl
        exact ⟨partner, hpartner.trans (List.prefix_append _ _), hnested⟩
      · cases between with
        | nil => exact absurd (List.cons.inj hbehind).1.symm kind.opener_ne_closeGroup
        | cons token between => exact ih (List.cons.inj hbehind).2

/-- An opening parenthesis has its partner, or it is one of those that are still open. -/
theorem Pending.mem_or_exists_partner {read : List Token} {left : List Opened}
    (h : Pending read left) {before rest : List Token} {kind : Opened}
    (hread : read = before ++ kind.opener :: rest) :
    kind ∈ left ∨ ∃ inner, inner ++ [closeGroup] <+: rest ∧ Nested inner := by
  induction h generalizing before rest with
  | nested h => exact .inr (h.exists_partner hread)
  | @opened latest start inner opened _ hinner ih =>
    rcases append_eq_append_cons hread with ⟨between, rfl, rfl⟩ | ⟨between, rfl, hbehind⟩
    · rcases ih rfl with hopened | ⟨partner, hpartner, hnested⟩
      · exact .inl (List.mem_cons_of_mem _ hopened)
      · exact .inr ⟨partner, hpartner.trans (List.prefix_append _ _), hnested⟩
    · cases between with
      | nil =>
        rw [Opened.opener_injective (List.cons.inj hbehind).1]
        exact .inl List.mem_cons_self
      | cons token between => exact .inr (hinner.exists_partner (List.cons.inj hbehind).2)

/-! ## Partners up to some place -/

theorem Partners.lt_length {read : List Token} {kind : Opened} {i j : Nat}
    (h : Partners read kind i j) : j < read.length := by
  obtain ⟨before, inner, hread, -, -, rfl⟩ := h
  have hlength := hread.length_le
  simp only [List.length_append, List.length_cons, List.length_nil] at hlength
  omega

/-- What comes behind a parenthesis has no part in what it closes. -/
theorem partners_append_iff {read : List Token} {kind : Opened} {i j : Nat}
    (hj : j < read.length) (more : List Token) :
    Partners (read ++ more) kind i j ↔ Partners read kind i j := by
  constructor
  · rintro ⟨before, inner, hread, hinner, rfl, rfl⟩
    refine ⟨before, inner, ?_, hinner, rfl, rfl⟩
    refine List.prefix_of_prefix_length_le hread (List.prefix_append read more) ?_
    simp only [List.length_append, List.length_cons, List.length_nil]
    omega
  · rintro ⟨before, inner, hread, hinner, hi, hj⟩
    exact ⟨before, inner, hread.trans (List.prefix_append read more), hinner, hi, hj⟩

/-- The partner of the last token of a list. -/
theorem partners_concat_iff {read : List Token} {token : Token} {kind : Opened} {i : Nat} :
    Partners (read ++ [token]) kind i read.length ↔
      token = closeGroup ∧ ∃ before inner, read = before ++ kind.opener :: inner ∧ Nested inner ∧
        i = before.length := by
  constructor
  · rintro ⟨before, inner, hread, hinner, rfl, hlength⟩
    have hall : before ++ kind.opener :: (inner ++ [closeGroup]) = read ++ [token] := by
      apply hread.eq_of_length
      simp only [List.length_append, List.length_cons, List.length_nil]
      omega
    rw [← List.cons_append, ← List.append_assoc] at hall
    obtain ⟨rfl, htoken⟩ := List.append_inj' hall rfl
    exact ⟨(List.cons.inj htoken).1.symm, before, inner, rfl, hinner, rfl⟩
  · rintro ⟨rfl, before, inner, rfl, hinner, rfl⟩
    refine ⟨before, inner, by simp, hinner, rfl, ?_⟩
    simp only [List.length_append, List.length_cons]
    omega

/-! ## Marking -/

/-- The list `tokens` is `read` with the ends of its arguments marked. -/
structure MarkedBy (read tokens : List Token) : Prop where
  length_eq : tokens.length = read.length
  /-- What closes an argument is marked. -/
  marks : ∀ i j, Partners read .call i j → tokens[j]? = some closeCall
  /-- Every other token stays. -/
  keeps : ∀ j, (∀ i, ¬ Partners read .call i j) → tokens[j]? = read[j]?

/-- A closing parenthesis that closes nothing. -/
def Unopened (read : List Token) : Prop :=
  ∃ j, read[j]? = some closeGroup ∧ ∀ kind i, ¬ Partners read kind i j

/-- An argument that is not closed. -/
def Unclosed (read : List Token) : Prop :=
  ∃ i, read[i]? = some openCall ∧ ∀ j, ¬ Partners read .call i j

/-- What is known once `before` has been marked and the brackets `opened` are open behind it. -/
structure Marking (before : List Token) (opened : List Opened) (tokens : List Token) : Prop where
  pending : Pending before opened
  marked : MarkedBy before tokens
  closed : ¬ Unopened before

theorem MarkedBy.concat {read tokens : List Token} (h : MarkedBy read tokens) {token marked : Token}
    (hmarks : ∀ i, Partners (read ++ [token]) .call i read.length → marked = closeCall)
    (hkeeps : (∀ i, ¬ Partners (read ++ [token]) .call i read.length) → marked = token) :
    MarkedBy (read ++ [token]) (tokens ++ [marked]) where
  length_eq := by simp [h.length_eq]
  marks := by
    intro i j hpartners
    have hj := hpartners.lt_length
    rw [List.length_append, List.length_singleton] at hj
    rcases Nat.lt_or_eq_of_le (Nat.le_of_lt_succ hj) with hlt | rfl
    · rw [partners_append_iff hlt] at hpartners
      rw [List.getElem?_append_left (by rw [h.length_eq]; exact hlt)]
      exact h.marks i j hpartners
    · rw [← h.length_eq, List.getElem?_concat_length, hmarks i hpartners]
  keeps := by
    intro j hnone
    rcases Nat.lt_trichotomy j read.length with hlt | rfl | hgt
    · rw [List.getElem?_append_left (by rw [h.length_eq]; exact hlt),
        List.getElem?_append_left hlt]
      exact h.keeps j fun i hi => hnone i ((partners_append_iff hlt _).mpr hi)
    · rw [List.getElem?_concat_length, ← h.length_eq, List.getElem?_concat_length, hkeeps hnone]
    · rw [List.getElem?_eq_none, List.getElem?_eq_none]
      · simp only [List.length_append, List.length_singleton]
        omega
      · simp only [List.length_append, List.length_singleton, h.length_eq]
        omega

theorem not_unopened_concat {read : List Token} (h : ¬ Unopened read) {token : Token}
    (htoken : token = closeGroup → ∃ kind i, Partners (read ++ [token]) kind i read.length) :
    ¬ Unopened (read ++ [token]) := by
  rintro ⟨j, hclose, hnone⟩
  obtain ⟨hj, -⟩ := List.getElem?_eq_some_iff.mp hclose
  rw [List.length_append, List.length_singleton] at hj
  rcases Nat.lt_or_eq_of_le (Nat.le_of_lt_succ hj) with hlt | rfl
  · rw [List.getElem?_append_left hlt] at hclose
    exact h ⟨j, hclose, fun kind i hi => hnone kind i ((partners_append_iff hlt _).mpr hi)⟩
  · rw [List.getElem?_concat_length] at hclose
    obtain ⟨kind, i, hi⟩ := htoken (Option.some.inj hclose)
    exact hnone kind i hi

/-- The parenthesis that closes a group or an argument once it is marked. -/
def Opened.closer : Opened → Token
  | group => closeGroup
  | call => closeCall

/-- Whatever closes nothing stays as it is. -/
theorem Marking.keep {before tokens : List Token} {opened next : List Opened} {token : Token}
    (h : Marking before opened tokens) (htoken : token ≠ closeGroup)
    (hnext : Pending (before ++ [token]) next) :
    Marking (before ++ [token]) next (tokens ++ [token]) where
  pending := hnext
  marked := h.marked.concat (fun _ hi => absurd (partners_concat_iff.mp hi).1 htoken) fun _ => rfl
  closed := not_unopened_concat h.closed fun hclose => absurd hclose htoken

/-- A closing parenthesis closes the latest that is open, and is marked if that is an argument's. -/
theorem Marking.close {before tokens : List Token} {kind : Opened} {opened : List Opened}
    (h : Marking before (kind :: opened) tokens) :
    Marking (before ++ [closeGroup]) opened (tokens ++ [kind.closer]) := by
  cases hpending : h.pending with
  | @opened _ start inner _ hstart hinner =>
    have hlast : ∀ other i, Partners (start ++ kind.opener :: inner ++ [closeGroup]) other i
        (start ++ kind.opener :: inner).length ↔ other = kind ∧ i = start.length := by
      intro other i
      rw [partners_concat_iff]
      constructor
      · rintro ⟨-, start', inner', hread, hinner', rfl⟩
        obtain ⟨rfl, rfl⟩ := opener_unique hinner hinner' hread
        exact ⟨rfl, rfl⟩
      · rintro ⟨rfl, rfl⟩
        exact ⟨rfl, start, inner, rfl, hinner, rfl⟩
    constructor
    · rw [List.append_assoc, List.cons_append]
      exact hstart.append (.pair kind hinner .nil)
    · apply h.marked.concat
      · intro i hi
        rw [← ((hlast _ _).mp hi).1]
        rfl
      · intro hnone
        cases kind with
        | group => rfl
        | call => exact absurd ((hlast _ _).mpr ⟨rfl, rfl⟩) (hnone start.length)
    · exact not_unopened_concat h.closed fun _ => ⟨kind, start.length, (hlast _ _).mpr ⟨rfl, rfl⟩⟩

theorem markCallsFrom_opener (kind : Opened) (opened : List Opened) (tokens : List Token) :
    markCallsFrom opened (kind.opener :: tokens) =
      (kind.opener :: ·) <$> markCallsFrom (kind :: opened) tokens := by
  cases kind <;> rw [Opened.opener, markCallsFrom]

theorem markCallsFrom_closeGroup (kind : Opened) (opened : List Opened) (tokens : List Token) :
    markCallsFrom (kind :: opened) (closeGroup :: tokens) =
      (kind.closer :: ·) <$> markCallsFrom opened tokens := by
  cases kind <;> rfl

theorem markCallsFrom_plain {token : Token} (htoken : token.isParenthesis = false)
    (opened : List Opened) (tokens : List Token) :
    markCallsFrom opened (token :: tokens) = (token :: ·) <$> markCallsFrom opened tokens := by
  cases token with
  | openGroup => cases htoken
  | openCall => cases htoken
  | closeGroup => cases htoken
  | _ => simp only [markCallsFrom]

/-- Marking the rest of a text goes on to its end, unless there is a parenthesis that closes
nothing. -/
theorem Marking.run {before tokens : List Token} {opened : List Opened}
    (h : Marking before opened tokens) (rest : List Token) :
    markCallsFrom opened rest = .error .malformed ∧ Unopened (before ++ rest) ∨
      ∃ left marked, Marking (before ++ rest) left (tokens ++ marked) ∧
        markCallsFrom opened rest = if .call ∈ left then .error .malformed else .ok marked := by
  induction rest generalizing before opened tokens with
  | nil =>
    refine .inr ⟨opened, [], ?_, rfl⟩
    rw [List.append_nil, List.append_nil]
    exact h
  | cons token rest ih =>
    -- The first token of the rest, and what is open behind it.
    have hgo : ∀ {next : List Opened} {mark : Token},
        Marking (before ++ [token]) next (tokens ++ [mark]) →
        markCallsFrom opened (token :: rest) = (mark :: ·) <$> markCallsFrom next rest →
        markCallsFrom opened (token :: rest) = .error .malformed ∧
            Unopened (before ++ token :: rest) ∨
          ∃ left marked, Marking (before ++ token :: rest) left (tokens ++ marked) ∧
            markCallsFrom opened (token :: rest) =
              if .call ∈ left then .error .malformed else .ok marked := by
      intro next mark hnext hmark
      rw [hmark, List.append_cons]
      rcases ih hnext with ⟨herror, hunopened⟩ | ⟨left, marked, hleft, hmarked⟩
      · rw [herror]
        exact .inl ⟨rfl, hunopened⟩
      · refine .inr ⟨left, mark :: marked, ?_, ?_⟩
        · rw [List.append_cons tokens]
          exact hleft
        · rw [hmarked]
          split <;> rfl
    rcases opener_or_closeGroup_or_plain token with ⟨kind, rfl⟩ | rfl | htoken
    · refine hgo (h.keep kind.opener_ne_closeGroup ?_) (markCallsFrom_opener kind opened rest)
      exact .opened kind h.pending .nil
    · cases opened with
      | cons kind opened => exact hgo h.close (markCallsFrom_closeGroup kind opened rest)
      | nil =>
        refine .inl ⟨rfl, before.length, by simp, ?_⟩
        intro kind i hi
        have hnested := h.pending.nested_of_nil
        rw [List.append_cons, partners_append_iff (by simp), partners_concat_iff] at hi
        obtain ⟨-, start, inner, rfl, hinner, -⟩ := hi
        exact hnested.not_open hinner
    · refine hgo (h.keep ?_ ?_) (markCallsFrom_plain htoken opened rest)
      · rintro rfl
        cases htoken
      · exact h.pending.append (.plain htoken .nil)

/-- Whether some parenthesis has no partner: one that closes, or one that opens an argument. -/
def Unmatched (read : List Token) : Prop := Unopened read ∨ Unclosed read

/-- Behind the last token, an argument is still open exactly if one is not closed. -/
theorem Pending.call_mem_iff {read : List Token} {left : List Opened} (h : Pending read left) :
    .call ∈ left ↔ Unclosed read := by
  constructor
  · intro hcall
    obtain ⟨before, rest, rfl, hrest⟩ := h.exists_rising hcall
    refine ⟨before.length, by simp [Opened.opener], ?_⟩
    rintro j ⟨before', inner, ⟨more, hread⟩, hinner, hlength, -⟩
    rw [List.append_assoc] at hread
    obtain ⟨-, hbehind⟩ := List.append_inj hread hlength.symm
    have hprefix : inner ++ [closeGroup] <+: rest := ⟨more, (List.cons.inj hbehind).2⟩
    -- The end of the argument would be one too many.
    have hclose : rise closeGroup = -1 := rfl
    have hheight := hrest _ hprefix
    rw [height_append, height_cons, hinner.height_eq_zero, hclose, height_nil] at hheight
    omega
  · rintro ⟨i, hopen, hnone⟩
    obtain ⟨hi, hget⟩ := List.getElem?_eq_some_iff.mp hopen
    have hread : read = read.take i ++ Opened.call.opener :: read.drop (i + 1) := by
      rw [Opened.opener, ← hget, ← List.drop_eq_getElem_cons hi, List.take_append_drop]
    have hlength : (read.take i).length = i := List.length_take_of_le (Nat.le_of_lt hi)
    rcases h.mem_or_exists_partner hread with hmem | ⟨inner, ⟨more, hinner⟩, hnested⟩
    · exact hmem
    · refine absurd ⟨read.take i, inner, ⟨more, ?_⟩, hnested, hlength.symm, rfl⟩ (hnone _)
      rw [List.append_assoc, List.cons_append, hinner, ← hread]

/-- Marking refuses a list with an unmatched parenthesis, and marks any other. -/
theorem markCalls_cases (read : List Token) :
    Unmatched read ∧ markCalls read = .error .malformed ∨
      ¬ Unmatched read ∧ ∃ tokens, markCalls read = .ok tokens ∧ MarkedBy read tokens := by
  have hstart : Marking [] [] [] := by
    refine ⟨.nested .nil, ⟨rfl, ?_, fun _ _ => rfl⟩, ?_⟩
    · intro i j hpartners
      exact absurd hpartners.lt_length (Nat.not_lt_zero j)
    · rintro ⟨j, hclose, -⟩
      cases hclose
  rcases hstart.run read with ⟨herror, hunopened⟩ | ⟨left, tokens, hleft, htokens⟩
  · exact .inl ⟨.inl hunopened, herror⟩
  · have hcall := hleft.pending.call_mem_iff
    rw [markCalls, htokens]
    split
    · rename_i hopen
      exact .inl ⟨.inr (hcall.mp hopen), rfl⟩
    · rename_i hopen
      refine .inr ⟨?_, tokens, rfl, hleft.marked⟩
      rintro (hunopened | hunclosed)
      · exact hleft.closed hunopened
      · exact hopen (hcall.mpr hunclosed)

end Token

namespace Lexer

variable {M : Type → Type} [NameTable M]

/-- Marking matches the parentheses of a text: it refuses a text where some parenthesis closes
nothing or some argument is not closed, and in any other it marks the ends of the arguments and
nothing else.  A group that is not closed is not its concern. -/
theorem tokens_markedBy {lexer : Lexer M} {read : List Token}
    (h : lexer.items = read.map .ok) :
    (lexer.tokens = .error .malformed ↔ Token.Unmatched read) ∧
      (¬ Token.Unmatched read → ∃ tokens, lexer.tokens = .ok tokens ∧
        Token.MarkedBy read tokens) := by
  have htokens : lexer.tokens = Token.markCalls read := by
    rw [tokens, Outcomes.mapM_id_eq_ok_iff.mpr h]
    rfl
  rw [htokens]
  rcases Token.markCalls_cases read with ⟨hunmatched, herror⟩ | ⟨hmatched, tokens, hok, hmarked⟩
  · exact ⟨iff_of_true herror hunmatched, fun hmatched => absurd hunmatched hmatched⟩
  · refine ⟨iff_of_false ?_ hmatched, fun _ => ⟨tokens, hok, hmarked⟩⟩
    rw [hok]
    simp

/-- A group in an argument, and one behind it that is never closed. -/
theorem tokens_markedBy_open_group :
    let lexer := Lexer.ofText standardNames "sin((2)+x)*(3"
    let read : List Token := [.fn .sin [], .openCall, .openGroup, .digit 2, .closeGroup,
      .operator .add, .var, .closeGroup, .operator .mul, .openGroup, .digit 3]
    (lexer.items = read.map .ok ∧ ¬ Token.Unmatched read) ∧
      ∃ tokens, lexer.tokens = .ok tokens ∧ Token.MarkedBy read tokens ∧
        tokens[7]? = some .closeCall := by
  intro lexer read
  have hspells : Spells "sin((2)+x)*(3".toList read :=
    .call .sin (.single rfl (.single rfl (.single rfl (.single rfl (.single rfl (.single rfl
      (.single rfl (.single rfl (.single rfl .nil)))))))))
  have hitems : lexer.items = read.map .ok :=
    Outcomes.mapM_id_eq_ok_iff.mp (Lexer.items_of_spells hspells)
  obtain ⟨herror, hmarks⟩ := tokens_markedBy hitems
  have hok : lexer.tokens.isOk := by decide +kernel
  have hmatched : ¬ Token.Unmatched read := by
    rw [← herror]
    intro hmalformed
    rw [hmalformed] at hok
    cases hok
  obtain ⟨tokens, htokens, hmarked⟩ := hmarks hmatched
  have hnested : Token.Nested [.openGroup, .digit 2, .closeGroup, .operator .add, .var] :=
    .pair .group (.plain rfl .nil) (.plain rfl (.plain rfl .nil))
  have hpartners : Token.Partners read .call 1 7 :=
    ⟨[.fn .sin []], _, ⟨_, rfl⟩, hnested, rfl, rfl⟩
  exact ⟨⟨hitems, hmatched⟩, tokens, htokens, hmarked, hmarked.marks _ _ hpartners⟩

end Lexer

end Calculator

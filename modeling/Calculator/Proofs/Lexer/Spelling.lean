import Calculator.Proofs.NameTable.Lookup
import Calculator.Proofs.Numeral.Plain
import Calculator.Proofs.Outcomes
import Mathlib.Tactic.IntervalCases

/-!
# Texts and the tokens they spell

`Spells text tokens` says without a lexer which tokens a text consists of, as long as
all its closing parentheses count as those of groups.  `Token.bracket` follows the
brackets that are open along a list of tokens.

* `Lexer.Reads names text tokens` says with which first tokens a text can be read with the
  names of a table, one after the other, and by `Lexer.reads_iff` this is what the lexer
  gives.
* `Lexer.spells_of_items` and `Lexer.items_of_spells`: with the standard names, the
  lexer gives the tokens a text spells, and an error if there are none.
* `Token.markCallsFrom_eq_ok_iff`: marking gives the list that differs in its marks
  only and whose brackets match.
* `Lexer.tokens_iff_reads` and, for the standard names, `Lexer.tokens_eq_ok_iff` put both
  together.
-/

namespace Calculator

open Outcomes (bind_eq_ok_iff map_eq_ok_iff mapM_id_eq_ok_iff)

/-! ## Spelling -/

/-- The tokens of a text, read with the standard names and without marks. -/
inductive Spells : List Char → List Token → Prop where
  | nil : Spells [] []
  | single {c : Char} {cs : List Char} {token : Token} {tokens : List Token}
      (hc : Token.ofChar? c = some token) (tail : Spells cs tokens) :
      Spells (c :: cs) (token :: tokens)
  | pi {cs : List Char} {tokens : List Token} (tail : Spells cs tokens) :
      Spells ('p' :: 'i' :: cs) (.constant .pi :: tokens)
  | call {cs : List Char} {tokens : List Token} (f : Fn) (tail : Spells cs tokens) :
      Spells (f.name.toList ++ '(' :: cs) (.fn f [] :: .openCall :: tokens)

theorem Spells.append {cs ds : List Char} {tokens more : List Token} (h : Spells cs tokens)
    (hmore : Spells ds more) : Spells (cs ++ ds) (tokens ++ more) := by
  induction h with
  | nil => exact hmore
  | single hc _ ih => exact .single hc ih
  | pi _ ih => exact .pi ih
  | call f _ ih =>
    rw [List.append_assoc]
    exact .call f ih

/-- A digit is read as itself. -/
theorem digitChar_of_isDigit {c : Char} (h : c.isDigit) :
    Nat.digitChar (Fin.ofNat 10 (c.toNat - '0'.toNat)) = c := by
  have hbounds : 48 ≤ c.toNat ∧ c.toNat ≤ 57 := by
    simpa [Char.isDigit, UInt32.le_iff_toNat_le] using h
  have hchar : c = Char.ofNat c.toNat := (Char.ofNat_toNat c).symm
  rw [hchar]
  obtain ⟨hlow, hhigh⟩ := hbounds
  generalize c.toNat = n at hlow hhigh
  interval_cases n <;> rfl

/-- White space is a token, whichever it is. -/
theorem Token.ofChar?_of_isBlank {c : Char} (h : Text.isBlank c) :
    Token.ofChar? c = some .space := by
  unfold Token.ofChar?
  exact if_pos h

/-- A character that is a token by itself is white space or the spelling of the token. -/
theorem Token.ofChar?_eq_some {c : Char} {token : Token} (h : Token.ofChar? c = some token) :
    token = .space ∧ Text.isBlank c ∨ token ≠ .space ∧ token.spelling.toList = [c] := by
  unfold Token.ofChar? at h
  split at h
  · rename_i hblank
    cases h
    exact .inl ⟨rfl, hblank⟩
  · right
    split at h
    · rename_i hdigit
      cases h
      refine ⟨by simp, ?_⟩
      rw [Token.spelling, digitChar_of_isDigit hdigit, String.toList_singleton]
    · split at h
      case h_6 =>
        obtain ⟨op, hop, rfl⟩ := Option.map_eq_some_iff.mp h
        refine ⟨by simp, ?_⟩
        rw [Operator.ofChar?_eq_some_iff.mp hop, Token.spelling, String.toList_singleton]
      all_goals
        cases h
        exact ⟨by simp, rfl⟩

/-- Whether a token can be written as the given characters. -/
def Token.WrittenAs (token : Token) (piece : List Char) : Prop :=
  token = .space ∧ (∃ c, Text.isBlank c ∧ piece = [c]) ∨
    token ≠ .space ∧ piece = token.spelling.toList

theorem Token.WrittenAs.eq_spelling {token : Token} {piece : List Char}
    (h : token.WrittenAs piece) (hspace : token ≠ .space) : piece = token.spelling.toList := by
  rcases h with ⟨rfl, -⟩ | ⟨-, hpiece⟩
  · exact absurd rfl hspace
  · exact hpiece

theorem Spells.eq_nil {tokens : List Token} (h : Spells [] tokens) : tokens = [] := by
  generalize hall : ([] : List Char) = all at h
  cases h with
  | nil => rfl
  | call f _ => simp at hall
  | _ => cases hall

/-- What a text begins with if its first token is no function. -/
theorem Spells.exists_of_cons {cs : List Char} {token : Token} {tokens : List Token}
    (h : Spells cs (token :: tokens)) (hfn : token.isFn = false) :
    ∃ piece rest, cs = piece ++ rest ∧ token.WrittenAs piece ∧ Spells rest tokens := by
  cases h with
  | @single c rest _ _ hc tail =>
    refine ⟨[c], rest, rfl, ?_, tail⟩
    rcases Token.ofChar?_eq_some hc with ⟨rfl, hblank⟩ | ⟨hspace, hspelling⟩
    · exact .inl ⟨rfl, c, hblank, rfl⟩
    · exact .inr ⟨hspace, hspelling.symm⟩
  | @pi rest _ tail => exact ⟨['p', 'i'], rest, rfl, .inr ⟨by simp, rfl⟩, tail⟩
  | call f _ => cases hfn

/-- What a text begins with if its first token is a function. -/
theorem Spells.exists_of_fn {cs : List Char} {f : Fn} {arg tokens : List Token}
    (h : Spells cs (.fn f arg :: tokens)) :
    arg = [] ∧ ∃ rest more, cs = f.name.toList ++ '(' :: rest ∧ tokens = .openCall :: more ∧
      Spells rest more := by
  cases h with
  | single hc _ => cases Token.isFn_of_ofChar? hc
  | @call rest more _ tail => exact ⟨rfl, rest, more, rfl, rfl, tail⟩

/-- Whether a token may be read from a single character. -/
def Token.isSingle : Token → Bool
  | negative | literal _ | fn .. | openCall | closeCall => false
  | _ => true

theorem Token.isSingle_of_ofChar? {c : Char} {token : Token} (h : Token.ofChar? c = some token) :
    token.isSingle := by
  unfold Token.ofChar? at h
  split at h
  · cases h
    rfl
  · split at h
    · cases h
      rfl
    · split at h
      case h_6 =>
        obtain ⟨op, -, rfl⟩ := Option.map_eq_some_iff.mp h
        rfl
      all_goals
        cases h
        rfl

/-- The tokens that come with a first one: a function brings its parenthesis. -/
def Token.withCall (token : Token) : List Token :=
  if token.isFn then [token, .openCall] else [token]

namespace Lexer

/-! ## Items -/

variable {M : Type → Type} [NameTable M]

/-- The items of a lexer that is not at its end. -/
theorem items_of_next? {lexer after : Lexer M} {item : Except ReadError Token}
    (h : lexer.next? = some (item, after)) : lexer.items = item :: after.items := by
  rw [items]
  split
  · rename_i hnone
    rw [h] at hnone
    cases hnone
  · rename_i hsome
    rw [h] at hsome
    cases hsome
    rfl

theorem items_of_next?_eq_none {lexer : Lexer M} (h : lexer.next? = none) : lexer.items = [] := by
  rw [items]
  split
  · rfl
  · rename_i hsome
    rw [h] at hsome
    cases hsome

theorem items_nil (names : M Fn) : (⟨names, [], false⟩ : Lexer M).items = [] :=
  items_of_next?_eq_none rfl

theorem items_cons_ok {names : M Fn} {c : Char} {cs rest : List Char} {token : Token}
    (h : first? names c cs = .ok (token, rest)) :
    (⟨names, c :: cs, false⟩ : Lexer M).items =
      .ok token :: (⟨names, rest, token.isFn⟩ : Lexer M).items := by
  apply items_of_next?
  simp [next?, h]

theorem items_cons_error {names : M Fn} {c : Char} {cs : List Char} {e : ReadError}
    (h : first? names c cs = .error e) :
    (⟨names, c :: cs, false⟩ : Lexer M).items = [.error e] := by
  have hnext : (⟨names, c :: cs, false⟩ : Lexer M).next? =
      some (.error e, ⟨names, [], false⟩) := by
    simp [next?, h]
  rw [items_of_next? hnext, items_nil]

theorem items_owed (names : M Fn) (cs : List Char) :
    (⟨names, cs, true⟩ : Lexer M).items =
      .ok .openCall :: (⟨names, cs, false⟩ : Lexer M).items :=
  items_of_next? rfl

/-- What begins a text: a character that is a token, `pi`, or a name of the table. -/
theorem first?_eq_ok_iff {names : M Fn} {c : Char} {cs rest : List Char} {token : Token} :
    first? names c cs = .ok (token, rest) ↔
      (Token.ofChar? c = some token ∧ cs = rest) ∨
      (c = 'p' ∧ cs = 'i' :: rest ∧ token = .constant .pi) ∨
      ∃ f : Fn, (Token.ofChar? c = none ∧ c.isAlpha ∧ ∀ more, c :: cs ≠ 'p' :: 'i' :: more) ∧
        name? names (c :: cs) = .ok (f, rest) ∧ token = .fn f [] := by
  unfold first?
  constructor
  · intro h
    split at h
    · rename_i single hsingle
      cases h
      exact .inl ⟨hsingle, rfl⟩
    · rename_i hsingle
      split at h
      · rename_i halpha
        unfold word? at h
        split at h
        · rename_i hword
          cases h
          cases hword
          exact .inr (.inl ⟨rfl, rfl, rfl⟩)
        · rename_i hpi
          split at h
          · rename_i f after hname
            cases h
            exact .inr (.inr ⟨f, ⟨hsingle, halpha, hpi⟩, hname, rfl⟩)
          · cases h
      · cases h
  · rintro (⟨hc, rfl⟩ | ⟨rfl, rfl, rfl⟩ | ⟨f, ⟨hsingle, halpha, hpi⟩, hname, rfl⟩)
    · rw [hc]
    · rfl
    · rw [hsingle]
      dsimp only
      rw [if_pos halpha, word?, hname]
      exact hpi

/-- A token that begins a text is a function or has no brackets of an argument. -/
theorem isSingle_or_isFn_of_first? {names : M Fn} {c : Char} {cs rest : List Char} {token : Token}
    (h : first? names c cs = .ok (token, rest)) : token.isSingle ∨ token.isFn := by
  rcases first?_eq_ok_iff.mp h with ⟨hc, rfl⟩ | ⟨-, -, rfl⟩ | ⟨f, -, -, rfl⟩
  · exact .inl (Token.isSingle_of_ofChar? hc)
  · exact .inl rfl
  · exact .inr rfl

/-- The first token of a text, read with the standard names. -/
theorem first?_standardNames_iff {c : Char} {cs rest : List Char} {token : Token} :
    first? standardNames c cs = .ok (token, rest) ↔
      (Token.ofChar? c = some token ∧ cs = rest) ∨
      (c = 'p' ∧ cs = 'i' :: rest ∧ token = .constant .pi) ∨
      ∃ f : Fn, c :: cs = f.name.toList ++ '(' :: rest ∧ token = .fn f [] := by
  rw [first?_eq_ok_iff]
  refine or_congr_right (or_congr_right (exists_congr fun f => ?_))
  rw [name?_standardNames_iff]
  constructor
  · rintro ⟨-, htext, rfl⟩
    exact ⟨htext, rfl⟩
  · rintro ⟨htext, rfl⟩
    refine ⟨?_, htext, rfl⟩
    have hhead : Token.ofChar? c = none ∧ c.isAlpha ∧ c ≠ 'p' := by
      cases f <;> (obtain ⟨rfl, -⟩ := List.cons.inj htext; decide)
    obtain ⟨hsingle, halpha, hp⟩ := hhead
    exact ⟨hsingle, halpha, fun more hmore => hp (List.cons.inj hmore).1⟩

/-- The first token does not depend on what follows its characters. -/
theorem first?_append {c : Char} {cs rest : List Char} {token : Token}
    (h : first? standardNames c cs = .ok (token, rest)) (more : List Char) :
    first? standardNames c (cs ++ more) = .ok (token, rest ++ more) := by
  apply first?_standardNames_iff.mpr
  rcases first?_standardNames_iff.mp h with ⟨hc, rfl⟩ | ⟨rfl, rfl, rfl⟩ | ⟨f, htext, rfl⟩
  · exact .inl ⟨hc, rfl⟩
  · exact .inr (.inl ⟨rfl, rfl, rfl⟩)
  · refine .inr (.inr ⟨f, ?_, rfl⟩)
    rw [← List.cons_append, htext, List.append_assoc, List.cons_append]

/-- The items of a text are those of its first token and of the text behind it. -/
theorem items_cons {names : M Fn} {c : Char} {cs rest : List Char} {token : Token}
    (h : first? names c cs = .ok (token, rest)) :
    (⟨names, c :: cs, false⟩ : Lexer M).items =
      token.withCall.map .ok ++ (⟨names, rest, false⟩ : Lexer M).items := by
  rw [items_cons_ok h, Token.withCall]
  cases token.isFn with
  | false => rfl
  | true =>
    rw [items_owed]
    rfl

/-- The tokens of a text without marks, read with the names of a table. -/
inductive Reads (names : M Fn) : List Char → List Token → Prop where
  | nil : Reads names [] []
  | cons {c : Char} {cs rest : List Char} {token : Token} {tokens : List Token}
      (hfirst : first? names c cs = .ok (token, rest)) (tail : Reads names rest tokens) :
      Reads names (c :: cs) (token.withCall ++ tokens)

/-- A text is read as tokens if the lexer gives these and no error. -/
theorem reads_iff {names : M Fn} {cs : List Char} {read : List Token} :
    Reads names cs read ↔ (⟨names, cs, false⟩ : Lexer M).items = read.map .ok := by
  constructor
  · intro h
    induction h with
    | nil => exact items_nil names
    | cons hfirst _ ih => rw [items_cons hfirst, ih, List.map_append]
  · intro h
    induction hn : cs.length using Nat.strongRecOn generalizing cs read with
    | _ n ih =>
    subst hn
    cases cs with
    | nil =>
      rw [items_nil] at h
      rw [List.map_eq_nil_iff.mp h.symm]
      exact .nil
    | cons c cs =>
      cases hfirst : first? names c cs with
      | error e =>
        rw [items_cons_error hfirst] at h
        obtain ⟨token, _, _, htoken, _⟩ := List.map_eq_cons_iff.mp h.symm
        cases htoken
      | ok found =>
        obtain ⟨token, rest⟩ := found
        have hlt := length_lt_of_first? hfirst
        rw [items_cons hfirst] at h
        obtain ⟨now, later, rfl, hnow, hlater⟩ := List.map_eq_append_iff.mp h.symm
        rw [List.map_inj_right fun _ _ => Except.ok.inj] at hnow
        subst hnow
        exact .cons hfirst (ih rest.length (by omega) hlater.symm rfl)

/-- Besides the parenthesis that a function brings, there is nothing but what begins a text. -/
theorem Reads.isSingle_or_of_mem {names : M Fn} {cs : List Char} {read : List Token}
    (h : Reads names cs read) {token : Token} (hmem : token ∈ read) :
    token.isSingle ∨ token.isFn ∨ token = .openCall := by
  induction h with
  | nil => cases hmem
  | @cons c cs rest first tokens hfirst _ ih =>
    rcases List.mem_append.mp hmem with hbegin | htail
    · have hkind := isSingle_or_isFn_of_first? hfirst
      rw [Token.withCall] at hbegin
      split at hbegin
      · rcases List.mem_cons.mp hbegin with rfl | hparen
        · exact hkind.imp_right .inl
        · exact .inr (.inr (List.mem_singleton.mp hparen))
      · rw [List.mem_singleton.mp hbegin]
        exact hkind.imp_right .inl
    · exact ih htail

/-- The marks are still to be made. -/
theorem Reads.closeCall_not_mem {names : M Fn} {cs : List Char} {read : List Token}
    (h : Reads names cs read) : Token.closeCall ∉ read := by
  intro hmem
  have hkind := h.isSingle_or_of_mem hmem
  simp [Token.isSingle, Token.isFn] at hkind

end Lexer

/-- What a text is spelled by, seen from its first token. -/
theorem Spells.cons_iff {c : Char} {cs : List Char} {tokens : List Token} :
    Spells (c :: cs) tokens ↔
      ∃ token rest more, Lexer.first? standardNames c cs = .ok (token, rest) ∧
        Spells rest more ∧ tokens = token.withCall ++ more := by
  constructor
  · intro h
    generalize hall : c :: cs = all at h
    cases h with
    | nil => cases hall
    | @single d rest token more hd tail =>
      cases hall
      refine ⟨token, cs, more, Lexer.first?_standardNames_iff.mpr (.inl ⟨hd, rfl⟩), tail, ?_⟩
      rw [Token.withCall, Token.isFn_of_ofChar? hd]
      rfl
    | @pi rest more tail =>
      cases hall
      exact ⟨.constant .pi, rest, more, rfl, tail, rfl⟩
    | @call rest more f tail =>
      exact ⟨.fn f [], rest, more, Lexer.first?_standardNames_iff.mpr (.inr (.inr ⟨f, hall, rfl⟩)),
        tail, rfl⟩
  · intro h
    obtain ⟨token, rest, more, hfirst, hmore, rfl⟩ := h
    rcases Lexer.first?_standardNames_iff.mp hfirst with
      ⟨hc, rfl⟩ | ⟨rfl, rfl, rfl⟩ | ⟨f, htext, rfl⟩
    · rw [Token.withCall, Token.isFn_of_ofChar? hc]
      exact .single hc hmore
    · exact .pi hmore
    · rw [htext]
      exact .call f hmore

namespace Lexer

/-- With the standard names, a text is read as the tokens that spell it. -/
theorem reads_standardNames_iff {cs : List Char} {tokens : List Token} :
    Reads standardNames cs tokens ↔ Spells cs tokens := by
  constructor
  · intro h
    induction h with
    | nil => exact .nil
    | cons hfirst _ ih => exact Spells.cons_iff.mpr ⟨_, _, _, hfirst, ih, rfl⟩
  · intro h
    induction hn : cs.length using Nat.strongRecOn generalizing cs tokens with
    | _ n ih =>
    subst hn
    cases cs with
    | nil =>
      rw [h.eq_nil]
      exact .nil
    | cons c cs =>
      obtain ⟨token, rest, more, hfirst, hmore, rfl⟩ := Spells.cons_iff.mp h
      have hlt := length_lt_of_first? hfirst
      exact .cons hfirst (ih rest.length (by omega) hmore rfl)

/-- The items of a text whose beginning is spelled by tokens are these and those of the rest. -/
theorem items_append {cs : List Char} {tokens : List Token} (h : Spells cs tokens)
    (rest : List Char) :
    (⟨standardNames, cs ++ rest, false⟩ : Lexer NameTable.Trie).items =
      tokens.map .ok ++ (⟨standardNames, rest, false⟩ : Lexer NameTable.Trie).items := by
  have hreads := reads_standardNames_iff.mpr h
  clear h
  induction hreads with
  | nil => rfl
  | cons hfirst _ ih =>
    rw [List.cons_append, items_cons (first?_append hfirst rest), ih, List.map_append,
      List.append_assoc]

/-- A text is what its tokens spell and a rest, which is empty or gives an error. -/
theorem exists_spells_append (cs : List Char) :
    ∃ tokens taken rest, cs = taken ++ rest ∧ Spells taken tokens ∧
      (rest = [] ∨
        ∃ c behind e, rest = c :: behind ∧ first? standardNames c behind = .error e) := by
  induction hn : cs.length using Nat.strongRecOn generalizing cs with
  | _ n ih =>
  subst hn
  cases cs with
  | nil => exact ⟨[], [], [], rfl, .nil, .inl rfl⟩
  | cons c cs =>
    cases hfirst : first? standardNames c cs with
    | error e => exact ⟨[], [], c :: cs, rfl, .nil, .inr ⟨c, cs, e, rfl, hfirst⟩⟩
    | ok found =>
      obtain ⟨token, behind⟩ := found
      have hlt := length_lt_of_first? hfirst
      obtain ⟨tokens, taken, rest, rfl, hspells, hrest⟩ := ih behind.length (by omega) behind rfl
      refine ⟨token.withCall ++ tokens, ?_⟩
      rcases first?_standardNames_iff.mp hfirst with
        ⟨hc, rfl⟩ | ⟨rfl, rfl, rfl⟩ | ⟨f, htext, rfl⟩
      · rw [Token.withCall, Token.isFn_of_ofChar? hc]
        exact ⟨c :: taken, rest, rfl, .single hc hspells, hrest⟩
      · exact ⟨'p' :: 'i' :: taken, rest, rfl, .pi hspells, hrest⟩
      · refine ⟨f.name.toList ++ '(' :: taken, rest, ?_, .call f hspells, hrest⟩
        rw [htext, List.append_assoc, List.cons_append]

/-- A text that is spelled by tokens gives these and no error. -/
theorem items_of_spells {cs : List Char} {tokens : List Token} (h : Spells cs tokens) :
    (⟨standardNames, cs, false⟩ : Lexer NameTable.Trie).items.mapM id = .ok tokens :=
  mapM_id_eq_ok_iff.mpr (reads_iff.mp (reads_standardNames_iff.mpr h))

/-- The tokens that the lexer gives spell the text. -/
theorem spells_of_items {cs : List Char} {tokens : List Token}
    (h : (⟨standardNames, cs, false⟩ : Lexer NameTable.Trie).items.mapM id = .ok tokens) :
    Spells cs tokens :=
  reads_standardNames_iff.mp (reads_iff.mpr (mapM_id_eq_ok_iff.mp h))

end Lexer

/-! ## Marks -/

namespace Token

/-- A token as it is read, before the ends of arguments are marked. -/
def unmark : Token → Token
  | closeCall => closeGroup
  | token => token

/-- The brackets that are open behind a token, the latest first. -/
def bracket (opened : List Opened) : Token → Option (List Opened)
  | openCall => some (.call :: opened)
  | openGroup => some (.group :: opened)
  | closeCall =>
    match opened with
    | .call :: opened => some opened
    | _ => none
  | closeGroup =>
    match opened with
    | .group :: opened => some opened
    | _ => none
  | _ => some opened

/-- What marking does with one token: it is marked so that its bracket matches. -/
theorem markCallsFrom_cons_eq_ok_iff {opened : List Opened} {token : Token}
    {read tokens : List Token} (htoken : token ≠ closeCall) :
    markCallsFrom opened (token :: read) = .ok tokens ↔
      ∃ marked next rest, unmark marked = token ∧ bracket opened marked = some next ∧
        markCallsFrom next read = .ok rest ∧ tokens = marked :: rest := by
  constructor
  · intro h
    cases token with
    | closeCall => exact absurd rfl htoken
    | closeGroup =>
      cases opened with
      | nil => cases h
      | cons kind opened =>
        cases kind with
        | call =>
          obtain ⟨rest, hrest, rfl⟩ := map_eq_ok_iff.mp h
          exact ⟨closeCall, opened, rest, rfl, rfl, hrest, rfl⟩
        | group =>
          obtain ⟨rest, hrest, rfl⟩ := map_eq_ok_iff.mp h
          exact ⟨closeGroup, opened, rest, rfl, rfl, hrest, rfl⟩
    | _ =>
      simp only [markCallsFrom] at h
      obtain ⟨rest, hrest, rfl⟩ := map_eq_ok_iff.mp h
      exact ⟨_, _, rest, rfl, rfl, hrest, rfl⟩
  · intro h
    obtain ⟨marked, next, rest, rfl, hnext, hrest, rfl⟩ := h
    cases marked with
    | closeCall =>
      cases opened with
      | nil => cases hnext
      | cons kind opened =>
        cases kind <;> cases hnext
        exact map_eq_ok_iff.mpr ⟨rest, hrest, rfl⟩
    | closeGroup =>
      cases opened with
      | nil => cases hnext
      | cons kind opened =>
        cases kind <;> cases hnext
        exact map_eq_ok_iff.mpr ⟨rest, hrest, rfl⟩
    | _ =>
      cases hnext
      simp only [unmark, markCallsFrom]
      exact map_eq_ok_iff.mpr ⟨rest, hrest, rfl⟩

theorem markCallsFrom_nil_eq_ok_iff {opened : List Opened} {tokens : List Token} :
    markCallsFrom opened [] = .ok tokens ↔ Opened.call ∉ opened ∧ tokens = [] := by
  rw [markCallsFrom]
  split
  · simp_all
  · simp_all [eq_comm]

/-- Marking gives the list that differs from the one read only in its marks and has matching
brackets. -/
theorem markCallsFrom_eq_ok_iff {opened : List Opened} {read tokens : List Token}
    (hread : closeCall ∉ read) :
    markCallsFrom opened read = .ok tokens ↔
      tokens.map unmark = read ∧
        ∃ left, tokens.foldlM bracket opened = some left ∧ Opened.call ∉ left := by
  induction read generalizing opened tokens with
  | nil =>
    rw [markCallsFrom_nil_eq_ok_iff]
    constructor
    · intro h
      obtain ⟨hcall, rfl⟩ := h
      exact ⟨rfl, opened, rfl, hcall⟩
    · intro h
      obtain ⟨hmap, left, hleft, hcall⟩ := h
      obtain rfl := List.map_eq_nil_iff.mp hmap
      cases hleft
      exact ⟨hcall, rfl⟩
  | cons token read ih =>
    have htoken : token ≠ closeCall := fun h => hread (h ▸ List.mem_cons_self)
    have htail : closeCall ∉ read := fun h => hread (List.mem_cons_of_mem _ h)
    rw [markCallsFrom_cons_eq_ok_iff htoken]
    constructor
    · intro h
      obtain ⟨marked, next, rest, rfl, hnext, hrest, rfl⟩ := h
      obtain ⟨hmap, left, hleft, hcall⟩ := (ih htail).mp hrest
      refine ⟨by rw [List.map_cons, hmap], left, ?_, hcall⟩
      rw [List.foldlM_cons, hnext]
      exact hleft
    · intro h
      obtain ⟨hmap, left, hleft, hcall⟩ := h
      cases tokens with
      | nil => cases hmap
      | cons marked rest =>
        obtain ⟨hmarked, hrest⟩ := List.cons.inj hmap
        rw [List.foldlM_cons] at hleft
        obtain ⟨next, hnext, hleft⟩ := Option.bind_eq_some_iff.mp hleft
        have hmarks := (ih htail).mpr ⟨hrest, left, hleft, hcall⟩
        exact ⟨marked, next, rest, hmarked, hnext, hmarks, rfl⟩

/-! ## Lists whose brackets match -/

/-- Whether every bracket of a list is opened and closed in it. -/
def Balanced (tokens : List Token) : Prop :=
  ∀ opened, tokens.foldlM bracket opened = some opened

theorem balanced_nil : Balanced [] := fun _ => rfl

theorem Balanced.append {tokens more : List Token} (h : Balanced tokens) (hmore : Balanced more) :
    Balanced (tokens ++ more) := by
  intro opened
  rw [List.foldlM_append, h opened]
  exact hmore opened

/-- A token that is no bracket. -/
theorem Balanced.cons {token : Token} {tokens : List Token}
    (htoken : ∀ opened, bracket opened token = some opened) (h : Balanced tokens) :
    Balanced (token :: tokens) := by
  intro opened
  rw [List.foldlM_cons, htoken opened]
  exact h opened

theorem Balanced.group {tokens : List Token} (h : Balanced tokens) :
    Balanced (openGroup :: tokens ++ [closeGroup]) := by
  intro opened
  rw [List.cons_append, List.foldlM_cons, bracket]
  change List.foldlM bracket (.group :: opened) (tokens ++ [closeGroup]) = some opened
  rw [List.foldlM_append, h]
  rfl

theorem Balanced.call {tokens : List Token} (h : Balanced tokens) (f : Fn) (arg : List Token) :
    Balanced (fn f arg :: openCall :: tokens ++ [closeCall]) := by
  intro opened
  rw [List.cons_append, List.cons_append, List.foldlM_cons, bracket]
  change List.foldlM bracket (.call :: opened) (tokens ++ [closeCall]) = some opened
  rw [List.foldlM_append, h]
  rfl
  all_goals simp

/-- What a token does to the brackets does not depend on those that were open long before. -/
theorem bracket_append {opened next : List Opened} {token : Token}
    (h : bracket opened token = some next) (below : List Opened) :
    bracket (opened ++ below) token = some (next ++ below) := by
  cases token with
  | closeCall =>
    rcases opened with _ | ⟨kind, opened⟩
    · cases h
    · cases kind <;> cases h
      rfl
  | closeGroup =>
    rcases opened with _ | ⟨kind, opened⟩
    · cases h
    · cases kind <;> cases h
      rfl
  | _ =>
    cases h
    rfl

theorem foldlM_bracket_append {tokens : List Token} {opened left : List Opened}
    (h : tokens.foldlM bracket opened = some left) (below : List Opened) :
    tokens.foldlM bracket (opened ++ below) = some (left ++ below) := by
  induction tokens generalizing opened with
  | nil =>
    cases h
    rfl
  | cons token tokens ih =>
    rw [List.foldlM_cons] at h ⊢
    obtain ⟨next, hnext, hleft⟩ := Option.bind_eq_some_iff.mp h
    rw [bracket_append hnext]
    exact ih hleft

/-- Brackets that match by themselves match behind any others. -/
theorem balanced_of_foldlM {tokens : List Token} (h : tokens.foldlM bracket [] = some []) :
    Balanced tokens :=
  foldlM_bracket_append h

/-- The parts of a number are no brackets. -/
theorem balanced_parts {parts : List Token} (hparts : ∀ token ∈ parts, token.isNumberPart) :
    Balanced parts := by
  induction parts with
  | nil => exact balanced_nil
  | cons part parts ih =>
    obtain ⟨hpart, hparts⟩ := List.forall_mem_cons.mp hparts
    refine Balanced.cons ?_ (ih hparts)
    intro opened
    cases part <;> first | rfl | cases hpart

end Token

/-! ## Numbers -/

theorem Token.ofChar?_symbol (op : Operator) :
    Token.ofChar? op.symbol = some (.operator op) := by
  cases op <;> rfl

namespace PlainNumber

theorem spells_digitChars (digits : List (Fin 10)) :
    Spells (digitChars digits) ((digits.map Token.digit).map Token.unmark) := by
  induction digits with
  | nil => exact .nil
  | cons d digits ih => exact .single (Token.ofChar?_digitChar d) ih

/-- The characters of a number spell its tokens. -/
theorem spells (n : PlainNumber) : Spells n.chars (n.tokens.map Token.unmark) := by
  obtain ⟨whole, fraction, hasDigit⟩ := n
  cases fraction with
  | none => exact spells_digitChars whole
  | some digits =>
    have hpoint : Spells ('.' :: digitChars digits)
        ((Token.point :: digits.map Token.digit).map Token.unmark) :=
      .single rfl (spells_digitChars digits)
    simp only [chars, tokens, List.map_append]
    exact (spells_digitChars whole).append hpoint

theorem balanced (n : PlainNumber) : Token.Balanced n.tokens :=
  Token.balanced_parts fun _ => isNumberPart_of_mem_tokens

end PlainNumber

/-! ## The tokens of a text -/

/-- The tokens of a text are those it is read as, if their brackets match once they are marked. -/
theorem Lexer.tokens_iff_reads {M : Type → Type} [NameTable M] {names : M Fn} {text : String}
    {tokens : List Token} :
    (Lexer.ofText names text).tokens = .ok tokens ↔
      Lexer.Reads names text.toList (tokens.map Token.unmark) ∧
        ∃ left, tokens.foldlM Token.bracket [] = some left ∧ Token.Opened.call ∉ left := by
  constructor
  · intro h
    obtain ⟨read, hitems, hmarks⟩ := bind_eq_ok_iff.mp h
    have hreads := Lexer.reads_iff.mpr (mapM_id_eq_ok_iff.mp hitems)
    obtain ⟨rfl, hmatch⟩ := (Token.markCallsFrom_eq_ok_iff hreads.closeCall_not_mem).mp hmarks
    exact ⟨hreads, hmatch⟩
  · intro h
    obtain ⟨hreads, hmatch⟩ := h
    have hmarks := (Token.markCallsFrom_eq_ok_iff hreads.closeCall_not_mem).mpr ⟨rfl, hmatch⟩
    exact bind_eq_ok_iff.mpr ⟨_, mapM_id_eq_ok_iff.mpr (Lexer.reads_iff.mp hreads), hmarks⟩

/-- A text has tokens exactly if it is spelled by them and their brackets match. -/
theorem Lexer.tokens_eq_ok_iff {text : String} {tokens : List Token} :
    (Lexer.ofText standardNames text).tokens = .ok tokens ↔
      Spells text.toList (tokens.map Token.unmark) ∧
        ∃ left, tokens.foldlM Token.bracket [] = some left ∧ Token.Opened.call ∉ left := by
  rw [Lexer.tokens_iff_reads, Lexer.reads_standardNames_iff]

end Calculator

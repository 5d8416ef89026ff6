import Calculator.Proofs.Formula.Blanks
import Calculator.Proofs.Formula.Stages
import Calculator.Proofs.Lexer.Language

/-!
# Formulas read with other names

The table of names has its say only where a name begins.

* `Lexer.Reads.mono`: a text that is read with one table is read alike with any other that finds
  every function the first one finds.  A table that has got a new name is of this kind, if there
  is no parenthesis in the name (`Lexer.name?_concat`): at a place where a name with its
  parenthesis has been found, the new one is shorter.
* `Lexer.Reads.spells`: the tokens of a text spell a text with the standard names, whichever names
  it has been read with.  Every function brings its own parenthesis, so that its name cannot be
  taken for a longer one.
* `Lexer.first?_filter`: names that are idle (`Lexer.isIdle`) may be left out of a table.  They
  fit nowhere where a name is looked for, except the empty one, which counts as none.  Lexers
  whose tables agree on what begins a text give the same items (`Lexer.nth?_congr`).

`Formula.readWith_concat`, `Formula.outcome_respelled` and `Formula.readWith_filter_isIdle` say
what follows for whole formulas.
-/

namespace Calculator

open NameTable (Lawful longest? longest?_eq_iff ofEntries valueOf?_concat valueOf?_eq_some_iff)
open Text (byteLength_eq_zero_iff byteLength_toList)

namespace Lexer

variable {M N : Type → Type} [NameTable M] [NameTable N]

/-! ## Tables that find more -/

/-- What begins a text begins it with any table that finds every function, too. -/
theorem first?_mono {names : M Fn} {others : N Fn}
    (hnames : ∀ {text rest : List Char} {f : Fn},
      name? names text = .ok (f, rest) → name? others text = .ok (f, rest))
    {c : Char} {cs rest : List Char} {token : Token}
    (h : first? names c cs = .ok (token, rest)) : first? others c cs = .ok (token, rest) := by
  apply first?_eq_ok_iff.mpr
  rcases first?_eq_ok_iff.mp h with hsingle | hpi | ⟨f, hword, hname, htoken⟩
  · exact .inl hsingle
  · exact .inr (.inl hpi)
  · exact .inr (.inr ⟨f, hword, hnames hname, htoken⟩)

theorem Reads.mono {names : M Fn} {others : N Fn}
    (hnames : ∀ {text rest : List Char} {f : Fn},
      name? names text = .ok (f, rest) → name? others text = .ok (f, rest))
    {cs : List Char} {read : List Token} (h : Reads names cs read) : Reads others cs read := by
  induction h with
  | nil => exact .nil
  | cons hfirst _ ih => exact .cons (first?_mono hnames hfirst) ih

/-- A new name without a parenthesis hides no function that has been found before. -/
theorem name?_concat [Lawful M] {entries : List (String × Fn)} {added : String × Fn}
    (hparen : '(' ∉ added.1.toList) (hnew : ∀ entry ∈ entries, entry.1 ≠ added.1)
    {text rest : List Char} {f : Fn} (h : name? (ofEntries entries : M Fn) text = .ok (f, rest)) :
    name? (ofEntries (entries ++ [added]) : M Fn) text = .ok (f, rest) := by
  obtain ⟨name, rfl, hne, hlast, hgreatest⟩ := name?_ofEntries_iff.mp h
  refine name?_ofEntries_iff.mpr ⟨name, rfl, hne, ?_, ?_⟩
  · rw [← valueOf?_eq_some_iff, valueOf?_concat, if_neg (hnew _ hlast.mem)]
    exact valueOf?_eq_some_iff.mpr hlast
  · intro entry hmem hbegins
    rcases List.mem_append.mp hmem with hold | hadded
    · exact hgreatest entry hold hbegins
    · obtain rfl := List.mem_singleton.mp hadded
      exact utf8ByteSize_le_of_prefix (prefix_of_paren_not_mem hparen hbegins)

/-! ## Tokens spelled again -/

/-- What begins a text with any table can be written so that it begins a text with the standard
names. -/
theorem spells_of_first? {names : M Fn} {c : Char} {cs rest : List Char} {token : Token}
    (h : first? names c cs = .ok (token, rest)) {ds : List Char} {more : List Token}
    (hmore : Spells ds more) :
    Spells (token.withCall.flatMap (fun token => token.spelling.toList) ++ ds)
      (token.withCall ++ more) := by
  rcases first?_eq_ok_iff.mp h with ⟨hc, rfl⟩ | ⟨-, -, rfl⟩ | ⟨f, -, -, rfl⟩
  · rw [Token.withCall, Token.isFn_of_ofChar? hc, if_neg Bool.false_ne_true,
      List.flatMap_singleton]
    rcases Token.ofChar?_eq_some hc with ⟨rfl, -⟩ | ⟨-, hspelling⟩
    · exact .single rfl hmore
    · rw [hspelling]
      exact .single hc hmore
  · exact .pi hmore
  · have hcall : Token.withCall (.fn f []) = [.fn f [], .openCall] := rfl
    have hparen : [Token.openCall].flatMap (fun token => token.spelling.toList) = ['('] := rfl
    rw [hcall, List.flatMap_cons, hparen, List.append_assoc]
    exact .call f hmore

theorem Reads.spells {names : M Fn} {cs : List Char} {read : List Token}
    (h : Reads names cs read) :
    Spells (read.flatMap fun token => token.spelling.toList) read := by
  induction h with
  | nil => exact .nil
  | cons hfirst _ ih =>
    rw [List.flatMap_append]
    exact spells_of_first? hfirst ih

/-- The tokens of a text, with their marks, spell another text that has the same tokens. -/
theorem tokens_respelled {names : M Fn} {text : String} {tokens : List Token}
    (h : (ofText names text).tokens = .ok tokens) :
    (ofText standardNames (String.join (tokens.map Token.spelling))).tokens = .ok tokens := by
  obtain ⟨hreads, hmatch⟩ := tokens_iff_reads.mp h
  refine tokens_eq_ok_iff.mpr ⟨?_, hmatch⟩
  have hunmark : ∀ token : Token, token.unmark.spelling = token.spelling := by
    intro token
    cases token <;> rfl
  have hwritten : (String.join (tokens.map Token.spelling)).toList =
      (tokens.map Token.unmark).flatMap fun token => token.spelling.toList := by
    rw [String.toList_join, List.flatMap_map, List.flatMap_map]
    simp only [hunmark]
  rw [hwritten]
  exact hreads.spells

/-! ## Names that are not looked for -/

/-- Whether the lexer never looks for a name: it is empty, or begins with a token or with no
letter. -/
def isIdle : List Char → Bool
  | [] => true
  | 'x' :: _ => true
  | 'e' :: _ => true
  | 'p' :: 'i' :: _ => true
  | c :: _ => !c.isAlpha

/-- Where a name is looked for, no idle name fits but the empty one. -/
theorem isIdle_of_prefix {c : Char} {cs name : List Char} (hsingle : Token.ofChar? c = none)
    (halpha : c.isAlpha) (hpi : ∀ more, c :: cs ≠ 'p' :: 'i' :: more) (hne : name ≠ [])
    (hbegins : name <+: c :: cs) : isIdle name = false := by
  obtain ⟨d, name, rfl⟩ := List.exists_cons_of_ne_nil hne
  obtain ⟨rfl, tail, rfl⟩ := List.cons_prefix_cons.mp hbegins
  unfold isIdle
  split
  · contradiction
  · rename_i h
    cases h
    cases hsingle
  · rename_i h
    cases h
    cases hsingle
  · rename_i h
    cases h
    exact absurd rfl (hpi _)
  · rename_i h
    cases h
    simpa using halpha

/-- A function is named as before if all names that fit are kept.  The empty name is left out: it
counts as none where it is the longest. -/
theorem name?_filter [Lawful M] {keep : String × Fn → Bool} {entries : List (String × Fn)}
    {text : List Char}
    (hkeep : ∀ entry ∈ entries, entry.1.toList <+: text → entry.1.utf8ByteSize ≠ 0 → keep entry)
    (hempty : ∀ entry ∈ entries, keep entry → entry.1.utf8ByteSize ≠ 0) :
    name? (ofEntries (entries.filter keep) : M Fn) text =
      name? (ofEntries entries : M Fn) text := by
  have hanswers := (longest?_eq_iff (M := M) entries text _).mp rfl
  unfold name?
  cases hlongest : longest? (ofEntries entries : M Fn) text with
  | none =>
    rw [hlongest] at hanswers
    have hkept : longest? (ofEntries (entries.filter keep) : M Fn) text = none := by
      refine (longest?_eq_iff _ text _).mpr ?_
      intro entry hmem
      exact hanswers entry (List.mem_filter.mp hmem).1
    rw [hkept]
  | some found =>
    obtain ⟨length, f⟩ := found
    rw [hlongest] at hanswers
    obtain ⟨name, rest, rfl, rfl, hlast, hgreatest⟩ := hanswers
    by_cases hname : name.utf8ByteSize = 0
    · have hkept :
          longest? (ofEntries (entries.filter keep) : M Fn) (name.toList ++ rest) = none := by
        refine (longest?_eq_iff _ _ _).mpr ?_
        intro entry hmem hbegins
        obtain ⟨hmem, hkept⟩ := List.mem_filter.mp hmem
        have hle := hgreatest entry hmem hbegins
        exact hempty entry hmem hkept (by omega)
      rw [hkept, hname]
      rfl
    · have hkept : longest? (ofEntries (entries.filter keep) : M Fn) (name.toList ++ rest) =
          some (name.utf8ByteSize, f) := by
        refine (longest?_eq_iff _ _ _).mpr ⟨name, rest, rfl, rfl, ?_, ?_⟩
        · exact hlast.filter (hkeep _ hlast.mem (List.prefix_append _ _) hname)
        · intro entry hmem hbegins
          exact hgreatest entry (List.mem_filter.mp hmem).1 hbegins
      rw [hkept]

theorem first?_filter [Lawful M] (entries : List (String × Fn)) (c : Char) (cs : List Char) :
    first? (ofEntries (entries.filter fun entry => !isIdle entry.1.toList) : M Fn) c cs =
      first? (ofEntries entries : M Fn) c cs := by
  have hnil : ∀ name : String, name.utf8ByteSize = 0 ↔ name.toList = [] := by
    intro name
    rw [← byteLength_toList, byteLength_eq_zero_iff]
  unfold first?
  cases hsingle : Token.ofChar? c with
  | some token => rfl
  | none =>
    dsimp only
    split
    · rename_i halpha
      unfold word?
      split
      · rfl
      · rename_i hpi
        rw [name?_filter]
        · intro entry _ hbegins hne
          rw [Ne, hnil] at hne
          simpa using isIdle_of_prefix hsingle halpha hpi hne hbegins
        · intro entry _ hkept
          rw [Ne, hnil]
          intro hname
          rw [hname] at hkept
          cases hkept
    · rfl

/-- Lexers whose tables agree on what begins a text do the same. -/
theorem next?_congr {names : M Fn} {others : N Fn}
    (hfirst : ∀ c cs, first? names c cs = first? others c cs) (cs : List Char) (owesCall : Bool) :
    ((⟨names, cs, owesCall⟩ : Lexer M).next? = none ∧
        (⟨others, cs, owesCall⟩ : Lexer N).next? = none) ∨
      ∃ item rest owesNext,
        (⟨names, cs, owesCall⟩ : Lexer M).next? = some (item, ⟨names, rest, owesNext⟩) ∧
        (⟨others, cs, owesCall⟩ : Lexer N).next? = some (item, ⟨others, rest, owesNext⟩) := by
  cases owesCall with
  | true => exact .inr ⟨.ok .openCall, cs, false, rfl, rfl⟩
  | false =>
    cases cs with
    | nil => exact .inl ⟨rfl, rfl⟩
    | cons c cs =>
      cases hothers : first? others c cs with
      | ok found =>
        obtain ⟨token, rest⟩ := found
        refine .inr ⟨.ok token, rest, token.isFn, ?_, ?_⟩
        · simp [next?, hfirst, hothers]
        · simp [next?, hothers]
      | error e =>
        refine .inr ⟨.error e, [], false, ?_, ?_⟩
        · simp [next?, hfirst, hothers]
        · simp [next?, hothers]

theorem nth?_congr {names : M Fn} {others : N Fn}
    (hfirst : ∀ c cs, first? names c cs = first? others c cs) (cs : List Char) (owesCall : Bool)
    (n : Nat) :
    (⟨names, cs, owesCall⟩ : Lexer M).nth? n = (⟨others, cs, owesCall⟩ : Lexer N).nth? n := by
  induction n generalizing cs owesCall with
  | zero =>
    rcases next?_congr hfirst cs owesCall with ⟨hnone, hnone'⟩ | ⟨item, rest, owes, hnext, hnext'⟩
    · rw [nth?, nth?, hnone, hnone']
      rfl
    · rw [nth?, nth?, hnext, hnext']
      rfl
  | succ n ih =>
    rcases next?_congr hfirst cs owesCall with ⟨hnone, hnone'⟩ | ⟨item, rest, owes, hnext, hnext'⟩
    · rw [nth?, nth?, after, after, hnone, hnone']
      exact ih cs owesCall
    · rw [nth?, nth?, after, after, hnext, hnext']
      exact ih rest owes

theorem items_congr {names : M Fn} {others : N Fn}
    (hfirst : ∀ c cs, first? names c cs = first? others c cs) (cs : List Char) (owesCall : Bool) :
    (⟨names, cs, owesCall⟩ : Lexer M).items = (⟨others, cs, owesCall⟩ : Lexer N).items := by
  apply List.ext_getElem?
  intro n
  rw [← nth?_eq, ← nth?_eq, nth?_congr hfirst]

end Lexer

namespace Formula

variable {M : Type → Type} [NameTable M]

/-! ## Whole formulas -/

/-- Adding a name to a table changes nothing about a text that has its tokens without it, unless
the table has the name already or there is a parenthesis in it. -/
theorem readWith_concat [Lawful M] {entries : List (String × Fn)} {added : String × Fn}
    (hparen : '(' ∉ added.1.toList) (hnew : ∀ entry ∈ entries, entry.1 ≠ added.1) {text : String}
    {tokens : List Token}
    (h : (Lexer.ofText (ofEntries entries : M Fn) text).tokens = .ok tokens) :
    (Lexer.ofText (ofEntries (entries ++ [added]) : M Fn) text).tokens = .ok tokens ∧
      readWith (ofEntries (entries ++ [added]) : M Fn) text =
        readWith (ofEntries entries : M Fn) text := by
  have hadded : (Lexer.ofText (ofEntries (entries ++ [added]) : M Fn) text).tokens =
      .ok tokens := by
    obtain ⟨hreads, hmatch⟩ := Lexer.tokens_iff_reads.mp h
    exact Lexer.tokens_iff_reads.mpr ⟨hreads.mono (Lexer.name?_concat hparen hnew), hmatch⟩
  refine ⟨hadded, ?_⟩
  rw [readWith, readWith, hadded, h]

/-- A new name that begins with another one, and a name with a parenthesis in it. -/
theorem readWith_concat_overlapping :
    let entries : List (String × Fn) := [("f", .sin), ("f(", .cos), ("g", .ln)]
    let added : String × Fn := ("gg", .tan)
    ∃ tokens : List Token,
      ('(' ∉ added.1.toList ∧ (∀ entry ∈ entries, entry.1 ≠ added.1) ∧
        (Lexer.ofText (ofEntries entries : NameTable.Trie Fn) "2f((x)-g(1)").tokens =
          .ok tokens) ∧
      (Lexer.ofText (ofEntries (entries ++ [added]) : NameTable.Trie Fn) "2f((x)-g(1)").tokens =
        .ok tokens ∧
      readWith (ofEntries (entries ++ [added]) : NameTable.Trie Fn) "2f((x)-g(1)" =
        readWith (ofEntries entries : NameTable.Trie Fn) "2f((x)-g(1)" := by
  intro entries added
  have hparen : '(' ∉ added.1.toList := by decide
  have hnew : ∀ entry ∈ entries, entry.1 ≠ added.1 := by decide
  have hok : (Lexer.ofText (ofEntries entries : NameTable.Trie Fn) "2f((x)-g(1)").tokens.isOk := by
    decide +kernel
  obtain ⟨tokens, htokens⟩ := Outcomes.exists_of_isOk hok
  exact ⟨tokens, ⟨hparen, hnew, htokens⟩, readWith_concat hparen hnew htokens⟩

/-- What a text is read as with a table of names, but for the text itself. -/
def outcomeWith (names : M Fn) (text : String) : Except ReadError (List Token × Expr) :=
  (fun formula => (formula.tokens, formula.root)) <$> readWith names text

/-- The outcome is that of the tokens. -/
theorem outcomeWith_of_tokens {names : M Fn} {text : String} {tokens : List Token}
    (h : (Lexer.ofText names text).tokens = .ok tokens) :
    outcomeWith names text = arrange tokens := by
  rw [outcomeWith, readWith, h]
  simp only [map_bind]
  rfl

/-- Names are only spellings: a text read with any table has the same tokens, and the same
outcome, as the text that its tokens spell, read with the standard names. -/
theorem outcome_respelled {names : M Fn} {text : String} {tokens : List Token}
    (h : (Lexer.ofText names text).tokens = .ok tokens) :
    let respelled := String.join (tokens.map Token.spelling)
    (Lexer.ofText standardNames respelled).tokens = .ok tokens ∧
      outcomeWith names text = outcome respelled := by
  intro respelled
  have hrespelled := Lexer.tokens_respelled h
  refine ⟨hrespelled, ?_⟩
  change outcomeWith names text = outcomeWith standardNames respelled
  rw [outcomeWith_of_tokens h, outcomeWith_of_tokens hrespelled]

/-- Names with a digit, a blank and a parenthesis in them, and one that is no letters at all. -/
theorem outcome_respelled_names :
    let entries : List (String × Fn) := [("s 1", .sqrt), ("s(", .sin), ("lπ", .ln), ("π", .abs)]
    let text := "-s 1(x\n*s((pi))lπ(2)"
    ∃ tokens : List Token,
      (Lexer.ofText (ofEntries entries : NameTable.Trie Fn) text).tokens = .ok tokens ∧
      String.join (tokens.map Token.spelling) = "-sqrt(x *sin(pi))ln(2)" ∧
      (Lexer.ofText standardNames (String.join (tokens.map Token.spelling))).tokens = .ok tokens ∧
      outcomeWith (ofEntries entries : NameTable.Trie Fn) text =
        outcome (String.join (tokens.map Token.spelling)) := by
  intro entries text
  have hok : (Lexer.ofText (ofEntries entries : NameTable.Trie Fn) text).tokens.isOk := by
    decide +kernel
  have hspelled : (Lexer.ofText (ofEntries entries : NameTable.Trie Fn) text).tokens.toOption.map
      (fun tokens => String.join (tokens.map Token.spelling)) =
        some "-sqrt(x *sin(pi))ln(2)" := by
    decide +kernel
  obtain ⟨tokens, htokens⟩ := Outcomes.exists_of_isOk hok
  rw [htokens] at hspelled
  exact ⟨tokens, htokens, Option.some.inj hspelled, outcome_respelled htokens⟩

/-- A table without its idle names gives the same for every text: each item of the lexer, and the
formula or the error. -/
theorem readWith_filter_isIdle [Lawful M] (entries : List (String × Fn)) (text : String) :
    let kept := entries.filter fun entry => !Lexer.isIdle entry.1.toList
    (∀ n, (Lexer.ofText (ofEntries kept : M Fn) text).nth? n =
        (Lexer.ofText (ofEntries entries : M Fn) text).nth? n) ∧
      readWith (ofEntries kept : M Fn) text = readWith (ofEntries entries : M Fn) text := by
  intro kept
  have hfirst := Lexer.first?_filter (M := M) entries
  have htokens : (Lexer.ofText (ofEntries kept : M Fn) text).tokens =
      (Lexer.ofText (ofEntries entries : M Fn) text).tokens := by
    rw [Lexer.tokens, Lexer.tokens, Lexer.ofText, Lexer.ofText, Lexer.items_congr hfirst]
  refine ⟨Lexer.nth?_congr hfirst _ _, ?_⟩
  rw [readWith, readWith, htokens]

/-- Names that fit in many places of the text, but are looked for in none of them. -/
theorem readWith_filter_isIdle_words :
    let entries : List (String × Fn) :=
      [("", .sin), ("sin", .cos), ("x*sin", .tan), ("e^p", .ln), ("pn", .sqrt), ("pi)", .abs),
        ("", .log), ("π", .sin)]
    let kept : List (String × Fn) := [("sin", .cos), ("pn", .sqrt)]
    let text := "x*sin(pi)+e^pn(x)"
    (entries.filter fun entry => !Lexer.isIdle entry.1.toList) = kept ∧
      (∀ n, (Lexer.ofText (ofEntries kept : NameTable.Trie Fn) text).nth? n =
        (Lexer.ofText (ofEntries entries : NameTable.Trie Fn) text).nth? n) ∧
      readWith (ofEntries kept : NameTable.Trie Fn) text =
        readWith (ofEntries entries : NameTable.Trie Fn) text := by
  intro entries kept text
  have hkept : (entries.filter fun entry => !Lexer.isIdle entry.1.toList) = kept := by decide
  refine ⟨hkept, ?_⟩
  rw [← hkept]
  exact readWith_filter_isIdle entries text

end Formula

end Calculator

import Calculator.Proofs.Lexer.Spelling

/-!
# The language of the lexer

`IsLexical` says without a lexer which texts have tokens: those that are put together
from items, each a single character, `pi`, or a standard name with its parenthesis.

* No item begins with another one.  So a text has its tokens in one way only, and those
  of its beginning come first (`Spells.of_append`).
* `Refused` says which error the rest of a text is, if no item begins there.
* `Lexer.nth?` is what the lexer gives when it is asked again and again, and
  `Lexer.nth?_eq` that this is the list of its items, and then nothing any more.
* `Lexer.items_cases` takes a text apart into the tokens that the lexer gives and the
  rest that it refuses.

`Lexer.stops_behind_longest` puts this together: the lexer stops behind the longest
beginning of the text that is in the language, and nothing is lost of that.
-/

namespace Calculator

open NameTable (longest?_eq_iff)
open Text (splitAt? splitAt?_eq_some_iff)

/-! ## Items -/

/-- The smallest texts that are tokens.  The last kind is two of them. -/
inductive IsItem : List Char → Prop where
  | single {c : Char} (h : Text.isBlank c ∨ c.isDigit ∨
      c ∈ ['.', '(', ')', 'x', 'e', '+', '-', '*', '/', '^']) : IsItem [c]
  | pi : IsItem ['p', 'i']
  | call {name : String} {f : Fn} (h : (name, f) ∈ Fn.table) : IsItem (name.toList ++ ['('])

/-- Whether a text is put together from items. -/
def IsLexical (cs : List Char) : Prop :=
  ∃ items : List (List Char), (∀ item ∈ items, IsItem item) ∧ items.flatten = cs

theorem Operator.isSome_ofChar?_iff {c : Char} :
    (Operator.ofChar? c).isSome ↔ c ∈ ['+', '-', '*', '/', '^'] := by
  rw [Option.isSome_iff_exists]
  constructor
  · intro h
    obtain ⟨op, hop⟩ := h
    rw [ofChar?_eq_some_iff.mp hop]
    cases op <;> decide
  · intro h
    simp only [List.mem_cons, List.not_mem_nil, or_false] at h
    rcases h with rfl | rfl | rfl | rfl | rfl <;> exact ⟨_, rfl⟩

/-- The characters that are tokens by themselves. -/
theorem Token.isSome_ofChar?_iff {c : Char} :
    (Token.ofChar? c).isSome ↔ Text.isBlank c ∨ c.isDigit ∨
      c ∈ ['.', '(', ')', 'x', 'e', '+', '-', '*', '/', '^'] := by
  unfold Token.ofChar?
  split
  · rename_i hblank
    simp [hblank]
  · rename_i hblank
    split
    · rename_i hdigit
      simp [hdigit]
    · rename_i hdigit
      split
      case h_6 =>
        rw [Option.isSome_map, Operator.isSome_ofChar?_iff]
        simp_all
      all_goals simp

/-- A text is spelled by tokens if it is put together from items. -/
theorem isLexical_iff_spells {cs : List Char} : IsLexical cs ↔ ∃ tokens, Spells cs tokens := by
  constructor
  · intro h
    obtain ⟨items, hitems, rfl⟩ := h
    induction items with
    | nil => exact ⟨[], .nil⟩
    | cons item items ih =>
      obtain ⟨hitem, hitems⟩ := List.forall_mem_cons.mp hitems
      obtain ⟨tokens, htokens⟩ := ih hitems
      rw [List.flatten_cons]
      cases hitem with
      | single hc =>
        obtain ⟨token, htoken⟩ := Option.isSome_iff_exists.mp (Token.isSome_ofChar?_iff.mpr hc)
        exact ⟨_, .single htoken htokens⟩
      | pi => exact ⟨_, .pi htokens⟩
      | @call name f hmem =>
        obtain ⟨g, -, hentry⟩ := List.mem_map.mp hmem
        cases hentry
        rw [List.append_assoc]
        exact ⟨_, .call f htokens⟩
  · intro h
    obtain ⟨tokens, htokens⟩ := h
    induction htokens with
    | nil => exact ⟨[], by simp, rfl⟩
    | @single c cs token tokens hc _ ih =>
      obtain ⟨items, hitems, rfl⟩ := ih
      have hitem : IsItem [c] := .single (Token.isSome_ofChar?_iff.mp (by rw [hc]; rfl))
      exact ⟨[c] :: items, List.forall_mem_cons.mpr ⟨hitem, hitems⟩, rfl⟩
    | pi _ ih =>
      obtain ⟨items, hitems, rfl⟩ := ih
      exact ⟨['p', 'i'] :: items, List.forall_mem_cons.mpr ⟨.pi, hitems⟩, rfl⟩
    | call f _ ih =>
      obtain ⟨items, hitems, rfl⟩ := ih
      have hmem : (f.name, f) ∈ Fn.table := List.mem_map.mpr ⟨f, f.mem_all, rfl⟩
      refine ⟨(f.name.toList ++ ['(']) :: items, ?_, by simp⟩
      exact List.forall_mem_cons.mpr ⟨.call hmem, hitems⟩

/-! ## One way to read a text -/

/-- What is known of the last token of a list is known of that of its tail. -/
theorem forall_mem_getLast?_tail {P : Token → Prop} {token : Token} {tokens : List Token}
    (h : ∀ last ∈ (token :: tokens).getLast?, P last) : ∀ last ∈ tokens.getLast?, P last := by
  cases tokens with
  | nil => simp
  | cons next tokens => simpa using h

/-- A beginning of a text that has tokens of its own has the first tokens of the text. -/
theorem Spells.of_append {cs ds : List Char} {tokens before : List Token}
    (hbefore : Spells cs before) (h : Spells (cs ++ ds) tokens) :
    ∃ after, tokens = before ++ after ∧ Spells ds after := by
  induction hn : cs.length using Nat.strongRecOn generalizing cs tokens before with
  | _ n ih =>
  subst hn
  cases cs with
  | nil =>
    obtain rfl := hbefore.eq_nil
    exact ⟨tokens, rfl, h⟩
  | cons c cs =>
    obtain ⟨token, rest, more, hfirst, hmore, rfl⟩ := Spells.cons_iff.mp hbefore
    rw [List.cons_append] at h
    obtain ⟨other, rest', more', hfirst', hmore', rfl⟩ := Spells.cons_iff.mp h
    rw [Lexer.first?_append hfirst] at hfirst'
    cases hfirst'
    have hlt := Lexer.length_lt_of_first? hfirst
    obtain ⟨after, rfl, hafter⟩ := ih rest.length (by omega) hmore hmore' rfl
    exact ⟨after, (List.append_assoc _ _ _).symm, hafter⟩

/-- A text can be parted between its tokens, but not between a function and its parenthesis. -/
theorem Spells.exists_append {cs : List Char} {before after : List Token}
    (h : Spells cs (before ++ after)) (hlast : ∀ token ∈ before.getLast?, token.isFn = false) :
    ∃ left right, cs = left ++ right ∧ Spells left before ∧ Spells right after := by
  generalize htokens : before ++ after = tokens at h
  induction h generalizing before with
  | nil =>
    obtain ⟨rfl, rfl⟩ := List.append_eq_nil_iff.mp htokens
    exact ⟨[], [], rfl, .nil, .nil⟩
  | @single c cs token tokens hc tail ih =>
    cases before with
    | nil =>
      obtain rfl : after = _ := htokens
      exact ⟨[], c :: cs, rfl, .nil, .single hc tail⟩
    | cons first before =>
      obtain ⟨rfl, rfl⟩ := List.cons.inj htokens
      obtain ⟨left, right, rfl, hleft, hright⟩ := ih (forall_mem_getLast?_tail hlast) rfl
      exact ⟨c :: left, right, rfl, .single hc hleft, hright⟩
  | @pi cs tokens tail ih =>
    cases before with
    | nil =>
      obtain rfl : after = _ := htokens
      exact ⟨[], 'p' :: 'i' :: cs, rfl, .nil, .pi tail⟩
    | cons first before =>
      obtain ⟨rfl, rfl⟩ := List.cons.inj htokens
      obtain ⟨left, right, rfl, hleft, hright⟩ := ih (forall_mem_getLast?_tail hlast) rfl
      exact ⟨'p' :: 'i' :: left, right, rfl, .pi hleft, hright⟩
  | @call cs tokens f tail ih =>
    match before with
    | [] =>
      obtain rfl : after = _ := htokens
      exact ⟨[], _, rfl, .nil, .call f tail⟩
    | [first] =>
      obtain ⟨rfl, -⟩ := List.cons.inj htokens
      cases hlast _ rfl
    | first :: second :: before =>
      obtain ⟨rfl, hmore⟩ := List.cons.inj htokens
      obtain ⟨rfl, rfl⟩ := List.cons.inj hmore
      obtain ⟨left, right, rfl, hleft, hright⟩ :=
        ih (forall_mem_getLast?_tail (forall_mem_getLast?_tail hlast)) rfl
      refine ⟨f.name.toList ++ '(' :: left, right, ?_, .call f hleft, hright⟩
      rw [List.append_assoc, List.cons_append]

/-! ## What is refused -/

/-- The error that the rest of a text is, if it begins with no item. -/
inductive Refused : List Char → ReadError → Prop where
  | stray {c : Char} {cs : List Char} (h : ¬ c.isAlpha) : Refused (c :: cs) (.strayCharacter c)
  /-- A name without its parenthesis. -/
  | unopened {c : Char} {cs : List Char} (hletter : c.isAlpha) {name : String} {f : Fn}
      (hmem : (name, f) ∈ Fn.table) (h : name.toList <+: c :: cs) : Refused (c :: cs) .malformed
  | unknown {c : Char} {cs : List Char} (hletter : c.isAlpha)
      (h : ∀ entry ∈ Fn.table, ¬ entry.1.toList <+: c :: cs) :
      Refused (c :: cs) (.unknownName (String.ofList ((c :: cs).takeWhile Char.isAlpha)))

namespace Lexer

/-- A name is refused if it is none, or if its parenthesis is missing. -/
theorem name?_standardNames_error {text : List Char} {e : ReadError}
    (h : name? standardNames text = .error e) :
    e = .malformed ∧ (∃ entry ∈ Fn.table, entry.1.toList <+: text) ∨
      e = .unknownName (String.ofList (text.takeWhile Char.isAlpha)) ∧
        ∀ entry ∈ Fn.table, ¬ entry.1.toList <+: text := by
  have hanswers := (longest?_eq_iff Fn.table text (NameTable.longest? standardNames text)).mp rfl
  unfold name? at h
  split at h
  · rename_i hlongest
    rw [hlongest] at hanswers
    cases h
    exact .inr ⟨rfl, hanswers⟩
  · -- There is no empty name.
    rename_i hlongest
    rw [hlongest] at hanswers
    obtain ⟨name, rest, -, hlength, hlast, -⟩ := hanswers
    rw [lastEntry_table_iff.mp hlast] at hlength
    exact absurd hlength (Fn.utf8ByteSize_name_ne_zero _)
  · rename_i length f _ hlongest
    rw [hlongest] at hanswers
    obtain ⟨name, rest, htext, -, hlast, -⟩ := hanswers
    split at h
    · cases h
    · cases h
      exact .inl ⟨rfl, (name, f), hlast.mem, rest, htext.symm⟩

/-- Where no item begins, the lexer gives the error that belongs there. -/
theorem refused_of_first? {c : Char} {cs : List Char} {e : ReadError}
    (h : first? standardNames c cs = .error e) : Refused (c :: cs) e := by
  unfold first? at h
  split at h
  · cases h
  · split at h
    · rename_i hletter
      unfold word? at h
      split at h
      · cases h
      · split at h
        · cases h
        · rename_i hname
          cases h
          rcases name?_standardNames_error hname with
            ⟨rfl, entry, hmem, hbegins⟩ | ⟨rfl, hnone⟩
          · exact .unopened hletter hmem hbegins
          · exact .unknown hletter hnone
    · rename_i hletter
      cases h
      exact .stray (by simpa using hletter)

/-! ## One item after the other -/

variable {M : Type → Type} [NameTable M]

/-- The lexer after it has been asked for an item.  At the end it stays as it is. -/
def after (lexer : Lexer M) : Lexer M :=
  match lexer.next? with
  | some (_, after) => after
  | none => lexer

/-- What the lexer gives after it has been asked for `n` items. -/
def nth? (lexer : Lexer M) : Nat → Option (Except ReadError Token)
  | 0 => lexer.next?.map Prod.fst
  | n + 1 => lexer.after.nth? n

/-- Asked again and again, the lexer gives its items and then nothing any more. -/
theorem nth?_eq (lexer : Lexer M) (n : Nat) : lexer.nth? n = lexer.items[n]? := by
  induction n generalizing lexer with
  | zero =>
    rw [nth?]
    cases hnext : lexer.next? with
    | none => rw [items_of_next?_eq_none hnext]; rfl
    | some found => rw [items_of_next? hnext]; rfl
  | succ n ih =>
    rw [nth?, ih, after]
    cases hnext : lexer.next? with
    | none => simp [items_of_next?_eq_none hnext]
    | some found => rw [items_of_next? hnext, List.getElem?_cons_succ]

end Lexer

/-! ## What the tokens of a text are -/

/-- A text with a blank in the place of each white space character. -/
def Text.plainBlanks (cs : List Char) : List Char := cs.map fun c => if isBlank c then ' ' else c

theorem Text.plainBlanks_append (cs ds : List Char) :
    plainBlanks (cs ++ ds) = plainBlanks cs ++ plainBlanks ds := List.map_append

/-- Whether every function of a list has the parenthesis of its argument directly behind it, and
no other token has. -/
def CallsOpened (tokens : List Token) : Prop :=
  tokens[0]? ≠ some .openCall ∧
    ∀ i : Nat, (∃ f arg, tokens[i]? = some (.fn f arg)) ↔ tokens[i + 1]? = some .openCall

/-- Nothing of a text is lost in its tokens but which white space it has. -/
theorem Spells.flatMap_spelling {cs : List Char} {tokens : List Token} (h : Spells cs tokens) :
    tokens.flatMap (fun token => token.spelling.toList) = Text.plainBlanks cs := by
  induction h with
  | nil => rfl
  | @single c cs token tokens hc _ ih =>
    have hpiece : token.spelling.toList = [if Text.isBlank c then ' ' else c] := by
      rcases Token.ofChar?_eq_some hc with ⟨rfl, hblank⟩ | ⟨hspace, hspelling⟩
      · rw [if_pos hblank]
        rfl
      · rw [hspelling, if_neg]
        intro hblank
        rw [Token.ofChar?_of_isBlank hblank] at hc
        exact hspace (Option.some.inj hc).symm
    rw [List.flatMap_cons, ih, hpiece]
    rfl
  | pi _ ih =>
    rw [List.flatMap_cons, ih]
    rfl
  | @call cs tokens f _ ih =>
    have hname : Text.plainBlanks f.name.toList = f.name.toList := by
      cases f <;> decide
    have hparen : Text.plainBlanks ('(' :: cs) = '(' :: Text.plainBlanks cs := rfl
    rw [List.flatMap_cons, List.flatMap_cons, ih, Text.plainBlanks_append, hname, hparen]
    rfl

theorem Spells.callsOpened {cs : List Char} {tokens : List Token} (h : Spells cs tokens) :
    CallsOpened tokens := by
  induction h with
  | nil => exact ⟨by simp, by simp⟩
  | @single c cs token tokens hc _ ih =>
    have hsingle := Token.isSingle_of_ofChar? hc
    refine ⟨?_, ?_⟩
    · intro hopen
      cases Option.some.inj hopen
      cases hsingle
    · intro i
      cases i with
      | zero =>
        simp only [List.getElem?_cons_zero, List.getElem?_cons_succ, Option.some.injEq]
        refine iff_of_false ?_ ih.1
        rintro ⟨f, arg, rfl⟩
        cases hsingle
      | succ i => exact ih.2 i
  | pi _ ih =>
    refine ⟨by simp, ?_⟩
    intro i
    cases i with
    | zero => exact iff_of_false (by simp) ih.1
    | succ i => exact ih.2 i
  | @call cs tokens f _ ih =>
    refine ⟨by simp, ?_⟩
    intro i
    match i with
    | 0 => exact iff_of_true ⟨f, [], rfl⟩ rfl
    | 1 => exact iff_of_false (by simp) ih.1
    | i + 2 => exact ih.2 i

/-! ## Where the lexer stops -/

namespace Lexer

/-- Where no item begins, no longer beginning of the text is in the language. -/
theorem prefix_of_first?_error {taken : List Char} {tokens : List Token}
    (hspells : Spells taken tokens) {c : Char} {cs : List Char} {e : ReadError}
    (h : first? standardNames c cs = .error e) {longer : List Char}
    (hlonger : longer <+: taken ++ c :: cs) (hlexical : IsLexical longer) : longer <+: taken := by
  rcases List.prefix_or_prefix_of_prefix hlonger (List.prefix_append taken (c :: cs)) with
    hle | hge
  · exact hle
  · obtain ⟨more, rfl⟩ := hge
    rw [List.prefix_append_right_inj] at hlonger
    cases more with
    | nil => rw [List.append_nil]
    | cons d more =>
      -- An item would begin with `c`.
      exfalso
      obtain ⟨rfl, tail, rfl⟩ := List.cons_prefix_cons.mp hlonger
      obtain ⟨all, hall⟩ := isLexical_iff_spells.mp hlexical
      obtain ⟨after, -, hafter⟩ := hspells.of_append hall
      obtain ⟨token, rest, -, hfirst, -⟩ := Spells.cons_iff.mp hafter
      rw [first?_append hfirst] at h
      cases h

/-- What the lexer gives for a text: the tokens of a beginning of the text, and an error if the
text goes on there. -/
theorem items_cases (text : String) :
    ∃ tokens taken rest, text.toList = taken ++ rest ∧ Spells taken tokens ∧
      (∀ longer, longer <+: text.toList → IsLexical longer → longer <+: taken) ∧
      (rest = [] ∧ (Lexer.ofText standardNames text).items = tokens.map .ok ∨
        ∃ e, Refused rest e ∧
          (Lexer.ofText standardNames text).items = tokens.map .ok ++ [.error e]) := by
  obtain ⟨tokens, taken, rest, htext, hspells, hrest⟩ := exists_spells_append text.toList
  have hitems : (Lexer.ofText standardNames text).items =
      tokens.map .ok ++ (⟨standardNames, rest, false⟩ : Lexer NameTable.Trie).items := by
    rw [← items_append hspells, ← htext]
    rfl
  refine ⟨tokens, taken, rest, htext, hspells, ?_⟩
  rw [htext]
  rcases hrest with rfl | ⟨c, cs, e, rfl, hfirst⟩
  · rw [items_nil, List.append_nil] at hitems
    refine ⟨?_, .inl ⟨rfl, hitems⟩⟩
    intro longer hlonger _
    rwa [List.append_nil] at hlonger
  · rw [items_cons_error hfirst] at hitems
    refine ⟨?_, .inr ⟨e, refused_of_first? hfirst, hitems⟩⟩
    intro longer hlonger hlexical
    exact prefix_of_first?_error hspells hfirst hlonger hlexical

/-- The lexer reads a text in the language to its end, and any other one up to the first place
where no item begins.  What it has read then is the longest beginning in the language. -/
theorem stops_behind_longest (text : String) :
    let lexer := Lexer.ofText standardNames text
    ((∀ n item, lexer.nth? n = some item → item.isOk) ↔ IsLexical text.toList) ∧
      ∃ tokens taken rest, text.toList = taken ++ rest ∧ IsLexical taken ∧
        (∀ longer, longer <+: text.toList → IsLexical longer → longer <+: taken) ∧
        tokens.flatMap (fun token => token.spelling.toList) = Text.plainBlanks taken ∧
        CallsOpened tokens ∧
        (rest = [] ∧ (∀ n, lexer.nth? n = (tokens.map .ok)[n]?) ∨
          ∃ e, Refused rest e ∧ ∀ n, lexer.nth? n = (tokens.map .ok ++ [.error e])[n]?) := by
  intro lexer
  obtain ⟨tokens, taken, rest, htext, hspells, hlongest, hcases⟩ := items_cases text
  have hlexical : IsLexical taken := isLexical_iff_spells.mpr ⟨tokens, hspells⟩
  constructor
  · rcases hcases with ⟨rfl, hitems⟩ | ⟨e, hrefused, hitems⟩
    · refine iff_of_true ?_ (by rw [htext, List.append_nil]; exact hlexical)
      intro n item hitem
      rw [nth?_eq, hitems] at hitem
      obtain ⟨token, -, rfl⟩ := List.mem_map.mp (List.mem_of_getElem? hitem)
      rfl
    · refine iff_of_false ?_ ?_
      · intro hok
        have herror : lexer.nth? tokens.length = some (.error e) := by
          rw [nth?_eq, hitems]
          simp
        cases hok _ _ herror
      · intro hall
        have hle := (hlongest _ (List.prefix_refl _) hall).length_le
        rw [htext, List.length_append] at hle
        cases hrefused <;> (rw [List.length_cons] at hle; omega)
  · refine ⟨tokens, taken, rest, htext, hlexical, hlongest, hspells.flatMap_spelling,
      hspells.callsOpened, ?_⟩
    rcases hcases with ⟨rfl, hitems⟩ | ⟨e, hrefused, hitems⟩
    · exact .inl ⟨rfl, fun n => by rw [nth?_eq, hitems]⟩
    · exact .inr ⟨e, hrefused, fun n => by rw [nth?_eq, hitems]⟩

end Lexer

end Calculator

import Calculator.Proofs.Formula.Literals

/-!
# Reading a reverse Polish text

A formula is printed in reverse Polish order as a row of words with single spaces
between them.  The text shows neither where an argument begins nor of what kind a word
is, but it can be read back.

* `Expr.words` are the words of an expression, and `Formula.words_postOrder` says that
  they are what is printed.
* `Instruction.ofWord?` is what a word says: to put an expression on a stack, or to put
  an operator or a function over those that are on top of it.  A number is no other
  word, so it does not matter that a `-` may be both an operator and a sign.
* `Instruction.runWords_words`: the words of an expression put it on the stack.
* `Text.splitWords_intercalate`: words without spaces are found again in their text, and
  no word has one (`Expr.space_not_mem_words`).

`Formula.readBack_reversePolish` puts this together.
-/

namespace Calculator

open ReversePolish (flat literal_not_mem_ofInfix)

namespace Expr

/-! ## The words of an expression -/

/-- The number of nodes of an expression. -/
def nodeCount : Expr → Nat
  | binary _ left right => left.nodeCount + right.nodeCount + 1
  | call _ arg => arg.nodeCount + 1
  | _ => 1

/-- The words of an expression, its operands in front of each operator. -/
def words : Expr → List String
  | binary op left right => left.words ++ right.words ++ [String.singleton op.symbol]
  | call f arg => arg.words ++ [f.name]
  | leaf => [leaf.label]

/-- Every node is one word. -/
theorem length_words (e : Expr) : e.words.length = e.nodeCount := by
  induction e with
  | binary op left right ihleft ihright =>
    simp [words, nodeCount, ihleft, ihright, Nat.add_assoc]
  | call f arg ih => simp [words, nodeCount, ih]
  | _ => rfl

end Expr

theorem Formula.words_append (tokens more : List Token) :
    words (tokens ++ more) = words tokens ++ words more := by
  induction tokens with
  | nil => rfl
  | cons token tokens ih => rw [List.cons_append, words, words, ih, List.append_assoc]

/-- An expression in reverse Polish order is printed as its words. -/
theorem Formula.words_postOrder (e : Expr) : Formula.words e.postOrder = e.words := by
  induction e with
  | binary op left right ihleft ihright =>
    rw [Expr.postOrder, words_append, words_append, ihleft, ihright]
    rfl
  | call f arg ih =>
    rw [Expr.postOrder, words, tokenWords, ih]
    exact List.append_nil _
  | _ => rfl

/-! ## What a word says -/

/-- Every operator. -/
def Operator.all : List Operator := [add, sub, mul, div, pow]

/-- What is done with a stack of expressions. -/
inductive Instruction where
  | push (leaf : Expr)
  | operate (op : Operator)
  | apply (f : Fn)

namespace Instruction

/-- The words that are no numbers. -/
def ofName : List (String × Instruction) :=
  ("x", push .var) :: Constant.all.map (fun c => (c.name, push (.constant c))) ++
    Operator.all.map (fun op => (String.singleton op.symbol, operate op)) ++
    Fn.table.map fun (name, f) => (name, apply f)

/-- What a word says. -/
def ofWord? (word : String) : Option Instruction :=
  match Numeral.ofText? word with
  | some n => some (push (.numeral n))
  | none => ofName.lookup word

/-- The stack after an instruction, the top first.  An operator takes its right operand off
before the left one. -/
def run : Instruction → List Expr → Option (List Expr)
  | push leaf, stack => some (leaf :: stack)
  | operate op, right :: left :: stack => some (.binary op left right :: stack)
  | apply f, arg :: stack => some (.call f arg :: stack)
  | _, _ => none

/-- The stack after a row of words. -/
def runWords (stack : List Expr) (words : List String) : Option (List Expr) :=
  words.foldlM (fun stack word => (ofWord? word).bind (·.run stack)) stack

theorem ofWord?_numeral {n : Numeral} (h : Numeral.ofText? n.text = some n) :
    ofWord? n.text = some (push (.numeral n)) := by
  rw [ofWord?, h]

theorem ofWord?_constant (c : Constant) : ofWord? c.name = some (push (.constant c)) := by
  cases c <;> rfl

theorem ofWord?_var : ofWord? "x" = some (push .var) := rfl

theorem ofWord?_operator (op : Operator) :
    ofWord? (String.singleton op.symbol) = some (operate op) := by
  cases op <;> rfl

theorem ofWord?_fn (f : Fn) : ofWord? f.name = some (apply f) := by
  cases f <;> rfl

theorem runWords_append (stack : List Expr) (words more : List String) :
    runWords stack (words ++ more) = (runWords stack words).bind (runWords · more) :=
  List.foldlM_append

theorem runWords_singleton {word : String} {instruction : Instruction}
    (h : ofWord? word = some instruction) (stack : List Expr) :
    runWords stack [word] = instruction.run stack := by
  simp [runWords, h]

/-- The words of an expression put it on the stack. -/
theorem runWords_words {e : Expr} (h : e.IsPlain) (stack : List Expr) :
    runWords stack e.words = some (e :: stack) := by
  induction e generalizing stack with
  | numeral n =>
    obtain ⟨m, rfl⟩ := h
    exact runWords_singleton (ofWord?_numeral m.ofText?_text_numeral) stack
  | constant c => exact runWords_singleton (ofWord?_constant c) stack
  | var => exact runWords_singleton ofWord?_var stack
  | binary op left right ihleft ihright =>
    rw [Expr.words, runWords_append, runWords_append, ihleft h.1, Option.bind_some,
      ihright h.2, Option.bind_some, runWords_singleton (ofWord?_operator op)]
    rfl
  | call f arg ih =>
    rw [Expr.words, runWords_append, ih h, Option.bind_some, runWords_singleton (ofWord?_fn f)]
    rfl

end Instruction

/-! ## The words of a text -/

/-- The pieces of a text between its single spaces. -/
def Text.splitWords (text : String) : List String := (text.toList.splitOn ' ').map String.ofList

/-- Pieces without a separator are found again between the separators. -/
theorem Text.splitOn_intercalate {separator : Char} {pieces : List String} (hne : pieces ≠ [])
    (h : ∀ piece ∈ pieces, separator ∉ piece.toList) :
    ((String.intercalate (String.singleton separator) pieces).toList.splitOn separator).map
      String.ofList = pieces := by
  rw [String.toList_intercalate, String.toList_singleton, List.splitOn_intercalate]
  · simp [Function.comp_def, String.ofList_toList]
  · simpa using h
  · simpa using hne

/-- Words without spaces are found again in their text. -/
theorem Text.splitWords_intercalate {words : List String} (hne : words ≠ [])
    (h : ∀ word ∈ words, ' ' ∉ word.toList) :
    splitWords (String.intercalate " " words) = words :=
  splitOn_intercalate hne h

/-- No word of an expression has a space in it. -/
theorem Expr.space_not_mem_words {e : Expr} (h : e.IsPlain) :
    ∀ word ∈ e.words, ' ' ∉ word.toList := by
  induction e with
  | numeral n =>
    obtain ⟨m, rfl⟩ := h
    have hwords : (numeral m.numeral).words = [m.numeral.text] := rfl
    rw [hwords, List.forall_mem_singleton]
    intro hmem
    exact absurd (Numeral.isTextChar_of_ofText? m.ofText?_text_numeral _ hmem) (by decide)
  | constant c => cases c <;> decide
  | var => decide
  | binary op left right ihleft ihright =>
    rw [words, List.forall_mem_append, List.forall_mem_append, List.forall_mem_singleton]
    refine ⟨⟨ihleft h.1, ihright h.2⟩, ?_⟩
    cases op <;> decide
  | call f arg ih =>
    rw [words, List.forall_mem_append, List.forall_mem_singleton]
    refine ⟨ih h, ?_⟩
    cases f <;> decide

theorem Expr.words_ne_nil (e : Expr) : e.words ≠ [] := by
  cases e <;> simp [words]

namespace Formula

variable {M N : Type → Type} [NameTable M] [NameTable N]

/-! ## A text read back -/

/-- The tokens of a formula are the reverse Polish order of its expression, with numbers for
literals. -/
theorem postOrder_of_readWith {names : M Fn} {text : String} {formula : Formula}
    (h : readWith names text = .ok formula) :
    formula.root.postOrder = formula.tokens ∧ formula.root.IsPlain := by
  obtain ⟨tokens, apart, htokens, hapart, hjoined, hroot⟩ := joined_of_readWith h
  have hpost := Expr.postOrder_of_ofTokens hroot
  refine ⟨hpost, Expr.isPlain_of_mem_literals ?_⟩
  intro n hmem
  rw [hpost] at hmem
  have hnone := literal_not_mem_ofInfix hapart (Lexer.isRead_of_mem htokens) n
  exact (hjoined.mem_literals hmem).resolve_left hnone

/-- A formula is printed as the words of its expression. -/
theorem splitWords_reversePolish {names : M Fn} {text : String} {formula : Formula}
    (h : readWith names text = .ok formula) :
    Text.splitWords formula.reversePolish = formula.root.words := by
  obtain ⟨hpost, hplain⟩ := postOrder_of_readWith h
  rw [reversePolish, ← hpost, words_postOrder]
  exact Text.splitWords_intercalate formula.root.words_ne_nil (Expr.space_not_mem_words hplain)

/-- What is on the stack behind a text in reverse Polish order. -/
def readBack (text : String) : Option (List Expr) :=
  Instruction.runWords [] (Text.splitWords text)

/-- A formula that is printed in reverse Polish order can be read back: its words leave nothing
but its expression on the stack, each of them is one node of it, and no other expression is
printed so. -/
theorem readBack_reversePolish {names : M Fn} {text : String} {formula : Formula}
    (h : readWith names text = .ok formula) :
    readBack formula.reversePolish = some [formula.root] ∧
      (Text.splitWords formula.reversePolish).length = formula.root.nodeCount ∧
      ∀ (others : N Fn) other formula', readWith others other = .ok formula' →
        (formula.reversePolish = formula'.reversePolish ↔ formula.root = formula'.root) := by
  have hsplit := splitWords_reversePolish h
  obtain ⟨hpost, hplain⟩ := postOrder_of_readWith h
  have hback : readBack formula.reversePolish = some [formula.root] := by
    rw [readBack, hsplit, Instruction.runWords_words hplain]
  refine ⟨hback, ?_, ?_⟩
  · rw [hsplit, Expr.length_words]
  · intro others other formula' hother
    obtain ⟨hpost', hplain'⟩ := postOrder_of_readWith hother
    constructor
    · intro hsame
      have hback' : readBack formula'.reversePolish = some [formula'.root] := by
        rw [readBack, splitWords_reversePolish hother, Instruction.runWords_words hplain']
      rw [hsame, hback'] at hback
      simpa using hback.symm
    · intro hroot
      rw [reversePolish, reversePolish, ← hpost, ← hpost', hroot]

/-- A `-` as an operator and one as a sign, and another text with a name of its own for the
function. -/
theorem readBack_reversePolish_minus :
    ∃ formula formula' : Formula,
      (Formula.read "-2.50 * sqrt(x-1)" = .ok formula ∧
        readWith (NameTable.ofEntries [("root", Fn.sqrt)] : NameTable.Trie Fn)
          "-2.50root(x - 1)" = .ok formula') ∧
      formula.reversePolish = "-2.50 x 1 - sqrt *" ∧
      readBack formula.reversePolish = some [formula.root] ∧
      (Text.splitWords formula.reversePolish).length = formula.root.nodeCount ∧
      (formula.reversePolish = formula'.reversePolish ↔ formula.root = formula'.root) := by
  have hok : (Formula.read "-2.50 * sqrt(x-1)").isOk := by decide +kernel
  have hok' : (readWith (NameTable.ofEntries [("root", Fn.sqrt)] : NameTable.Trie Fn)
      "-2.50root(x - 1)").isOk := by decide +kernel
  have hshown : (Formula.read "-2.50 * sqrt(x-1)").toOption.map reversePolish =
      some "-2.50 x 1 - sqrt *" := by decide +kernel
  obtain ⟨formula, hformula⟩ := Outcomes.exists_of_isOk hok
  obtain ⟨formula', hformula'⟩ := Outcomes.exists_of_isOk hok'
  obtain ⟨hback, hlength, hsame⟩ := readBack_reversePolish (N := NameTable.Trie) hformula
  rw [hformula] at hshown
  exact ⟨formula, formula', ⟨hformula, hformula'⟩, Option.some.inj hshown, hback, hlength,
    hsame _ _ _ hformula'⟩

end Formula

end Calculator

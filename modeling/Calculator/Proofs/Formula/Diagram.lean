import Calculator.Expr.Diagram
import Calculator.Proofs.Formula.Words

/-!
# Reading a diagram

A diagram has one line for each node.  What is in front of the node's text shows the way
that leads to it from the root, one piece for each step.

* `Expr.preorder` are the nodes of an expression with their ways, each in front of its
  operands.
* `Expr.diagramLines_eq`: the lines of a diagram are those of the nodes.
* `Expr.hang_append_inj`: what hangs below an operator falls apart in one way only, since
  a rule to a further operand begins all lines of the first one.
* `Expr.ofWord?_label`: the text of a node shows of what kind it is, and a number.

`Expr.splitLines_diagram` puts this together, and `Formula.diagram_eq_iff` says what follows
for formulas.
-/

namespace Calculator

/-- The pieces of a text between its line breaks. -/
def Text.splitLines (text : String) : List String := (text.toList.splitOn '\n').map String.ofList

/-- Lines without line breaks are found again in their text. -/
theorem Text.splitLines_intercalate {lines : List String} (hne : lines ≠ [])
    (h : ∀ line ∈ lines, '\n' ∉ line.toList) :
    splitLines (String.intercalate "\n" lines) = lines :=
  splitOn_intercalate hne h

/-- A step from a node down to one of its operands. -/
inductive Branch where
  | left
  | right
  | argument

namespace Branch

/-- Whether no other operand of the same node comes behind. -/
def isLast : Branch → Bool
  | left => false
  | right | argument => true

/-- What stands in front of the operand itself. -/
def joint : Branch → String
  | left => "├──"
  | right | argument => "└──"

/-- What stands in front of the nodes below the operand. -/
def rail : Branch → String
  | left => "│  "
  | right | argument => "   "

/-- What stands in front of a node at the end of a way. -/
def lineHead : List Branch → String
  | [] => ""
  | [last] => last.joint
  | branch :: path => branch.rail ++ lineHead path

/-- Nodes with the ways to them, and one more step in front of each way. -/
def under (branch : Branch) (nodes : List (List Branch × Expr)) : List (List Branch × Expr) :=
  nodes.map fun (path, node) => (branch :: path, node)

theorem path_ne_nil_of_mem_under {branch : Branch} {nodes : List (List Branch × Expr)}
    {entry : List Branch × Expr} (h : entry ∈ branch.under nodes) : entry.1 ≠ [] := by
  obtain ⟨node, -, rfl⟩ := List.mem_map.mp h
  exact List.cons_ne_nil _ _

end Branch

namespace Expr

/-! ## The nodes of an expression -/

/-- The nodes of an expression with the ways to them, each node in front of its operands. -/
def preorder : Expr → List (List Branch × Expr)
  | binary op left right =>
    ([], binary op left right) ::
      (Branch.left.under left.preorder ++ Branch.right.under right.preorder)
  | call f arg => ([], call f arg) :: Branch.argument.under arg.preorder
  | leaf => [([], leaf)]

/-- The line of a node. -/
def line : List Branch × Expr → String
  | (path, node) => Branch.lineHead path ++ node.label

/-- The numerals of an expression. -/
def numerals : Expr → List Numeral
  | numeral n => [n]
  | constant _ | var => []
  | binary _ left right => left.numerals ++ right.numerals
  | call _ arg => arg.numerals

/-- Whether every numeral of an expression is what its text reads as. -/
def IsReadable (e : Expr) : Prop := ∀ n ∈ e.numerals, Numeral.ofText? n.text = some n

/-- Every node but the root is below it. -/
theorem preorder_eq_cons (e : Expr) :
    ∃ others, e.preorder = ([], e) :: others ∧ ∀ entry ∈ others, entry.1 ≠ [] := by
  cases e with
  | binary op left right =>
    exact ⟨_, rfl, List.forall_mem_append.mpr
      ⟨fun _ => Branch.path_ne_nil_of_mem_under, fun _ => Branch.path_ne_nil_of_mem_under⟩⟩
  | call f arg => exact ⟨_, rfl, fun _ => Branch.path_ne_nil_of_mem_under⟩
  | _ => exact ⟨[], rfl, by simp⟩

/-! ## The lines of a diagram -/

theorem hang_cons (branch : Branch) (first : String) (rest : List String) :
    hang branch.isLast (first :: rest) =
      (branch.joint ++ first) :: rest.map (branch.rail ++ ·) := by
  cases branch <;> rfl

/-- What hangs below a node are the lines of the nodes there. -/
theorem hang_preorder (branch : Branch) (e : Expr) :
    hang branch.isLast (e.preorder.map line) = (branch.under e.preorder).map line := by
  obtain ⟨others, hnodes, hothers⟩ := e.preorder_eq_cons
  have hfirst : line ([branch], e) = branch.joint ++ line ([], e) := by
    simp [line, Branch.lineHead]
  have hrest : (branch.under others).map line = (others.map line).map (branch.rail ++ ·) := by
    rw [Branch.under, List.map_map, List.map_map]
    apply List.map_congr_left
    intro entry hentry
    obtain ⟨path, node⟩ := entry
    obtain ⟨step, path, rfl⟩ := List.exists_cons_of_ne_nil (hothers _ hentry)
    simp [line, Branch.lineHead, String.append_assoc]
  rw [hnodes, List.map_cons, hang_cons, ← hfirst, ← hrest]
  rfl

/-- A diagram has the lines of the nodes. -/
theorem diagramLines_eq (e : Expr) : e.diagramLines = e.preorder.map line := by
  have hroot : ∀ node : Expr, line ([], node) = node.label := by
    intro node
    simp [line, Branch.lineHead]
  induction e with
  | binary op left right ihleft ihright =>
    rw [diagramLines, ihleft, ihright, preorder, List.map_cons, List.map_append, hroot,
      ← hang_preorder, ← hang_preorder]
    rfl
  | call f arg ih =>
    rw [diagramLines, ih, preorder, List.map_cons, hroot, ← hang_preorder]
    rfl
  | _ => exact congrArg (fun text => [text]) (hroot _).symm

/-- There are no line breaks in what hangs below a node, if there are none in its lines. -/
theorem newline_not_mem_hang (branch : Branch) {lines : List String}
    (h : ∀ line ∈ lines, '\n' ∉ line.toList) :
    ∀ line ∈ hang branch.isLast lines, '\n' ∉ line.toList := by
  have hjoint : '\n' ∉ branch.joint.toList := by
    cases branch <;> decide
  have hrail : '\n' ∉ branch.rail.toList := by
    cases branch <;> decide
  cases lines with
  | nil => exact h
  | cons first rest =>
    obtain ⟨hfirst, hrest⟩ := List.forall_mem_cons.mp h
    rw [hang_cons, List.forall_mem_cons, List.forall_mem_map]
    constructor
    · rw [String.toList_append, List.mem_append]
      exact not_or_intro hjoint hfirst
    · intro line hmem
      rw [String.toList_append, List.mem_append]
      exact not_or_intro hrail (hrest line hmem)

/-- There are no line breaks in a diagram but those between its lines. -/
theorem newline_not_mem_diagramLines {e : Expr} (h : ∀ n ∈ e.numerals, '\n' ∉ n.text.toList) :
    ∀ line ∈ e.diagramLines, '\n' ∉ line.toList := by
  induction e with
  | numeral n => exact List.forall_mem_singleton.mpr (h n List.mem_cons_self)
  | constant c => cases c <;> decide
  | var => decide
  | binary op left right ihleft ihright =>
    obtain ⟨hleft, hright⟩ := List.forall_mem_append.mp h
    rw [diagramLines, List.forall_mem_cons, List.forall_mem_append]
    refine ⟨?_, newline_not_mem_hang .left (ihleft hleft),
      newline_not_mem_hang .right (ihright hright)⟩
    cases op <;> decide
  | call f arg ih =>
    rw [diagramLines, List.forall_mem_cons]
    refine ⟨?_, newline_not_mem_hang .argument (ih h)⟩
    cases f <;> decide

theorem diagramLines_ne_nil (e : Expr) : e.diagramLines ≠ [] := by
  cases e <;> simp [diagramLines]

/-- The lines of a diagram are found again in its text. -/
theorem splitLines_eq_diagramLines {e : Expr} (h : ∀ n ∈ e.numerals, '\n' ∉ n.text.toList) :
    Text.splitLines e.diagram = e.diagramLines :=
  Text.splitLines_intercalate e.diagramLines_ne_nil (newline_not_mem_diagramLines h)

/-! ## An expression found again in its diagram -/

/-- Whether a line begins with a rule that leads on to a further operand. -/
def isRuled (line : String) : Bool := line.toList.head?.any fun c => c == '├' || c == '│'

theorem hang_injective (branch : Branch) {lines lines' : List String}
    (h : hang branch.isLast lines = hang branch.isLast lines') : lines = lines' := by
  cases lines with
  | nil =>
    cases lines' with
    | nil => rfl
    | cons first' rest' =>
      rw [hang_cons] at h
      cases h
  | cons first rest =>
    cases lines' with
    | nil =>
      rw [hang_cons] at h
      cases h
    | cons first' rest' =>
      rw [hang_cons, hang_cons, List.cons.injEq] at h
      have hrail : Function.Injective (branch.rail ++ ·) := by
        intro line line' hline
        exact (String.append_right_inj _).mp hline
      rw [(String.append_right_inj _).mp h.1, List.map_injective_iff.mpr hrail h.2]

/-- The front of a line decides whether there is a rule. -/
theorem isRuled_append {front : String} (hne : front.toList ≠ []) (line : String) :
    isRuled (front ++ line) = isRuled front := by
  rw [isRuled, isRuled, String.toList_append, List.head?_append_of_ne_nil _ hne]

/-- A rule begins every line that hangs below a node on its left, and not the first one of those
on its right. -/
theorem takeWhile_isRuled {left right : List String} (hne : right ≠ []) :
    (hang false left ++ hang true right).takeWhile isRuled = hang false left := by
  have hleft : ∀ line ∈ hang false left, isRuled line := by
    cases left with
    | nil => simp [hang]
    | cons first rest =>
      rw [hang, if_neg Bool.false_ne_true, List.forall_mem_cons, List.forall_mem_map]
      constructor
      · rw [isRuled_append (by decide)]
        decide
      · intro line _
        rw [isRuled_append (by decide)]
        decide
  obtain ⟨first, rest, rfl⟩ := List.exists_cons_of_ne_nil hne
  have hright : ¬ isRuled ("└──" ++ first) := by
    rw [isRuled_append (by decide)]
    decide
  rw [List.takeWhile_append_of_pos hleft, hang, if_pos rfl, List.takeWhile_cons_of_neg hright,
    List.append_nil]

theorem hang_append_inj {left left' right right' : List String} (hne : right ≠ [])
    (hne' : right' ≠ [])
    (h : hang false left ++ hang true right = hang false left' ++ hang true right') :
    left = left' ∧ right = right' := by
  have hleft : hang false left = hang false left' := by
    rw [← takeWhile_isRuled hne, h, takeWhile_isRuled hne']
  rw [hleft, List.append_cancel_left_eq] at h
  exact ⟨hang_injective .left hleft, hang_injective .right h⟩

/-- What the text of a node says, if it is read as a word. -/
def instruction : Expr → Instruction
  | binary op _ _ => .operate op
  | call f _ => .apply f
  | leaf => .push leaf

/-- The text of a node shows of what kind it is. -/
theorem ofWord?_label {e : Expr} (h : e.IsReadable) :
    Instruction.ofWord? e.label = some e.instruction := by
  cases e with
  | numeral n => exact Instruction.ofWord?_numeral (h n List.mem_cons_self)
  | constant c => exact Instruction.ofWord?_constant c
  | var => exact Instruction.ofWord?_var
  | binary op left right => exact Instruction.ofWord?_operator op
  | call f arg => exact Instruction.ofWord?_fn f

theorem head?_diagramLines (e : Expr) : e.diagramLines.head? = some e.label := by
  cases e <;> rfl

/-- The first line of a diagram shows of what kind the root is. -/
theorem instruction_eq_of_diagramLines_eq {e other : Expr} (he : e.IsReadable)
    (hother : other.IsReadable) (h : e.diagramLines = other.diagramLines) :
    e.instruction = other.instruction := by
  have hlabel : e.label = other.label := by
    apply Option.some.inj
    rw [← head?_diagramLines, ← head?_diagramLines, h]
  apply Option.some.inj
  rw [← ofWord?_label he, ← ofWord?_label hother, hlabel]

/-- No two expressions have the same lines in their diagrams. -/
theorem eq_of_diagramLines_eq {e other : Expr} (he : e.IsReadable) (hother : other.IsReadable)
    (h : e.diagramLines = other.diagramLines) : e = other := by
  induction e generalizing other with
  | binary op left right ihleft ihright =>
    have hroot := instruction_eq_of_diagramLines_eq he hother h
    cases other with
    | binary op' left' right' =>
      obtain rfl := Instruction.operate.inj hroot
      obtain ⟨hleft, hright⟩ := List.forall_mem_append.mp he
      obtain ⟨hleft', hright'⟩ := List.forall_mem_append.mp hother
      obtain ⟨hlines, hlines'⟩ := hang_append_inj right.diagramLines_ne_nil
        right'.diagramLines_ne_nil (List.cons.inj h).2
      rw [ihleft hleft hleft' hlines, ihright hright hright' hlines']
    | _ => cases hroot
  | call f arg ih =>
    have hroot := instruction_eq_of_diagramLines_eq he hother h
    cases other with
    | call f' arg' =>
      obtain rfl := Instruction.apply.inj hroot
      have harg : arg'.IsReadable := hother
      rw [ih he harg (hang_injective .argument (List.cons.inj h).2)]
    | _ => cases hroot
  | _ =>
    have hroot := instruction_eq_of_diagramLines_eq he hother h
    cases other <;> cases hroot
    rfl

/-- There is no line break in a number. -/
theorem IsReadable.newline_not_mem {e : Expr} (h : e.IsReadable) :
    ∀ n ∈ e.numerals, '\n' ∉ n.text.toList := by
  intro n hmem hnewline
  exact absurd (Numeral.isTextChar_of_ofText? (h n hmem) _ hnewline) (by decide)

/-- No two expressions have the same diagram. -/
theorem eq_of_diagram_eq {e other : Expr} (he : e.IsReadable) (hother : other.IsReadable)
    (h : e.diagram = other.diagram) : e = other := by
  apply eq_of_diagramLines_eq he hother
  rw [← splitLines_eq_diagramLines he.newline_not_mem,
    ← splitLines_eq_diagramLines hother.newline_not_mem, h]

/-- A diagram has one line for each node, in front of those of its operands, and the front of
the line is the way to the node.  An expression can be told from its diagram.

The first half needs no more than that there are no line breaks in the numerals; in the second
one they have to be what their texts read as. -/
theorem splitLines_diagram (e : Expr) :
    ((∀ n ∈ e.numerals, '\n' ∉ n.text.toList) →
      Text.splitLines e.diagram =
        e.preorder.map fun (path, node) => Branch.lineHead path ++ node.label) ∧
    (e.IsReadable → ∀ other : Expr, other.IsReadable → e.diagram = other.diagram →
      e = other) := by
  constructor
  · intro htexts
    rw [splitLines_eq_diagramLines htexts, diagramLines_eq]
    rfl
  · intro he other hother hsame
    exact eq_of_diagram_eq he hother hsame

/-- The numbers of a formula are what their texts read as. -/
theorem IsPlain.isReadable {e : Expr} (h : e.IsPlain) : e.IsReadable := by
  induction e with
  | numeral n =>
    obtain ⟨m, rfl⟩ := h
    exact List.forall_mem_singleton.mpr m.ofText?_text_numeral
  | constant c => exact fun _ hmem => absurd hmem List.not_mem_nil
  | var => exact fun _ hmem => absurd hmem List.not_mem_nil
  | binary op left right ihleft ihright =>
    exact List.forall_mem_append.mpr ⟨ihleft h.1, ihright h.2⟩
  | call f arg ih => exact ih h

/-- An operator and a function on the left, and a number with a sign. -/
theorem splitLines_diagram_sign :
    let n := (SignedNumber.mk true ⟨[2], some [5, 0], .inl (by simp)⟩).numeral
    let e : Expr := .binary .sub (.call .sqrt (.binary .pow (.numeral n) .var)) (.constant .pi)
    ∃ formula, Formula.read "sqrt(-2.50 ^ x) - pi" = .ok formula ∧
      ((∀ n ∈ e.numerals, '\n' ∉ n.text.toList) ∧ e.IsReadable ∧ formula.root.IsReadable ∧
        e.diagram = formula.root.diagram) ∧
      Text.splitLines e.diagram =
        ["-", "├──sqrt", "│  └──^", "│     ├──-2.50", "│     └──x", "└──pi"] ∧
      e = formula.root := by
  intro n e
  have hok : (Formula.read "sqrt(-2.50 ^ x) - pi").isOk := by decide +kernel
  obtain ⟨formula, hformula⟩ := Outcomes.exists_of_isOk hok
  have hdiagram : (Formula.read "sqrt(-2.50 ^ x) - pi").toOption.map Formula.diagram =
      some e.diagram := by decide +kernel
  rw [hformula] at hdiagram
  have hsame : e.diagram = formula.root.diagram := (Option.some.inj hdiagram).symm
  have hplain : e.IsPlain := ⟨⟨⟨_, rfl⟩, trivial⟩, trivial⟩
  have he := hplain.isReadable
  have hroot : formula.root.IsReadable := (Formula.postOrder_of_readWith hformula).2.isReadable
  obtain ⟨hlines, hinjective⟩ := splitLines_diagram e
  have hshown : (e.preorder.map fun (path, node) => Branch.lineHead path ++ node.label) =
      ["-", "├──sqrt", "│  └──^", "│     ├──-2.50", "│     └──x", "└──pi"] := by decide +kernel
  exact ⟨formula, hformula, ⟨he.newline_not_mem, he, hroot, hsame⟩,
    (hlines he.newline_not_mem).trans hshown, hinjective he _ hroot hsame⟩

end Expr

namespace Formula

variable {M N : Type → Type} [NameTable M] [NameTable N]

/-- Two formulas have the same diagram only if they have the same expression, whichever names they
have been read with. -/
theorem diagram_eq_iff {names : M Fn} {others : N Fn} {text other : String}
    {formula formula' : Formula} (h : readWith names text = .ok formula)
    (h' : readWith others other = .ok formula') :
    formula.diagram = formula'.diagram ↔ formula.root = formula'.root := by
  have hreadable := (postOrder_of_readWith h).2.isReadable
  have hreadable' := (postOrder_of_readWith h').2.isReadable
  constructor
  · intro hsame
    exact Expr.eq_of_diagram_eq hreadable hreadable' hsame
  · intro hroot
    rw [diagram, diagram, hroot]

end Formula

end Calculator

import Calculator.Expr.Basic
import Mathlib.Tactic.Common

/-!
# Reading a row of operands by precedence

A row of operands with operators between them is read in two ways.

* `parse` is a precedence-climbing parser.  It reads an operand, and as long as the next
  operator binds tightly enough, it reads what belongs to the right of that and puts
  both sides together.
* A `Pile` is what a reader from the left remembers when it does not look ahead: the
  operators that wait, each with its left operand, and the last operand.

An operand may have a multiplier in front.  This takes in the powers behind the operand
but no other operator, whatever operator stands in front of it.  So the multiplication
is put on a pile above operators that bind more tightly, and the operators of a pile
are not in the order of their precedence.  `Pile.finish_parse` holds all the same: it
asks only that the top of the pile waits for whatever `parse` reads.
-/

namespace Calculator.Grammar

/-- An operand of a row, perhaps with a multiplier in front. -/
inductive Operand where
  | plain (e : Expr)
  | scaled (m : Numeral) (e : Expr)

/-! ## The parser -/

/-- What is read from a row, and what is left of the row: it begins with no operator of
precedence `p` or higher. -/
structure Reading (p : Nat) (row : List (Operator × Operand)) where
  tree : Expr
  rest : List (Operator × Operand)
  length_le : rest.length ≤ row.length
  stops : ∀ next ∈ rest.head?, next.1.precedence < p

mutual

/-- Reads on behind the operand `left`, as long as the operators have at least
precedence `p`. -/
def climb (p : Nat) (left : Expr) : (row : List (Operator × Operand)) → Reading p row
  | [] => ⟨left, [], Nat.le_refl _, by simp⟩
  | (op, first) :: row =>
    if h : p ≤ op.precedence then
      match parse (op.precedence + 1) first row with
      | ⟨right, rest, hright, _⟩ =>
        match climb p (.binary op left right) rest with
        | ⟨tree, rest, hrest, stops⟩ => ⟨tree, rest, by rw [List.length_cons]; omega, stops⟩
    else
      ⟨left, (op, first) :: row, Nat.le_refl _, by simpa using h⟩
termination_by row => 2 * row.length

/-- Reads the operand `first`, and as much of the row behind it as operators of at least
precedence `p` hold together. -/
def parse (p : Nat) (first : Operand) (row : List (Operator × Operand)) : Reading p row :=
  match first with
  | .plain e => climb p e row
  | .scaled m e =>
    match climb Operator.pow.precedence e row with
    | ⟨powers, rest, hpowers, _⟩ =>
      match climb p (.binary .mul (.numeral m) powers) rest with
      | ⟨tree, rest, hrest, stops⟩ => ⟨tree, rest, by omega, stops⟩
termination_by 2 * row.length + 1

end

/-! ## Piles -/

/-- The operators that wait, latest first, each with its left operand, and the last
operand. -/
structure Pile where
  waiting : List (Expr × Operator)
  last : Expr

namespace Pile

/-- Applies the operators on top of the pile that go on. -/
def reduce (goesOn : Operator → Bool) : Pile → Pile
  | ⟨[], last⟩ => ⟨[], last⟩
  | ⟨(left, op) :: waiting, last⟩ =>
    if goesOn op then reduce goesOn ⟨waiting, .binary op left last⟩
    else ⟨(left, op) :: waiting, last⟩
termination_by pile => pile.waiting.length

/-- Lets an operator wait behind the last operand. -/
def operate (pile : Pile) (op : Operator) : List (Expr × Operator) :=
  let reduced := pile.reduce fun waiting => op.precedence ≤ waiting.precedence
  (reduced.last, op) :: reduced.waiting

/-- Puts an operand behind the operators that wait; its multiplier waits, too. -/
def put (waiting : List (Expr × Operator)) : Operand → Pile
  | .plain e => ⟨waiting, e⟩
  | .scaled m e => ⟨(.numeral m, .mul) :: waiting, e⟩

/-- What a pile comes to with a row behind it. -/
def finish (pile : Pile) : List (Operator × Operand) → Expr
  | [] => (pile.reduce fun _ => true).last
  | (op, first) :: row => (put (pile.operate op) first).finish row

/-- An operator that the next one sends on may be applied at once. -/
theorem finish_apply {op : Operator} {row : List (Operator × Operand)}
    (h : ∀ next ∈ row.head?, next.1.precedence ≤ op.precedence) (left last : Expr)
    (waiting : List (Expr × Operator)) :
    finish ⟨(left, op) :: waiting, last⟩ row = finish ⟨waiting, .binary op left last⟩ row := by
  cases row with
  | nil =>
    rw [finish, finish, reduce, if_pos rfl]
  | cons next row =>
    obtain ⟨nextOp, first⟩ := next
    have hle : nextOp.precedence ≤ op.precedence := h _ rfl
    rw [finish, finish, operate, operate, reduce, if_pos (by simpa using hle)]

/-- An operator that the next one does not send on is left alone. -/
theorem operate_of_lt {op : Operator} {waiting : List (Expr × Operator)}
    (h : ∀ top ∈ waiting.head?, top.2.precedence < op.precedence) (last : Expr) :
    operate ⟨waiting, last⟩ op = (last, op) :: waiting := by
  cases waiting with
  | nil => rw [operate, reduce]
  | cons top waiting =>
    obtain ⟨left, topOp⟩ := top
    have hlt : topOp.precedence < op.precedence := h _ rfl
    rw [operate, reduce, if_neg (by simpa using hlt)]

mutual

/-- A pile may be read on by `climb`, as long as its top waits for that. -/
theorem finish_climb (p : Nat) (left : Expr) (row : List (Operator × Operand))
    {waiting : List (Expr × Operator)} (h : ∀ top ∈ waiting.head?, top.2.precedence < p) :
    finish ⟨waiting, left⟩ row =
      finish ⟨waiting, (climb p left row).tree⟩ (climb p left row).rest := by
  cases row with
  | nil => rw [climb]
  | cons entry row =>
    obtain ⟨op, first⟩ := entry
    rw [climb]
    split
    · rename_i hp
      have hblocked : ∀ top ∈ waiting.head?, top.2.precedence < op.precedence := by
        intro top htop
        have := h top htop
        omega
      have hright := (parse (op.precedence + 1) first row).length_le
      have hstops : ∀ next ∈ (parse (op.precedence + 1) first row).rest.head?,
          next.1.precedence ≤ op.precedence := by
        intro next hnext
        have := (parse (op.precedence + 1) first row).stops next hnext
        omega
      calc finish ⟨waiting, left⟩ ((op, first) :: row)
          = (put ((left, op) :: waiting) first).finish row := by
            rw [finish, operate_of_lt hblocked]
        _ = finish ⟨(left, op) :: waiting, (parse (op.precedence + 1) first row).tree⟩
              (parse (op.precedence + 1) first row).rest :=
            finish_parse (op.precedence + 1) first row (by simp)
        _ = finish ⟨waiting, .binary op left (parse (op.precedence + 1) first row).tree⟩
              (parse (op.precedence + 1) first row).rest :=
            finish_apply hstops left _ waiting
        _ = _ := finish_climb p _ _ h
    · rfl
termination_by 2 * row.length

/-- A pile with an operand put on it may be read on by `parse`, as long as its top waits for
that. -/
theorem finish_parse (p : Nat) (first : Operand) (row : List (Operator × Operand))
    {waiting : List (Expr × Operator)} (h : ∀ top ∈ waiting.head?, top.2.precedence < p) :
    (put waiting first).finish row =
      finish ⟨waiting, (parse p first row).tree⟩ (parse p first row).rest := by
  cases first with
  | plain e =>
    rw [parse, put]
    exact finish_climb p e row h
  | scaled m e =>
    have hpowers := (climb Operator.pow.precedence e row).length_le
    -- Behind the powers there is at most a multiplication, which sends the multiplier on.
    have hstops : ∀ next ∈ (climb Operator.pow.precedence e row).rest.head?,
        next.1.precedence ≤ Operator.mul.precedence := by
      intro next hnext
      have hlt : next.1.precedence < 3 := (climb Operator.pow.precedence e row).stops next hnext
      show next.1.precedence ≤ 2
      omega
    rw [parse]
    calc (put waiting (.scaled m e)).finish row
        = finish ⟨(.numeral m, .mul) :: waiting, (climb Operator.pow.precedence e row).tree⟩
            (climb Operator.pow.precedence e row).rest :=
          finish_climb Operator.pow.precedence e row (by simp [Operator.precedence])
      _ = finish ⟨waiting,
            .binary .mul (.numeral m) (climb Operator.pow.precedence e row).tree⟩
            (climb Operator.pow.precedence e row).rest :=
          finish_apply hstops _ _ waiting
      _ = _ := finish_climb p _ _ h
termination_by 2 * row.length + 1

end

/-- Every operator has at least precedence `1`, so the whole row is read at that. -/
theorem rest_parse_one (first : Operand) (row : List (Operator × Operand)) :
    (parse 1 first row).rest = [] := by
  cases hrest : (parse 1 first row).rest with
  | nil => rfl
  | cons next rest =>
    have hlt : next.1.precedence < 1 := (parse 1 first row).stops next (by rw [hrest]; rfl)
    have hpos : 1 ≤ next.1.precedence := by
      cases next.1 <;> decide
    omega

/-- A reader with a pile comes to the same expression as the parser. -/
theorem finish_put (first : Operand) (row : List (Operator × Operand)) :
    (put [] first).finish row = (parse 1 first row).tree := by
  rw [finish_parse 1 first row (by simp), rest_parse_one, finish, reduce]

end Pile

end Calculator.Grammar

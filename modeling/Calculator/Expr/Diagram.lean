import Calculator.Expr.Basic

/-!
# Diagrams of expressions

An expression is drawn with one line per node, the operands below their operator
and joined to it by lines:

    +
    ├──2
    └──sin
       └──x
-/

namespace Calculator.Expr

/-- Hangs the lines of an operand below its operator.  A rule leads down to the
next operand, if this is not the last. -/
def hang (last : Bool) : List String → List String
  | [] => []
  | first :: rest =>
    if last then ("└──" ++ first) :: rest.map ("   " ++ ·)
    else ("├──" ++ first) :: rest.map ("│  " ++ ·)

/-- The lines of the diagram of an expression, the root's first. -/
def diagramLines : Expr → List String
  | binary op left right =>
    String.singleton op.symbol :: (hang false left.diagramLines ++ hang true right.diagramLines)
  | call f arg => f.name :: hang true arg.diagramLines
  | leaf => [leaf.label]

/-- The diagram of an expression. -/
def diagram (e : Expr) : String := String.intercalate "\n" e.diagramLines

end Calculator.Expr

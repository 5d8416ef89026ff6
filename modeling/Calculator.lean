import Calculator.Formula.Journal
import Calculator.NameTable.Bucketed
import Calculator.NameTable.Sorted
import Calculator.Proofs.Formula.Substitution
import Calculator.Proofs.Grammar.Descent
import Calculator.Proofs.Grammar.Reading
import Calculator.Proofs.NameTable.Answers
import Calculator.Proofs.NameTable.Agreement
import Calculator.Proofs.Formula.Literals
import Calculator.Proofs.Formula.Parenthesized
import Calculator.Proofs.Lexer.Language
import Calculator.Proofs.Formula.Words
import Calculator.Proofs.Formula.Blanks
import Calculator.Proofs.Grammar.Signs
import Calculator.Proofs.ReversePolish.Nesting
import Calculator.Proofs.Lexer.Partners
import Calculator.Proofs.ReversePolish.Blocks
import Calculator.Proofs.ReversePolish.WellKept
import Calculator.Proofs.Formula.Names
import Calculator.Proofs.Formula.Diagram
import Calculator.Proofs.Formula.Faults
import Calculator.Proofs.Lexer.Bounds
import Calculator.Proofs.Binary64.Thousandths

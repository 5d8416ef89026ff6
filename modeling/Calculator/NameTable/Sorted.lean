import Calculator.NameTable.Basic

/-!
# Name tables as sorted entries

The entries in one list, the longest name first.  The first name that fits is
then the longest.

The sort leaves entries of one name in the order in which they are given.  So the
entries are reversed before it, and of the entries of one name, which stand side by
side behind it, the first is kept: it is the one that was last.
-/

namespace Calculator.NameTable

/-- The entries of a table, longest name first. -/
structure Sorted (α : Type) where
  entries : List (String × α)

namespace Sorted

variable {α : Type}

/-- Whether an entry may stand in front of another one: a longer name comes first, and names of
one length are in their own order. -/
def inOrder (a b : String × α) : Bool :=
  b.1.utf8ByteSize < a.1.utf8ByteSize || b.1.utf8ByteSize = a.1.utf8ByteSize && a.1 ≤ b.1

/-- The entries without those that have the name of the entry before them.  `last` is the name
in front of the list, if there is one. -/
def dropRepeated (last : Option String) : List (String × α) → List (String × α)
  | [] => []
  | entry :: entries =>
    if last = some entry.1 then dropRepeated last entries
    else entry :: dropRepeated (some entry.1) entries

/-- Sorts the entries, and keeps the last one of each name. -/
def ofEntries (entries : List (String × α)) : Sorted α :=
  ⟨dropRepeated none (entries.reverse.mergeSort inOrder)⟩

/-- The first entry whose name the text begins with. -/
def longest? (table : Sorted α) (text : List Char) : Option (Nat × α) :=
  (table.entries.find? fun entry => entry.1.toList.isPrefixOf text).map fun (name, value) =>
    (name.utf8ByteSize, value)

instance : NameTable Sorted where
  ofEntries := ofEntries
  longest? := longest?

end Sorted

end Calculator.NameTable

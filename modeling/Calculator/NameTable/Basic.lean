import Calculator.Text.Utf8

/-!
# Tables of names

A table maps names to values and answers one question: which is the longest name
a given text begins with?  The lexer asks it at a letter, so that `sinh(x)` is
read with `sinh` and not with `sin`.

This module has the question.  Three kinds of table answer it, each in a module
of its own.

* `NameTable.Sorted` tries every name, longest first.
* `NameTable.Bucketed` keeps the names apart by length and looks up one prefix of
  the text per length.
* `NameTable.Walked` goes through the prefixes of the text, with the bytes of the
  names in a trie.

All three answer with the length of the name in bytes, and with the value of the
last entry that has the name.  A name may be any text, the empty one included.
-/

namespace Calculator

/-- A kind of table that finds the longest name a text begins with. -/
class NameTable (M : Type → Type) where
  /-- The table with the given entries; of two with the same name the later one
  counts. -/
  ofEntries {α : Type} (entries : List (String × α)) : M α
  /-- The length in bytes and the value of the longest name the text begins
  with. -/
  longest? {α : Type} (table : M α) (text : List Char) : Option (Nat × α)

end Calculator

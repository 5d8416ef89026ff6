import Calculator.NameTable.Basic
import Std.Data.HashMap

/-!
# Name tables as buckets of one length

One hash map for each length in bytes, with the names of that length.  A text is
looked up with each of its prefixes, longest first, in the bucket of the prefix's
length.  A number of bytes that ends inside a character is no prefix and is passed
over.
-/

namespace Calculator.NameTable

/-- The entries of a table by the length of their names in bytes. -/
structure Bucketed (α : Type) where
  buckets : Array (Std.HashMap String α)

namespace Bucketed

variable {α : Type}

/-- Adds an entry to the bucket of its length, after adding buckets up to that
length. -/
def insert (table : Bucketed α) (name : String) (value : α) : Bucketed α :=
  let length := name.utf8ByteSize
  let missing := length + 1 - table.buckets.size
  ⟨(table.buckets ++ Array.replicate missing ∅).modify length (·.insert name value)⟩

/-- The entries inserted in their order, so that a later one displaces an earlier
one of the same name. -/
def ofEntries (entries : List (String × α)) : Bucketed α :=
  entries.foldl (fun table (name, value) => table.insert name value) ⟨#[]⟩

/-- The value of the prefix of `length` bytes, if it is a name. -/
def ofLength? (table : Bucketed α) (text : List Char) (length : Nat) : Option (Nat × α) := do
  let (name, _) ← Text.splitAt? length text
  let bucket ← table.buckets[length]?
  let value ← bucket[String.ofList name]?
  pure (length, value)

/-- The entry of the longest prefix that is a name. -/
def longest? (table : Bucketed α) (text : List Char) : Option (Nat × α) :=
  let lengths := min table.buckets.size (Text.byteLength text + 1)
  (List.range lengths).reverse.findSome? (table.ofLength? text)

instance : NameTable Bucketed where
  ofEntries := ofEntries
  longest? := longest?

end Bucketed

end Calculator.NameTable

import Calculator.NameTable.Basic

/-!
# Name tables as tries

The names stand in a trie, a map from rows of bytes to values that can also tell
whether anything is stored below a row.  A look-up goes through the prefixes of the
text, the shortest one first, and takes the value of the last one that has any.  It
ends at a prefix with nothing below it, since from there on no name can fit.

How a trie branches makes no difference to this.  `ByteTrie` has the operations of
one, `Walked` is the kind of table that any of them gives, and `Trie` the one with the
plainest of them, `Listed`.
-/

namespace Calculator.NameTable

/-- A kind of map from rows of bytes to values, with a question about what is stored
below a row. -/
class ByteTrie (T : Type → Type) where
  /-- The trie without values. -/
  empty {α : Type} : T α
  /-- The trie with a value stored under a row; the row's earlier value is displaced. -/
  insert {α : Type} (trie : T α) (row : List UInt8) (value : α) : T α
  /-- The value stored under a row. -/
  get? {α : Type} (trie : T α) (row : List UInt8) : Option α
  /-- Whether no row that begins with the given one has a value. -/
  isEmptyBelow {α : Type} (trie : T α) (row : List UInt8) : Bool

/-- A table with a trie for the bytes of its names. -/
structure Walked (T : Type → Type) (α : Type) where
  names : T α

namespace Walked

variable {T : Type → Type} [ByteTrie T] {α : Type}

/-- The entries inserted in their order, each under the bytes of its name. -/
def ofEntries (entries : List (String × α)) : Walked T α :=
  ⟨entries.foldl (fun trie (name, value) =>
    ByteTrie.insert trie (Text.bytes name.toList) value) ByteTrie.empty⟩

/-- Tries the prefixes of a row that have the given lengths, one after the other, as
long as there is something below them.  `best` is the entry found before. -/
def search (trie : T α) (row : List UInt8) (best : Option (Nat × α)) :
    List Nat → Option (Nat × α)
  | [] => best
  | length :: lengths =>
    let front := row.take length
    if ByteTrie.isEmptyBelow trie front then best
    else search trie row (((ByteTrie.get? trie front).map (length, ·)).or best) lengths

/-- The entry of the longest prefix with a value.  The empty prefix is the first
one. -/
def longest? (table : Walked T α) (text : List Char) : Option (Nat × α) :=
  let row := Text.bytes text
  let best := (ByteTrie.get? table.names []).map (0, ·)
  search table.names row best (List.range' 1 row.length)

instance : NameTable (Walked T) where
  ofEntries := ofEntries
  longest? := longest?

end Walked

/-- All rows that have a value, the one inserted last in front. -/
structure Listed (α : Type) where
  rows : List (List UInt8 × α)

/-- What is stored is looked for in the whole list. -/
instance : ByteTrie Listed where
  empty := ⟨[]⟩
  insert trie row value := ⟨(row, value) :: trie.rows⟩
  get? trie row := trie.rows.lookup row
  isEmptyBelow trie row := !trie.rows.any fun entry => row.isPrefixOf entry.1

/-- The kind of table that the standard names stand in. -/
abbrev Trie : Type → Type := Walked Listed

end Calculator.NameTable

import Calculator.Formula.Basic
import Calculator.Proofs.NameTable.Answers

/-!
# Looking names up in a trie

`LawfulByteTrie` says what a trie has to do: it keeps what was last stored under each row, and
knows below which rows nothing is stored.  Nothing else is known of it here.

* `Walked.get?_bytes_ofEntries` follows by adding the entries one by one: the value of a name is
  stored under its bytes.  No other row has a value (`Walked.exists_bytes_of_get?`).
* `Walked.search_eq` is the search: it finds what would be found by trying all prefixes, the
  longest one first.  Ending it early loses nothing, since nothing is below the prefixes that are
  left out.  So a table over any trie is lawful.
* For a table of any kind, `Lexer.name?_ofEntries_iff` says which texts begin with a
  name and its parenthesis.  No standard name has a parenthesis in it, so that the
  longest one of such a text is the one in front of the parenthesis
  (`Lexer.name?_standardNames_iff`).
-/

namespace Calculator

open Text (byteLength byteLength_append byteLength_eq_zero_iff byteLength_toList bytes bytes_append
  bytes_injective length_bytes prefix_of_bytes splitAt? splitAt?_eq_some_iff)

namespace NameTable

open ByteTrie (empty get? insert isEmptyBelow)

variable {T : Type → Type} [ByteTrie T] {α : Type}

/-- What a trie has to do.  It keeps the last value of each row, and a part of it is empty if no
row that belongs there has a value. -/
class LawfulByteTrie (T : Type → Type) [ByteTrie T] : Prop where
  get?_empty {α : Type} (row : List UInt8) : get? (empty : T α) row = none
  get?_insert {α : Type} (trie : T α) (row other : List UInt8) (value : α) :
    get? (insert trie row value) other = if other = row then some value else get? trie other
  isEmptyBelow_iff {α : Type} (trie : T α) (row : List UInt8) :
    isEmptyBelow trie row ↔ ∀ other, row <+: other → get? trie other = none

open LawfulByteTrie (get?_empty get?_insert isEmptyBelow_iff)

/-- A list of all rows is a trie. -/
instance : LawfulByteTrie Listed where
  get?_empty _ := rfl
  get?_insert trie row other value := by
    show List.lookup other ((row, value) :: trie.rows) = _
    rw [List.lookup_cons]
    by_cases h : other = row
    · rw [if_pos h, beq_iff_eq.mpr h]
    · rw [if_neg h, beq_false_of_ne h]
      rfl
  isEmptyBelow_iff trie row := by
    have hempty : isEmptyBelow trie row ↔ ∀ entry ∈ trie.rows, ¬ row <+: entry.1 := by
      show (!trie.rows.any fun entry => row.isPrefixOf entry.1) = true ↔ _
      simp
    have hlookup : ∀ other, get? trie other = none ↔ ∀ entry ∈ trie.rows, other ≠ entry.1 := by
      intro other
      show trie.rows.lookup other = none ↔ _
      simp [List.lookup_eq_none_iff]
    rw [hempty]
    constructor
    · intro h other hother
      rw [hlookup]
      rintro entry hmem rfl
      exact h entry hmem hother
    · intro h entry hmem hprefix
      exact (hlookup entry.1).mp (h entry.1 hprefix) entry hmem rfl

namespace Walked

/-! ## The entries -/

theorem names_ofEntries_concat (entries : List (String × α)) (entry : String × α) :
    (ofEntries (entries ++ [entry]) : Walked T α).names =
      insert (ofEntries entries : Walked T α).names (bytes entry.1.toList) entry.2 := by
  simp [ofEntries, List.foldl_append]

variable [LawfulByteTrie T]

/-- The value of a name is stored under its bytes. -/
theorem get?_bytes_ofEntries (entries : List (String × α)) (name : String) :
    get? (ofEntries entries : Walked T α).names (bytes name.toList) = valueOf? entries name := by
  induction entries using List.reverseRecOn with
  | nil => exact get?_empty _
  | append_singleton entries entry ih =>
    have hname : bytes name.toList = bytes entry.1.toList ↔ name = entry.1 :=
      ⟨fun h => String.toList_inj.mp (bytes_injective h), fun h => by rw [h]⟩
    simp only [names_ofEntries_concat, get?_insert, valueOf?_concat, ih, hname]

/-- Nothing is stored under any other row. -/
theorem exists_bytes_of_get? {entries : List (String × α)} {row : List UInt8} {value : α}
    (h : get? (ofEntries entries : Walked T α).names row = some value) :
    ∃ name : String, row = bytes name.toList := by
  induction entries using List.reverseRecOn with
  | nil =>
    have hnone : get? (ofEntries [] : Walked T α).names row = none := get?_empty row
    rw [hnone] at h
    cases h
  | append_singleton entries entry ih =>
    rw [names_ofEntries_concat, get?_insert] at h
    split at h
    · exact ⟨entry.1, ‹_›⟩
    · exact ih h

/-! ## The search -/

/-- The entry of the prefix of a row that has the given length. -/
def ofLength? (trie : T α) (row : List UInt8) (length : Nat) : Option (Nat × α) :=
  (get? trie (row.take length)).map (length, ·)

/-- Where nothing is below a prefix, no longer prefix has a value. -/
theorem ofLength?_eq_none {trie : T α} {row : List UInt8} {length : Nat}
    (h : isEmptyBelow trie (row.take length)) (longer : Nat) (hle : length ≤ longer) :
    ofLength? trie row longer = none := by
  rw [ofLength?, (isEmptyBelow_iff trie _).mp h _ (List.take_prefix_take_left hle)]
  rfl

/-- The search goes on from the longest prefix found so far to the longest one of all. -/
theorem search_eq (trie : T α) (row : List UInt8) (length count : Nat) :
    search trie row ((List.range length).reverse.findSome? (ofLength? trie row))
        (List.range' length count) =
      (List.range (length + count)).reverse.findSome? (ofLength? trie row) := by
  induction count generalizing length with
  | zero => rfl
  | succ count ih =>
    rw [List.range'_succ, search]
    split
    · rename_i hempty
      exact (findSome?_reverse_range_add (ofLength?_eq_none hempty) (count + 1)).symm
    · have hbest := findSome?_reverse_range_succ (ofLength? trie row) length
      rw [ofLength?] at hbest
      rw [← hbest, ih, Nat.add_right_comm, Nat.add_assoc]

/-- A look-up finds the longest prefix with a value. -/
theorem longest?_eq (table : Walked T α) (text : List Char) :
    table.longest? text =
      (List.range ((bytes text).length + 1)).reverse.findSome?
        (ofLength? table.names (bytes text)) := by
  have hbest : (get? table.names []).map (0, ·) =
      (List.range 1).reverse.findSome? (ofLength? table.names (bytes text)) := by
    rw [findSome?_reverse_range_succ]
    simp [ofLength?]
  rw [longest?, hbest, search_eq, Nat.add_comm]

/-- Only the bytes of names have values, and no name ends inside a character of the text.  So what
is found is a name that the text begins with. -/
theorem exists_of_ofLength? {entries : List (String × α)} {text : List Char} {length : Nat}
    {answer : Nat × α} (hle : length ≤ (bytes text).length)
    (h : ofLength? (ofEntries entries : Walked T α).names (bytes text) length = some answer) :
    ∃ (name : String) (value : α), name.toList <+: text ∧ name.utf8ByteSize = length ∧
      valueOf? entries name = some value ∧ answer = (length, value) := by
  obtain ⟨value, hvalue, rfl⟩ := Option.map_eq_some_iff.mp h
  obtain ⟨name, hbytes⟩ := exists_bytes_of_get? hvalue
  rw [hbytes, get?_bytes_ofEntries] at hvalue
  refine ⟨name, value, ?_, ?_, hvalue, rfl⟩
  · apply prefix_of_bytes
    rw [← hbytes]
    exact List.take_prefix _ _
  · rw [← byteLength_toList, ← length_bytes, ← hbytes, List.length_take, Nat.min_eq_left hle]

/-- A name that the text begins with is found under its length. -/
theorem ofLength?_utf8ByteSize (entries : List (String × α)) (name : String)
    (rest : List Char) :
    ofLength? (ofEntries entries : Walked T α).names (bytes (name.toList ++ rest))
        name.utf8ByteSize =
      (valueOf? entries name).map (name.utf8ByteSize, ·) := by
  have htake : (bytes (name.toList ++ rest)).take name.utf8ByteSize = bytes name.toList := by
    rw [bytes_append, ← byteLength_toList, ← length_bytes]
    exact List.take_left
  rw [ofLength?, htake, get?_bytes_ofEntries]

/-- A table over a trie gives the answer. -/
instance : Lawful (Walked T) where
  answers_longest? entries text := by
    show Answers entries text ((ofEntries entries : Walked T _).longest? text)
    rw [longest?_eq]
    apply answers_findSome?
    · intro length hlt answer
      exact exists_of_ofLength? (Nat.le_of_lt_succ hlt)
    · intro name hbegins hvalue
      obtain ⟨rest, rfl⟩ := hbegins
      constructor
      · rw [length_bytes, byteLength_append, byteLength_toList]
        omega
      · rwa [ofLength?_utf8ByteSize, Ne, Option.map_eq_none_iff]

end Walked

end NameTable

open NameTable

/-! ## Names and parentheses -/

/-- What has no parenthesis in it and begins a text ends before the first one. -/
theorem prefix_of_paren_not_mem {name more rest : List Char} (hname : '(' ∉ name)
    (h : name <+: more ++ '(' :: rest) : name <+: more := by
  rcases List.prefix_or_prefix_of_prefix h (List.prefix_append _ _) with hle | hge
  · exact hle
  · obtain ⟨tail, rfl⟩ := hge
    rw [List.prefix_append_right_inj] at h
    cases tail with
    | nil => rw [List.append_nil]
    | cons c tail =>
      obtain ⟨rfl, -⟩ := List.cons_prefix_cons.mp h
      exact absurd (by simp) hname

/-- A beginning is not longer than the whole. -/
theorem utf8ByteSize_le_of_prefix {name other : String} (h : name.toList <+: other.toList) :
    name.utf8ByteSize ≤ other.utf8ByteSize := by
  obtain ⟨tail, htail⟩ := h
  rw [← byteLength_toList other, ← htail, byteLength_append, byteLength_toList]
  omega

/-- A function is read where one of the names stands with a parenthesis behind it, if no longer
name fits.  It is the function of the last entry of that name. -/
theorem Lexer.name?_ofEntries_iff {M : Type → Type} [NameTable M] [Lawful M]
    {entries : List (String × Fn)} {text rest : List Char} {f : Fn} :
    Lexer.name? (ofEntries entries : M Fn) text = .ok (f, rest) ↔
      ∃ name : String, text = name.toList ++ '(' :: rest ∧ name.utf8ByteSize ≠ 0 ∧
        LastEntry entries name f ∧
        ∀ entry ∈ entries, entry.1.toList <+: text →
          entry.1.utf8ByteSize ≤ name.utf8ByteSize := by
  rw [Lexer.name?_eq_ok_iff]
  constructor
  · rintro ⟨taken, hne, htext, hlongest⟩
    obtain ⟨name, more, hname, hlength, hlast, hgreatest⟩ :=
      (longest?_eq_iff entries text _).mp hlongest
    -- The name is what the text is cut behind.
    have hcut : splitAt? (byteLength taken) text = some (taken, '(' :: rest) :=
      splitAt?_eq_some_iff.mpr ⟨htext, rfl⟩
    have hcut' : splitAt? (byteLength taken) text = some (name.toList, more) :=
      splitAt?_eq_some_iff.mpr ⟨hname, (byteLength_toList name).trans hlength⟩
    rw [hcut] at hcut'
    obtain ⟨rfl, rfl⟩ := Prod.mk.inj (Option.some.inj hcut')
    rw [← hlength] at hgreatest
    refine ⟨name, htext, ?_, hlast, hgreatest⟩
    rwa [hlength, Ne, byteLength_eq_zero_iff]
  · rintro ⟨name, rfl, hne, hlast, hgreatest⟩
    refine ⟨name.toList, ?_, rfl, ?_⟩
    · rwa [Ne, ← byteLength_eq_zero_iff, byteLength_toList]
    · rw [byteLength_toList]
      exact (longest?_eq_iff entries _ _).mpr ⟨name, '(' :: rest, rfl, rfl, hlast, hgreatest⟩

/-! ## The standard names -/

/-- A standard name has the function of this name as its value. -/
theorem lastEntry_table_iff {name : String} {f : Fn} :
    LastEntry Fn.table name f ↔ name = f.name := by
  constructor
  · intro h
    obtain ⟨g, -, hentry⟩ := List.mem_map.mp h.mem
    obtain ⟨rfl, rfl⟩ := Prod.mk.inj hentry
    rfl
  · rintro rfl
    rw [← valueOf?_eq_some_iff]
    cases f <;> decide

theorem Fn.paren_not_mem_name (f : Fn) : '(' ∉ f.name.toList := by
  cases f <;> decide

/-- No standard name is empty. -/
theorem Fn.utf8ByteSize_name_ne_zero (f : Fn) : f.name.utf8ByteSize ≠ 0 := by
  cases f <;> decide

/-- A standard function is read exactly where its name and a parenthesis stand. -/
theorem Lexer.name?_standardNames_iff {text rest : List Char} {f : Fn} :
    Lexer.name? standardNames text = .ok (f, rest) ↔ text = f.name.toList ++ '(' :: rest := by
  rw [standardNames, Lexer.name?_ofEntries_iff]
  constructor
  · rintro ⟨name, rfl, -, hlast, -⟩
    rw [lastEntry_table_iff.mp hlast]
  · rintro rfl
    refine ⟨f.name, rfl, f.utf8ByteSize_name_ne_zero, lastEntry_table_iff.mpr rfl, ?_⟩
    intro entry hmem hbegins
    obtain ⟨g, -, rfl⟩ := List.mem_map.mp hmem
    exact utf8ByteSize_le_of_prefix (prefix_of_paren_not_mem g.paren_not_mem_name hbegins)

end Calculator

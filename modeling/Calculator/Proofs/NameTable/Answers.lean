import Calculator.NameTable.Basic
import Mathlib.Data.List.Infix

/-!
# What a table of names answers

`Answers entries text answer` says without any table what the answer for a text has to be: the
longest name among the entries that the text begins with, and the value of the last entry that
has this name.

* `valueOf? entries name` is the value of the last entry of a name, `LastEntry` says the same as a
  relation, and `valueOf?_eq_some_iff` that it is the same.
* `Answers.unique`: there is only one answer.
* `answers_of_find?` and `answers_none_of_find?` are how a table is shown to give it: what it has
  found is the value of a name, and no longer name fits.  `answers_findSome?` is for a table that
  tries one length after the other.

`NameTable.Lawful` is the class of the kinds of tables that give this answer.
-/

namespace Calculator.NameTable

open Text (byteLength byteLength_toList splitAt? splitAt?_eq_some_iff)

variable {α : Type}

/-! ## The last entry of a name -/

/-- Whether the last entry of a name has the given value. -/
def LastEntry (entries : List (String × α)) (name : String) (value : α) : Prop :=
  ∃ earlier later, entries = earlier ++ (name, value) :: later ∧
    ∀ entry ∈ later, entry.1 ≠ name

/-- The value of the last entry of a name. -/
def valueOf? (entries : List (String × α)) (name : String) : Option α :=
  (entries.reverse.find? fun entry => entry.1 = name).map Prod.snd

@[simp] theorem valueOf?_nil (name : String) : valueOf? ([] : List (String × α)) name = none := rfl

/-- A later entry displaces the earlier ones of its name. -/
theorem valueOf?_concat (entries : List (String × α)) (entry : String × α) (name : String) :
    valueOf? (entries ++ [entry]) name =
      if name = entry.1 then some entry.2 else valueOf? entries name := by
  rw [valueOf?, List.reverse_concat, List.find?_cons]
  by_cases h : name = entry.1
  · simp [h]
  · simp [h, Ne.symm h, valueOf?]

theorem valueOf?_eq_some_iff {entries : List (String × α)} {name : String} {value : α} :
    valueOf? entries name = some value ↔ LastEntry entries name value := by
  constructor
  · intro h
    obtain ⟨entry, hfind, rfl⟩ := Option.map_eq_some_iff.mp h
    obtain ⟨hname, later, earlier, hentries, hlater⟩ := List.find?_eq_some_iff_append.mp hfind
    obtain rfl : entry.1 = name := by simpa using hname
    refine ⟨earlier.reverse, later.reverse, ?_, ?_⟩
    · rw [← List.reverse_reverse entries, hentries]
      simp
    · intro other hmem
      simpa using hlater other (List.mem_reverse.mp hmem)
  · intro h
    obtain ⟨earlier, later, rfl, hlater⟩ := h
    refine Option.map_eq_some_iff.mpr ⟨(name, value), ?_, rfl⟩
    refine List.find?_eq_some_iff_append.mpr ⟨by simp, later.reverse, earlier.reverse, ?_, ?_⟩
    · simp
    · intro other hmem
      simpa using hlater other (List.mem_reverse.mp hmem)

/-- A name has a value if there is an entry of it. -/
theorem valueOf?_ne_none {entries : List (String × α)} {entry : String × α} (h : entry ∈ entries) :
    valueOf? entries entry.1 ≠ none := by
  rw [valueOf?, Ne, Option.map_eq_none_iff, List.find?_eq_none]
  intro hnone
  exact hnone entry (List.mem_reverse.mpr h) (by simp)

/-! ## The answer -/

/-- What a table with the given entries has to answer for a text. -/
def Answers (entries : List (String × α)) (text : List Char) : Option (Nat × α) → Prop
  | none => ∀ entry ∈ entries, ¬ entry.1.toList <+: text
  | some (length, value) =>
    ∃ (name : String) (rest : List Char), text = name.toList ++ rest ∧
      name.utf8ByteSize = length ∧ LastEntry entries name value ∧
      ∀ entry ∈ entries, entry.1.toList <+: text → entry.1.utf8ByteSize ≤ length

theorem LastEntry.mem {entries : List (String × α)} {name : String} {value : α}
    (h : LastEntry entries name value) : (name, value) ∈ entries := by
  obtain ⟨earlier, later, rfl, -⟩ := h
  simp

/-- What is last among the entries of a name is last among those that are kept. -/
theorem LastEntry.filter {keep : String × α → Bool} {entries : List (String × α)} {name : String}
    {value : α} (h : LastEntry entries name value) (hkeep : keep (name, value)) :
    LastEntry (entries.filter keep) name value := by
  obtain ⟨earlier, later, rfl, hlater⟩ := h
  refine ⟨earlier.filter keep, later.filter keep, ?_, ?_⟩
  · rw [List.filter_append, List.filter_cons_of_pos hkeep]
  · intro entry hmem
    exact hlater entry (List.mem_filter.mp hmem).1

/-- There is one answer for a text at most. -/
theorem Answers.unique {entries : List (String × α)} {text : List Char}
    {answer other : Option (Nat × α)} (h : Answers entries text answer)
    (hother : Answers entries text other) : answer = other := by
  have hnone : ∀ {length : Nat} {value : α}, Answers entries text none →
      ¬ Answers entries text (some (length, value)) := by
    intro length value hnone hsome
    obtain ⟨name, rest, rfl, -, hlast, -⟩ := hsome
    exact hnone _ hlast.mem (List.prefix_append _ _)
  cases answer with
  | none =>
    cases other with
    | none => rfl
    | some found => exact absurd hother (hnone h)
  | some found =>
    cases other with
    | none => exact absurd h (hnone hother)
    | some second =>
      obtain ⟨name, rest, rfl, hlength, hlast, hlongest⟩ := h
      obtain ⟨name', rest', htext, hlength', hlast', hlongest'⟩ := hother
      have hle := hlongest _ hlast'.mem ⟨rest', htext.symm⟩
      have hge := hlongest' _ hlast.mem (List.prefix_append _ _)
      have hlengths : found.1 = second.1 := by
        rw [← hlength, ← hlength'] at *
        exact Nat.le_antisymm hge hle
      -- Both names are what stands in front of the same place.
      have hsplit : splitAt? found.1 (name.toList ++ rest) = some (name.toList, rest) :=
        splitAt?_eq_some_iff.mpr ⟨rfl, (byteLength_toList name).trans hlength⟩
      have hsplit' : splitAt? found.1 (name.toList ++ rest) = some (name'.toList, rest') :=
        splitAt?_eq_some_iff.mpr
          ⟨htext, (byteLength_toList name').trans (hlength'.trans hlengths.symm)⟩
      rw [hsplit] at hsplit'
      have hname : name = name' :=
        String.toList_inj.mp (Prod.mk.inj (Option.some.inj hsplit')).1
      rw [← valueOf?_eq_some_iff] at hlast hlast'
      rw [hname, hlast'] at hlast
      rw [Prod.ext hlengths (Option.some.inj hlast).symm]

/-! ## Tables -/

/-- What a table has found is the answer, if no longer name fits. -/
theorem answers_of_find? {entries : List (String × α)} {text : List Char} {name : String}
    {value : α} (hbegins : name.toList <+: text) (hvalue : valueOf? entries name = some value)
    (hlongest : ∀ other : String, other.toList <+: text → valueOf? entries other ≠ none →
      other.utf8ByteSize ≤ name.utf8ByteSize) :
    Answers entries text (some (name.utf8ByteSize, value)) := by
  obtain ⟨rest, hrest⟩ := hbegins
  refine ⟨name, rest, hrest.symm, rfl, valueOf?_eq_some_iff.mp hvalue, ?_⟩
  intro entry hmem hfits
  exact hlongest entry.1 hfits (valueOf?_ne_none hmem)

theorem answers_none_of_find? {entries : List (String × α)} {text : List Char}
    (h : ∀ name : String, name.toList <+: text → valueOf? entries name = none) :
    Answers entries text none := by
  intro entry hmem hfits
  exact valueOf?_ne_none hmem (h entry.1 hfits)

/-! ## One length after the other -/

/-- One more number is the first that is tried. -/
theorem findSome?_reverse_range_succ {β : Type} (f : Nat → Option β) (n : Nat) :
    (List.range (n + 1)).reverse.findSome? f = (f n).or ((List.range n).reverse.findSome? f) := by
  rw [List.range_succ, List.reverse_concat, List.findSome?_cons]
  cases f n <;> rfl

/-- Numbers from `n` on make no difference if none of them has a result. -/
theorem findSome?_reverse_range_add {β : Type} {f : Nat → Option β} {n : Nat}
    (h : ∀ i, n ≤ i → f i = none) (count : Nat) :
    (List.range (n + count)).reverse.findSome? f = (List.range n).reverse.findSome? f := by
  induction count with
  | zero => rfl
  | succ count ih =>
    rw [← Nat.add_assoc, findSome?_reverse_range_succ, h _ (Nat.le_add_right n count),
      Option.none_or, ih]

/-- Numbers tried from the greatest on: either none of them has a result, or the greatest that has
one. -/
theorem findSome?_reverse_range {β : Type} (f : Nat → Option β) (n : Nat) :
    ((List.range n).reverse.findSome? f = none ∧ ∀ i < n, f i = none) ∨
      ∃ i < n, f i ≠ none ∧ (List.range n).reverse.findSome? f = f i ∧
        ∀ j < n, f j ≠ none → j ≤ i := by
  induction n with
  | zero => exact .inl ⟨rfl, by simp⟩
  | succ n ih =>
    rw [findSome?_reverse_range_succ]
    cases hn : f n with
    | some b =>
      refine .inr ⟨n, by omega, by simp [hn], hn.symm, ?_⟩
      intro j hj _
      omega
    | none =>
      have hlast : ∀ j < n + 1, f j ≠ none → j < n := by
        intro j hj hresult
        have hne : j ≠ n := by
          rintro rfl
          exact hresult hn
        omega
      rcases ih with ⟨hnone, hall⟩ | ⟨i, hi, hsome, hresult, hgreatest⟩
      · refine .inl ⟨hnone, ?_⟩
        intro j hj
        by_contra hresult
        exact hresult (hall j (hlast j hj hresult))
      · refine .inr ⟨i, by omega, hsome, hresult, ?_⟩
        intro j hj hj'
        exact hgreatest j (hlast j hj hj') hj'

/-- A table that tries all lengths below `n` from the greatest on gives the answer, if under a
length it finds the value of the name that the text begins with, and misses no name. -/
theorem answers_findSome? {entries : List (String × α)} {text : List Char}
    {f : Nat → Option (Nat × α)} {n : Nat}
    (hfound : ∀ length < n, ∀ answer, f length = some answer →
      ∃ (name : String) (value : α), name.toList <+: text ∧ name.utf8ByteSize = length ∧
        valueOf? entries name = some value ∧ answer = (length, value))
    (htried : ∀ name : String, name.toList <+: text → valueOf? entries name ≠ none →
      name.utf8ByteSize < n ∧ f name.utf8ByteSize ≠ none) :
    Answers entries text ((List.range n).reverse.findSome? f) := by
  rcases findSome?_reverse_range f n with ⟨hnone, hall⟩ | ⟨length, hlt, hsome, hresult, hgreatest⟩
  · rw [hnone]
    apply answers_none_of_find?
    intro name hbegins
    by_contra hvalue
    obtain ⟨hlt, hne⟩ := htried name hbegins hvalue
    exact hne (hall _ hlt)
  · obtain ⟨answer, hanswer⟩ := Option.ne_none_iff_exists'.mp hsome
    obtain ⟨name, value, hbegins, rfl, hvalue, rfl⟩ := hfound length hlt answer hanswer
    rw [hresult, hanswer]
    apply answers_of_find? hbegins hvalue
    intro other hother hne
    obtain ⟨hlt, hfits⟩ := htried other hother hne
    exact hgreatest _ hlt hfits

/-! ## Lawful tables -/

/-- The kinds of tables that give the answer. -/
class Lawful (M : Type → Type) [NameTable M] : Prop where
  answers_longest? {α : Type} (entries : List (String × α)) (text : List Char) :
    Answers entries text (longest? (ofEntries entries : M α) text)

/-- A lawful table answers what it has to, and nothing else. -/
theorem longest?_eq_iff {M : Type → Type} [NameTable M] [Lawful M]
    (entries : List (String × α)) (text : List Char) (answer : Option (Nat × α)) :
    longest? (ofEntries entries : M α) text = answer ↔ Answers entries text answer := by
  have hanswers : Answers entries text (longest? (ofEntries entries : M α) text) :=
    Lawful.answers_longest? entries text
  constructor
  · intro h
    rw [← h]
    exact hanswers
  · intro h
    exact hanswers.unique h

end Calculator.NameTable

import Calculator.NameTable.Bucketed
import Calculator.NameTable.Sorted
import Calculator.Proofs.NameTable.Lookup

/-!
# All kinds of tables answer alike

Sorted entries and buckets are lawful tables, as those with a trie are.

* Sorted entries: `find?_mergeSort` says that a stable sort does not change which of the elements
  that tie comes first, and `find?_dropRepeated` that nothing is lost with the repeated names.
* Buckets: `Bucketed.find?_ofEntries` is the value in the bucket of a name's length, and
  `Bucketed.ofLength?_eq_some_iff` says what is found under a length.

`longest?_iff_answers` puts the three kinds side by side, the third one with any lawful trie.
-/

namespace Calculator.NameTable

open Text (byteLength byteLength_append byteLength_toList splitAt? splitAt?_eq_some_iff)

variable {α : Type}

/-! ## Sorted entries -/

/-- A stable sort leaves the first of the elements that satisfy `p` the first of them, if all of
these tie. -/
theorem find?_mergeSort {β : Type} {le : β → β → Bool}
    (htrans : ∀ a b c, le a b → le b c → le a c) (htotal : ∀ a b, le a b || le b a)
    {p : β → Bool} (htie : ∀ a b, p a → p b → le a b) (l : List β) :
    (l.mergeSort le).find? p = l.find? p := by
  have hpairwise : (l.filter p).Pairwise fun a b => le a b = true := by
    rw [List.pairwise_filter]
    exact List.pairwise_of_forall fun a b ha hb => htie a b ha hb
  have hsublist : ((l.filter p).filter p).Sublist ((l.mergeSort le).filter p) :=
    (List.sublist_mergeSort htrans htotal hpairwise List.filter_sublist).filter p
  rw [List.filter_filter] at hsublist
  have hlength : (l.filter p).length = ((l.mergeSort le).filter p).length :=
    ((List.mergeSort_perm l le).filter p).length_eq.symm
  have hfilter : l.filter p = (l.mergeSort le).filter p :=
    List.Sublist.eq_of_length (by simpa using hsublist) hlength
  rw [← List.head?_filter, ← List.head?_filter, hfilter]

namespace Sorted

theorem inOrder_trans (a b c : String × α) (hab : inOrder a b) (hbc : inOrder b c) :
    inOrder a c := by
  simp only [inOrder, Bool.or_eq_true, Bool.and_eq_true, decide_eq_true_eq] at *
  rcases hab with hab | ⟨hab, hle⟩
  · left
    omega
  · rcases hbc with hbc | ⟨hbc, hle'⟩
    · left
      omega
    · exact .inr ⟨hbc.trans hab, String.le_trans hle hle'⟩

theorem inOrder_total (a b : String × α) : inOrder a b || inOrder b a := by
  simp only [inOrder, Bool.or_eq_true, Bool.and_eq_true, decide_eq_true_eq]
  rcases Nat.lt_trichotomy b.1.utf8ByteSize a.1.utf8ByteSize with hlt | heq | hgt
  · exact .inl (.inl hlt)
  · rcases String.le_total a.1 b.1 with hle | hle
    · exact .inl (.inr ⟨heq, hle⟩)
    · exact .inr (.inr ⟨heq.symm, hle⟩)
  · exact .inr (.inl hgt)

theorem utf8ByteSize_le_of_inOrder {a b : String × α} (h : inOrder a b) :
    b.1.utf8ByteSize ≤ a.1.utf8ByteSize := by
  simp only [inOrder, Bool.or_eq_true, Bool.and_eq_true, decide_eq_true_eq] at h
  omega

/-- The first entry with a name of some kind stays, when those that repeat a name go. -/
theorem find?_dropRepeated {p : String → Bool} {last : Option String}
    (hlast : ∀ name ∈ last, p name = false) (entries : List (String × α)) :
    (dropRepeated last entries).find? (fun entry => p entry.1) =
      entries.find? fun entry => p entry.1 := by
  induction entries generalizing last with
  | nil => rfl
  | cons entry entries ih =>
    rw [dropRepeated]
    split
    · rename_i hrepeated
      have hskip : p entry.1 = false := hlast _ hrepeated
      rw [ih hlast, List.find?_cons_of_neg (by simp [hskip])]
    · rw [List.find?_cons, List.find?_cons]
      cases hfits : p entry.1 with
      | true => rfl
      | false =>
        apply ih
        rintro name ⟨⟩
        exact hfits

/-- In front of an entry that fits, there is none of its name that would not fit, too. -/
theorem valueOf?_of_find? {entries : List (String × α)} {entry : String × α} {p : String → Bool}
    (h : (entries.reverse.mergeSort inOrder).find? (fun entry => p entry.1) = some entry) :
    valueOf? entries entry.1 = some entry.2 := by
  obtain ⟨hfits, before, behind, hsorted, hbefore⟩ := List.find?_eq_some_iff_append.mp h
  have hfind : (entries.reverse.mergeSort inOrder).find?
      (fun other => decide (other.1 = entry.1)) = some entry := by
    refine List.find?_eq_some_iff_append.mpr ⟨by simp, before, behind, hsorted, ?_⟩
    intro other hmem
    have hother : p other.1 = false := by simpa using hbefore other hmem
    have hname : other.1 ≠ entry.1 := by
      intro hname
      rw [hname, hfits] at hother
      cases hother
    simpa using hname
  have htie : ∀ a b : String × α, decide (a.1 = entry.1) → decide (b.1 = entry.1) →
      inOrder a b := by
    intro a b ha hb
    have hnames : a.1 = b.1 := (of_decide_eq_true ha).trans (of_decide_eq_true hb).symm
    simp [inOrder, hnames]
  rw [find?_mergeSort inOrder_trans inOrder_total htie] at hfind
  rw [valueOf?, hfind]
  rfl

/-- What is found first is at least as long as everything else that fits. -/
theorem utf8ByteSize_le_of_find? {entries : List (String × α)} {entry other : String × α}
    {p : String → Bool}
    (h : (entries.reverse.mergeSort inOrder).find? (fun entry => p entry.1) = some entry)
    (hmem : other ∈ entries) (hfits : p other.1) :
    other.1.utf8ByteSize ≤ entry.1.utf8ByteSize := by
  obtain ⟨-, before, behind, hsorted, hbefore⟩ := List.find?_eq_some_iff_append.mp h
  have hpairwise := List.pairwise_mergeSort inOrder_trans inOrder_total entries.reverse
  have hother : other ∈ entries.reverse.mergeSort inOrder :=
    List.mem_mergeSort.mpr (List.mem_reverse.mpr hmem)
  rw [hsorted] at hpairwise hother
  rcases List.mem_append.mp hother with hfront | hbehind
  · have hnot := hbefore other hfront
    rw [hfits] at hnot
    cases hnot
  · rcases List.mem_cons.mp hbehind with rfl | hbehind
    · exact Nat.le_refl _
    · have hentries := (List.pairwise_append.mp hpairwise).2.1
      exact utf8ByteSize_le_of_inOrder (List.rel_of_pairwise_cons hentries hbehind)

/-- The first name that fits is the longest one. -/
instance : Lawful Sorted where
  answers_longest? entries text := by
    show Answers entries text ((ofEntries entries).longest? text)
    let fits (name : String) : Bool := name.toList.isPrefixOf text
    have hfind : (dropRepeated none (entries.reverse.mergeSort inOrder)).find? _ = _ :=
      find?_dropRepeated (p := fits) (by simp) _
    rw [longest?, ofEntries, hfind]
    cases hfound : (entries.reverse.mergeSort inOrder).find? (fun entry => fits entry.1) with
    | none =>
      intro entry hmem hbegins
      rw [List.find?_eq_none] at hfound
      apply hfound entry
      · exact List.mem_mergeSort.mpr (List.mem_reverse.mpr hmem)
      · exact List.isPrefixOf_iff_prefix.mpr hbegins
    | some entry =>
      have hfits := List.find?_some hfound
      obtain ⟨rest, hrest⟩ := List.isPrefixOf_iff_prefix.mp hfits
      have hvalue : valueOf? entries entry.1 = some entry.2 := valueOf?_of_find? (p := fits) hfound
      refine ⟨entry.1, rest, hrest.symm, rfl, valueOf?_eq_some_iff.mp hvalue, ?_⟩
      intro other hmem hbegins
      apply utf8ByteSize_le_of_find? (p := fits) hfound hmem
      exact List.isPrefixOf_iff_prefix.mpr hbegins

end Sorted

/-! ## Buckets -/

namespace Bucketed

/-- The value of a name in the bucket of its length. -/
def find? (table : Bucketed α) (name : String) : Option α :=
  table.buckets[name.utf8ByteSize]?.bind (·[name]?)

/-- An insertion changes the value of its own name only. -/
theorem find?_insert (table : Bucketed α) (name other : String) (value : α) :
    (table.insert name value).find? other =
      if other = name then some value else table.find? other := by
  have hbucket : (table.insert name value).buckets[other.utf8ByteSize]? =
      if name.utf8ByteSize = other.utf8ByteSize then
        some ((table.buckets[other.utf8ByteSize]?.getD ∅).insert name value)
      else if other.utf8ByteSize < table.buckets.size then table.buckets[other.utf8ByteSize]?
      else if other.utf8ByteSize < name.utf8ByteSize + 1 then some ∅
      else none := by
    simp only [insert, Array.getElem?_modify, Array.getElem?_append, Array.getElem?_replicate]
    grind
  rw [find?, hbucket]
  by_cases hname : other = name
  · subst hname
    simp
  · rw [if_neg hname, find?]
    have hkey : ∀ bucket : Std.HashMap String α,
        (bucket.insert name value)[other]? = bucket[other]? := by
      intro bucket
      rw [Std.HashMap.getElem?_insert, if_neg (by simpa using Ne.symm hname)]
    split
    · rw [Option.bind_some, hkey]
      cases table.buckets[other.utf8ByteSize]? <;> simp
    · split
      · rfl
      · rename_i hsize
        rw [Array.getElem?_eq_none (by omega)]
        split <;> simp

theorem find?_ofEntries (entries : List (String × α)) (name : String) :
    (ofEntries entries).find? name = valueOf? entries name := by
  induction entries using List.reverseRecOn with
  | nil => simp [ofEntries, find?]
  | append_singleton entries entry ih =>
    have hfold : ofEntries (entries ++ [entry]) = (ofEntries entries).insert entry.1 entry.2 := by
      simp [ofEntries, List.foldl_append]
    rw [hfold, find?_insert, valueOf?_concat, ih]

/-- What is found under a length is a name of this length that the text begins with. -/
theorem ofLength?_eq_some_iff {table : Bucketed α} {text : List Char} {length : Nat}
    {answer : Nat × α} :
    table.ofLength? text length = some answer ↔
      ∃ (name : String) (value : α), name.toList <+: text ∧ name.utf8ByteSize = length ∧
        table.find? name = some value ∧ answer = (length, value) := by
  simp only [ofLength?, Option.bind_eq_bind, Option.bind_eq_some_iff, Option.pure_def,
    Option.some.injEq, Prod.exists]
  constructor
  · intro h
    obtain ⟨name, rest, hsplit, bucket, hbucket, value, hvalue, rfl⟩ := h
    obtain ⟨rfl, rfl⟩ := splitAt?_eq_some_iff.mp hsplit
    have hsize : (String.ofList name).utf8ByteSize = byteLength name := by
      rw [← byteLength_toList, String.toList_ofList]
    refine ⟨String.ofList name, value, ?_, hsize, ?_, rfl⟩
    · rw [String.toList_ofList]
      exact List.prefix_append _ _
    · rw [find?, hsize, hbucket, Option.bind_some, hvalue]
  · intro h
    obtain ⟨name, value, ⟨rest, rfl⟩, rfl, hfind, rfl⟩ := h
    obtain ⟨bucket, hbucket, hvalue⟩ := Option.bind_eq_some_iff.mp hfind
    refine ⟨name.toList, rest, ?_, bucket, hbucket, value, ?_, rfl⟩
    · exact splitAt?_eq_some_iff.mpr ⟨rfl, byteLength_toList name⟩
    · rw [String.ofList_toList]
      exact hvalue

/-- A name that the text begins with is tried. -/
theorem lt_lengths {table : Bucketed α} {text : List Char} {name : String} {value : α}
    (hbegins : name.toList <+: text) (hfind : table.find? name = some value) :
    name.utf8ByteSize < min table.buckets.size (byteLength text + 1) := by
  obtain ⟨rest, rfl⟩ := hbegins
  obtain ⟨bucket, hbucket, -⟩ := Option.bind_eq_some_iff.mp hfind
  have hsize : name.utf8ByteSize < table.buckets.size := by
    by_contra hge
    rw [Array.getElem?_eq_none (by omega)] at hbucket
    cases hbucket
  rw [byteLength_append, byteLength_toList]
  omega

/-- What is found first is found under the greatest length. -/
instance : Lawful Bucketed where
  answers_longest? entries text := by
    show Answers entries text ((ofEntries entries).longest? text)
    rw [longest?]
    apply answers_findSome?
    · intro length _ answer hanswer
      obtain ⟨name, value, hbegins, hsize, hfind, rfl⟩ := ofLength?_eq_some_iff.mp hanswer
      rw [find?_ofEntries] at hfind
      exact ⟨name, value, hbegins, hsize, hfind, rfl⟩
    · intro name hbegins hvalue
      obtain ⟨value, hvalue⟩ := Option.ne_none_iff_exists'.mp hvalue
      rw [← find?_ofEntries] at hvalue
      refine ⟨lt_lengths hbegins hvalue, ?_⟩
      rw [ofLength?_eq_some_iff.mpr ⟨name, value, hbegins, rfl, hvalue, rfl⟩]
      simp

end Bucketed

/-! ## All kinds -/

/-- A table of any kind answers with the longest name that the text begins with and the value of
its last entry, and with nothing exactly if the text begins with none of the names.  So all kinds
answer alike, and so do those with different tries. -/
theorem longest?_iff_answers {T : Type → Type} [ByteTrie T] [LawfulByteTrie T]
    (entries : List (String × α)) (text : List Char) :
    (∀ answer, (Sorted.ofEntries entries).longest? text = answer ↔
        Answers entries text answer) ∧
      (∀ answer, (Bucketed.ofEntries entries).longest? text = answer ↔
        Answers entries text answer) ∧
      (∀ answer, (Walked.ofEntries entries : Walked T α).longest? text = answer ↔
        Answers entries text answer) ∧
      (Sorted.ofEntries entries).longest? text = (Bucketed.ofEntries entries).longest? text ∧
      (Bucketed.ofEntries entries).longest? text =
        (Walked.ofEntries entries : Walked T α).longest? text := by
  have hsorted : ∀ answer, (Sorted.ofEntries entries).longest? text = answer ↔
      Answers entries text answer :=
    longest?_eq_iff (M := Sorted) entries text
  have hbucketed : ∀ answer, (Bucketed.ofEntries entries).longest? text = answer ↔
      Answers entries text answer :=
    longest?_eq_iff (M := Bucketed) entries text
  have hwalked : ∀ answer, (Walked.ofEntries entries : Walked T α).longest? text = answer ↔
      Answers entries text answer :=
    longest?_eq_iff (M := Walked T) entries text
  refine ⟨hsorted, hbucketed, hwalked, ?_, ?_⟩
  · exact (hsorted _).mpr ((hbucketed _).mp rfl)
  · exact (hbucketed _).mpr ((hwalked _).mp rfl)

/-- The last of two entries of a name counts, a shorter name and a longer one stand beside it, and
the text leaves the longer one in the middle of a character. -/
theorem longest?_iff_answers_midway :
    let entries := [("", 0), ("π", 1), ("πε", 2), ("π", 3)]
    let text := "πδ".toList
    LawfulByteTrie Listed ∧
      (Walked.ofEntries entries : Walked Listed Nat).longest? text = some (2, 3) ∧
      Answers entries text (some (2, 3)) ∧
      (Sorted.ofEntries entries).longest? text = some (2, 3) ∧
      (Bucketed.ofEntries entries).longest? text = some (2, 3) := by
  intro entries text
  obtain ⟨hsorted, hbucketed, hwalked, -, -⟩ := longest?_iff_answers (T := Listed) entries text
  have hfound : (Walked.ofEntries entries : Walked Listed Nat).longest? text = some (2, 3) := by
    decide
  have hanswers := (hwalked _).mp hfound
  exact ⟨inferInstance, hfound, hanswers, (hsorted _).mpr hanswers, (hbucketed _).mpr hanswers⟩

end Calculator.NameTable

/-!
# Lengths in bytes

A text is a list of characters here, and its length is counted in the bytes of
its UTF-8 form where a length is reported.  Not every count of bytes is a place
in a text: one that falls inside a character is none.

* `byteLength` and `bytes` measure and encode a text.
* `splitAt?` cuts a text after a number of bytes, if there is a place.
-/

namespace Calculator.Text

/-- The number of bytes of a text. -/
def byteLength : List Char → Nat
  | [] => 0
  | c :: cs => c.utf8Size + byteLength cs

/-- The bytes of a text. -/
def bytes (cs : List Char) : List UInt8 := cs.flatMap String.utf8EncodeChar

/-- The first `n` bytes of a text and the rest of it, unless they end inside a
character or the text has fewer. -/
def splitAt? : Nat → List Char → Option (List Char × List Char)
  | 0, cs => some ([], cs)
  | _ + 1, [] => none
  | n + 1, c :: cs =>
    if c.utf8Size ≤ n + 1 then
      (splitAt? (n + 1 - c.utf8Size) cs).map fun (taken, rest) => (c :: taken, rest)
    else none

@[simp] theorem byteLength_nil : byteLength [] = 0 := rfl

@[simp] theorem byteLength_cons (c : Char) (cs : List Char) :
    byteLength (c :: cs) = c.utf8Size + byteLength cs := rfl

@[simp] theorem byteLength_append (as bs : List Char) :
    byteLength (as ++ bs) = byteLength as + byteLength bs := by
  induction as with
  | nil => simp
  | cons c as ih => simp [ih, Nat.add_assoc]

theorem bytes_append (as bs : List Char) : bytes (as ++ bs) = bytes as ++ bytes bs :=
  List.flatMap_append

/-- A text has as many bytes as its length says. -/
@[simp] theorem length_bytes (cs : List Char) : (bytes cs).length = byteLength cs := by
  induction cs with
  | nil => rfl
  | cons c cs ih => simpa [bytes] using ih

/-- The bytes of a text determine it. -/
theorem bytes_injective {as bs : List Char} (h : bytes as = bytes bs) : as = bs := by
  have hencode : as.utf8Encode = bs.utf8Encode := by
    simpa [List.utf8Encode, bytes] using congrArg List.toByteArray h
  have hdecode := congrArg ByteArray.utf8Decode? hencode
  simpa [List.utf8Decode?_utf8Encode] using hdecode

/-- The length of a string in bytes is that of its text. -/
theorem byteLength_toList (s : String) : byteLength s.toList = s.utf8ByteSize := by
  have hbytes : s.toByteArray = (bytes s.toList).toByteArray := by
    rw [← String.utf8Encode_toList]
    rfl
  rw [String.utf8ByteSize, hbytes, List.size_toByteArray, length_bytes]

/-- The first character of a text is known by its bytes, whatever follows them. -/
theorem head_eq_of_bytes {c d : Char} {cs ds : List UInt8}
    (h : String.utf8EncodeChar c ++ cs = String.utf8EncodeChar d ++ ds) : c = d := by
  have hbytes := congrArg (fun row => (List.toByteArray row).utf8DecodeChar? 0) h
  simp only [List.toByteArray_append, ByteArray.utf8DecodeChar?_utf8EncodeChar_append] at hbytes
  exact Option.some.inj hbytes

/-- A text begins with another one if its bytes begin with those of the other one: no character
begins in the middle of another. -/
theorem prefix_of_bytes {as bs : List Char} (h : bytes as <+: bytes bs) : as <+: bs := by
  induction as generalizing bs with
  | nil => exact List.nil_prefix
  | cons c as ih =>
    obtain ⟨rest, hrest⟩ := h
    cases bs with
    | nil => simp [bytes, String.utf8EncodeChar_ne_nil] at hrest
    | cons d bs =>
      simp only [bytes, List.flatMap_cons, List.append_assoc] at hrest
      obtain rfl : c = d := head_eq_of_bytes hrest
      have htail : bytes as <+: bytes bs := ⟨rest, List.append_cancel_left hrest⟩
      exact List.cons_prefix_cons.mpr ⟨rfl, ih htail⟩

/-- A text without bytes has no characters. -/
theorem byteLength_eq_zero_iff {cs : List Char} : byteLength cs = 0 ↔ cs = [] := by
  cases cs with
  | nil => simp
  | cons c cs =>
    have := c.utf8Size_pos
    simp only [byteLength_cons, reduceCtorEq, iff_false]
    omega

/-- Cutting succeeds exactly at the places of the text, and loses nothing. -/
theorem splitAt?_eq_some_iff {n : Nat} {cs taken rest : List Char} :
    splitAt? n cs = some (taken, rest) ↔ cs = taken ++ rest ∧ byteLength taken = n := by
  fun_induction splitAt? n cs generalizing taken rest with
  | case1 cs =>
    simp only [Option.some.injEq, Prod.mk.injEq, byteLength_eq_zero_iff]
    constructor
    · rintro ⟨rfl, rfl⟩
      exact ⟨rfl, rfl⟩
    · rintro ⟨rfl, rfl⟩
      exact ⟨rfl, rfl⟩
  | case2 n =>
    simp only [reduceCtorEq, List.nil_eq, List.append_eq_nil_iff, false_iff, not_and, and_imp]
    rintro rfl -
    simp
  | case3 n c cs hle ih =>
    cases taken with
    | nil => simp
    | cons d taken =>
      simp only [Option.map_eq_some_iff, Prod.exists, ih, Prod.mk.injEq, List.cons.injEq,
        List.cons_append, byteLength_cons]
      constructor
      · rintro ⟨_, _, ⟨rfl, hn⟩, ⟨rfl, rfl⟩, rfl⟩
        exact ⟨⟨rfl, rfl⟩, by omega⟩
      · rintro ⟨⟨rfl, rfl⟩, hn⟩
        exact ⟨taken, rest, ⟨rfl, by omega⟩, ⟨rfl, rfl⟩, rfl⟩
  | case4 n c cs hle =>
    cases taken with
    | nil => simp
    | cons d taken =>
      simp only [reduceCtorEq, List.cons_append, List.cons.injEq, byteLength_cons, false_iff,
        not_and, and_imp]
      rintro rfl -
      omega

end Calculator.Text

import Calculator.Proofs.ReversePolish.Numbers

/-!
# What joining digits means

Joining can be said block by block.  A `Block` is a number, which is a whole row of digits and
points with the sign directly in front, or a sign without a number, a space, a function whose
argument has a space in it, or any other token.

* `Divides tokens blocks` cuts a list into blocks, the arguments of its functions as well.
  There is one way to do so, `divide` (`divides_iff`).
* `faultsIn` are the texts in a division that are no numbers, in the order they are come across,
  and `joinedIn` is the list with a literal for each number.  `resultOf` is the first of the
  faults, or the joined list if there are none.
* `joinFrom_of_divides`: joining finds the result of the division.  No text is left over from one
  block to the next, because a number ends where its row does.

`joinDigits_of_divides` is about whole lists, and says also that nothing is left to join then.
-/

namespace Calculator.ReversePolish

/-! ## Blocks -/

/-- A piece of a list that joining takes as a whole. -/
inductive Block where
  /-- A row of digits and points, perhaps with a sign directly in front. -/
  | number (negative : Bool) (parts : List Token)
  /-- A sign with no digit or point directly behind. -/
  | sign
  | space
  /-- A function with a space in its argument, which is divided as well. -/
  | fn (f : Fn) (arg : List Block)
  /-- Any other token. -/
  | other (token : Token)

/-- The ways to divide a list into blocks.  The row of a number ends only where no other digit or
point comes next. -/
inductive Divides : List Token → List Block → Prop where
  | nil : Divides [] []
  | number (negative : Bool) {parts : List Token} (hne : parts ≠ [])
      (hparts : ∀ token ∈ parts, token.isNumberPart) {tokens : List Token}
      (hend : tokens.head?.any Token.isNumberPart = false) {blocks : List Block}
      (tail : Divides tokens blocks) :
      Divides (Token.sign negative ++ parts ++ tokens) (.number negative parts :: blocks)
  | sign {tokens : List Token} (hend : tokens.head?.any Token.isNumberPart = false)
      {blocks : List Block} (tail : Divides tokens blocks) :
      Divides (.negative :: tokens) (.sign :: blocks)
  | space {tokens : List Token} {blocks : List Block} (tail : Divides tokens blocks) :
      Divides (.space :: tokens) (.space :: blocks)
  | fn (f : Fn) {arg : List Token} {inner : List Block} (hspace : isSpaceFree arg = false)
      (harg : Divides arg inner) {tokens : List Token} {blocks : List Block}
      (tail : Divides tokens blocks) : Divides (.fn f arg :: tokens) (.fn f inner :: blocks)
  | other {token : Token} (htoken : isOfNumber token = false) (hfree : isSpaceFreeToken token)
      {tokens : List Token} {blocks : List Block} (tail : Divides tokens blocks) :
      Divides (token :: tokens) (.other token :: blocks)

/-- What a number is written as. -/
def numberText (negative : Bool) (parts : List Token) : String :=
  String.join ((Token.sign negative ++ parts).map Token.spelling)

mutual

/-- The texts in a block that stand in the place of numbers and are none. -/
def Block.faults : Block → List String
  | .number negative parts =>
    if (Numeral.ofText? (numberText negative parts)).isSome then []
    else [numberText negative parts]
  | .sign => ["-"]
  | .fn _ arg => faultsIn arg
  | .space | .other _ => []

/-- The texts in a list of blocks that stand in the place of numbers and are none, from left to
right, those in an argument in its place. -/
def faultsIn : List Block → List String
  | [] => []
  | block :: blocks => block.faults ++ faultsIn blocks

end

mutual

/-- A block with a literal in the place of each number, and without its spaces. -/
def Block.joined : Block → List Token
  | .number negative parts => (Numeral.ofText? (numberText negative parts)).toList.map .literal
  | .sign | .space => []
  | .fn f arg => [.fn f (joinedIn arg)]
  | .other token => [token]

/-- A list of blocks with a literal in the place of each number, and without its spaces. -/
def joinedIn : List Block → List Token
  | [] => []
  | block :: blocks => block.joined ++ joinedIn blocks

end

/-- The first fault, or the joined list if there is none. -/
def resultOf (blocks : List Block) : Except ReadError (List Token) :=
  match faultsIn blocks with
  | [] => .ok (joinedIn blocks)
  | text :: _ => .error (.badNumeral text)

/-! ## The only division -/

/-- Puts a block in front of others.  A digit, a point or a sign goes to the number it stands
in front of. -/
def Block.before : Block → List Block → List Block
  | .number negative parts, .number false more :: blocks =>
    .number negative (parts ++ more) :: blocks
  | .sign, .number false parts :: blocks => .number true parts :: blocks
  | block, blocks => block :: blocks

mutual

/-- The block of a token that has nothing behind it. -/
def divideToken : Token → Block
  | .digit d => .number false [.digit d]
  | .point => .number false [.point]
  | .negative => .sign
  | .space => .space
  | .fn f arg => if isSpaceFree arg then .other (.fn f arg) else .fn f (divide arg)
  | token => .other token

/-- The division of a list. -/
def divide : List Token → List Block
  | [] => []
  | token :: tokens => (divideToken token).before (divide tokens)

end

/-- Whether the first of the blocks is a number without a sign. -/
def startsRow : List Block → Bool
  | .number false _ :: _ => true
  | _ => false

theorem exists_of_startsRow {blocks : List Block} (h : startsRow blocks) :
    ∃ parts more, blocks = .number false parts :: more := by
  unfold startsRow at h
  split at h
  · exact ⟨_, _, rfl⟩
  · cases h

theorem Block.before_of_not_startsRow (block : Block) {blocks : List Block}
    (h : startsRow blocks = false) : block.before blocks = block :: blocks := by
  unfold before
  split
  · cases h
  · cases h
  · rfl

/-- The first block is a number without a sign exactly if the list begins with a digit or a
point. -/
theorem Divides.startsRow_eq {tokens : List Token} {blocks : List Block}
    (h : Divides tokens blocks) : startsRow blocks = tokens.head?.any Token.isNumberPart := by
  cases h with
  | @number negative parts hne hparts tokens hend blocks tail =>
    cases negative with
    | true => rfl
    | false =>
      obtain ⟨first, more, rfl⟩ := List.exists_cons_of_ne_nil hne
      exact (hparts first List.mem_cons_self).symm
  | @other token htoken hfree tokens blocks tail =>
    rw [isOfNumber, Bool.or_eq_false_iff, Bool.or_eq_false_iff] at htoken
    exact htoken.1.1.symm
  | _ => rfl

/-- A digit or a point goes to the row behind it, or is a row by itself. -/
theorem Divides.before_part {token : Token} (htoken : token.isNumberPart) {tokens : List Token}
    {blocks : List Block} (h : Divides tokens blocks) :
    Divides (token :: tokens) ((Block.number false [token]).before blocks) := by
  cases hrow : startsRow blocks with
  | true =>
    obtain ⟨parts, more, rfl⟩ := exists_of_startsRow hrow
    cases h with
    | number _ hne hparts hend tail =>
      exact .number false (List.cons_ne_nil token parts)
        (List.forall_mem_cons.mpr ⟨htoken, hparts⟩) hend tail
  | false =>
    rw [Block.before_of_not_startsRow _ hrow]
    rw [h.startsRow_eq] at hrow
    exact .number false (List.cons_ne_nil token [])
      (List.forall_mem_cons.mpr ⟨htoken, List.forall_mem_nil _⟩) hrow h

/-- A sign goes to the row behind it, or stands alone. -/
theorem Divides.before_sign {tokens : List Token} {blocks : List Block}
    (h : Divides tokens blocks) : Divides (.negative :: tokens) (Block.sign.before blocks) := by
  cases hrow : startsRow blocks with
  | true =>
    obtain ⟨parts, more, rfl⟩ := exists_of_startsRow hrow
    cases h with
    | number _ hne hparts hend tail => exact .number true hne hparts hend tail
  | false =>
    rw [Block.before_of_not_startsRow _ hrow]
    rw [h.startsRow_eq] at hrow
    exact .sign hrow h

/-- A token that is a block by itself. -/
theorem divideToken_other {token : Token} (htoken : isOfNumber token = false)
    (hfree : isSpaceFreeToken token) : divideToken token = .other token := by
  cases token with
  | digit => cases htoken
  | point => cases htoken
  | negative => cases htoken
  | space => cases htoken
  | fn f arg =>
    rw [isSpaceFreeToken] at hfree
    rw [divideToken, if_pos hfree]
  | _ => simp only [divideToken]

theorem Divides.before_other {token : Token} (htoken : isOfNumber token = false)
    (hfree : isSpaceFreeToken token) {tokens : List Token} {blocks : List Block}
    (h : Divides tokens blocks) :
    Divides (token :: tokens) ((divideToken token).before blocks) := by
  rw [divideToken_other htoken hfree]
  exact .other htoken hfree h

mutual

theorem divides_before : (token : Token) → {tokens : List Token} → {blocks : List Block} →
    Divides tokens blocks → Divides (token :: tokens) ((divideToken token).before blocks)
  | .digit _, _, _, h => by
    rw [divideToken]
    exact h.before_part rfl
  | .point, _, _, h => by
    rw [divideToken]
    exact h.before_part rfl
  | .negative, _, _, h => by
    rw [divideToken]
    exact h.before_sign
  | .space, _, _, h => by
    rw [divideToken]
    exact .space h
  | .fn f arg, _, _, h => by
    cases hspace : isSpaceFree arg with
    | true => exact h.before_other rfl (by rw [isSpaceFreeToken, hspace])
    | false =>
      rw [divideToken, if_neg (by simp [hspace])]
      exact .fn f hspace (divides_divide arg) h
  | .literal _, _, _, h | .constant _, _, _, h | .var, _, _, h | .operator _, _, _, h
  | .openGroup, _, _, h | .closeGroup, _, _, h | .openCall, _, _, h | .closeCall, _, _, h =>
    h.before_other rfl rfl

/-- Every list can be divided. -/
theorem divides_divide : (tokens : List Token) → Divides tokens (divide tokens)
  | [] => by
    rw [divide]
    exact .nil
  | token :: tokens => by
    rw [divide]
    exact divides_before token (divides_divide tokens)

end

theorem divideToken_part {token : Token} (htoken : token.isNumberPart) :
    divideToken token = .number false [token] := by
  cases token with
  | digit d => rw [divideToken]
  | point => rw [divideToken]
  | _ => cases htoken

/-- A row is taken as a whole. -/
theorem divide_row {parts tokens : List Token} (hne : parts ≠ [])
    (hparts : ∀ token ∈ parts, token.isNumberPart)
    (hend : tokens.head?.any Token.isNumberPart = false) :
    divide (parts ++ tokens) = .number false parts :: divide tokens := by
  induction parts with
  | nil => exact absurd rfl hne
  | cons token parts ih =>
    obtain ⟨htoken, hparts⟩ := List.forall_mem_cons.mp hparts
    rw [List.cons_append, divide, divideToken_part htoken]
    -- The last part has no row behind it, and every other one has the rest of this row.
    cases parts with
    | nil =>
      rw [← (divides_divide tokens).startsRow_eq] at hend
      exact Block.before_of_not_startsRow _ hend
    | cons next parts =>
      rw [ih (List.cons_ne_nil next parts) hparts]
      rfl

/-- There is only one division of a list. -/
theorem divides_iff {tokens : List Token} {blocks : List Block} :
    Divides tokens blocks ↔ blocks = divide tokens := by
  constructor
  · intro h
    induction h with
    | nil => rw [divide]
    | number negative hne hparts hend _ ih =>
      have hrow := divide_row hne hparts hend
      cases negative with
      | false => rw [Token.sign, if_neg Bool.false_ne_true, List.nil_append, hrow, ih]
      | true =>
        rw [Token.sign, if_pos rfl, List.append_assoc, List.singleton_append, divide, divideToken,
          hrow, ih]
        rfl
    | sign hend _ ih =>
      rw [← (divides_divide _).startsRow_eq] at hend
      rw [divide, divideToken, Block.before_of_not_startsRow _ hend, ih]
    | space _ ih =>
      rw [divide, divideToken, ih]
      rfl
    | fn f hspace _ _ ihinner ih =>
      rw [divide, divideToken, if_neg (by simp [hspace]), ihinner, ih]
      rfl
    | other htoken hfree _ ih =>
      rw [divide, divideToken_other htoken hfree, ih]
      rfl
  · rintro rfl
    exact divides_divide tokens

/-! ## Joining a division -/

theorem resultOf_nil : resultOf [] = .ok [] := by
  rw [resultOf, faultsIn, joinedIn]

/-- The first fault is that of the first block that has one. -/
theorem resultOf_cons (block : Block) (blocks : List Block) :
    resultOf (block :: blocks) = (do
      let joined ← resultOf [block]
      let rest ← resultOf blocks
      .ok (joined ++ rest)) := by
  simp only [resultOf, faultsIn, joinedIn, List.append_nil]
  cases block.faults with
  | cons text faults => rfl
  | nil =>
    rw [List.nil_append]
    cases faultsIn blocks <;> rfl

theorem ofText?_sign : Numeral.ofText? "-" = none := by
  decide

theorem resultOf_number (negative : Bool) (parts : List Token) :
    resultOf [.number negative parts] = (do
      let number ← literal (numberText negative parts)
      .ok [number]) := by
  simp only [resultOf, faultsIn, joinedIn, Block.faults, Block.joined, List.append_nil, literal]
  cases Numeral.ofText? (numberText negative parts) <;> rfl

theorem resultOf_fn (f : Fn) (arg : List Block) :
    resultOf [.fn f arg] = (do
      let joined ← resultOf arg
      .ok [.fn f joined]) := by
  simp only [resultOf, faultsIn, joinedIn, Block.faults, Block.joined, List.append_nil]
  cases faultsIn arg <;> rfl

theorem numberText_eq (negative : Bool) (parts : List Token) :
    numberText negative parts = (if negative then "-" else "") ++
      String.ofList (parts.flatMap fun token => token.spelling.toList) := by
  have hparts : String.join (parts.map Token.spelling) =
      String.ofList (parts.flatMap fun token => token.spelling.toList) := by
    rw [← String.toList_inj, String.toList_join, String.toList_ofList, List.flatMap_map]
  rw [numberText, List.map_append, String.join_append, hparts]
  cases negative <;> rfl

theorem joinToken_of_spaceFree {token : Token} (h : isSpaceFreeToken token) :
    joinToken token = .ok token := by
  cases token with
  | fn f arg =>
    rw [isSpaceFreeToken] at h
    rw [joinToken, if_pos h]
  | _ => simp only [joinToken]

/-- Joining finds the result of the division. -/
theorem joinFrom_of_divides {tokens : List Token} {blocks : List Block}
    (h : Divides tokens blocks) : joinFrom "" tokens = resultOf blocks := by
  -- Each block is read from the empty text and leaves the empty text behind, so the induction
  -- needs no other text.
  induction h with
  | nil => rw [joinFrom, resultOf_nil]
  | number negative hne hparts hend _ ih =>
    rw [resultOf_cons, resultOf_number, ← ih, numberText_eq, bind_assoc,
      joinFrom_signed negative hne hparts hend]
    rfl
  | @sign tokens hend blocks _ ih =>
    have hsign : (Token.isNumberPart .negative || Token.isNegative .negative) = true := rfl
    have hfault : literal ("" ++ Token.spelling .negative) = .error (.badNumeral "-") := by
      rw [literal, Token.spelling, String.empty_append, ofText?_sign]
    rw [joinFrom, if_pos hsign, if_neg (by simp [hend]), hfault]
    rfl
  | space _ ih =>
    have hnone : resultOf [.space] = .ok [] := rfl
    rw [joinFrom_space, ih, resultOf_cons, hnone]
    exact (bind_pure _).symm
  | fn f hspace _ _ iharg ih =>
    rw [resultOf_cons, resultOf_fn, ← ih, ← iharg, joinFrom_cons rfl, joinToken,
      if_neg (by simp [hspace]), bind_assoc]
    cases joinFrom "" _ <;> rfl
  | @other token htoken hfree _ _ _ ih =>
    rw [resultOf_cons, ← ih, joinFrom_cons htoken, joinToken_of_spaceFree hfree]
    rfl

/-- No space is left in a joined list. -/
theorem isSpaceFree_joinedIn {tokens : List Token} {blocks : List Block}
    (h : Divides tokens blocks) : isSpaceFree (joinedIn blocks) := by
  induction h with
  | nil => rw [joinedIn, isSpaceFree]
  | number negative _ _ _ _ ih =>
    rw [joinedIn, isSpaceFree_append, ih, Block.joined]
    cases Numeral.ofText? _ <;> rfl
  | sign _ _ ih => exact ih
  | space _ ih => exact ih
  | fn f _ _ _ iharg ih =>
    rw [joinedIn, isSpaceFree_append, ih, Block.joined, isSpaceFree, isSpaceFreeToken, iharg]
    rfl
  | other _ hfree _ ih =>
    rw [joinedIn, isSpaceFree_append, ih, Block.joined, isSpaceFree, hfree]
    rfl

theorem joinDigits_of_spaceFree {tokens : List Token} (h : isSpaceFree tokens) :
    joinDigits tokens = .ok tokens := by
  rw [joinDigits, if_pos h]

theorem isSpaceFree_of_joinDigits {tokens joined : List Token}
    (h : joinDigits tokens = .ok joined) : isSpaceFree joined := by
  rw [joinDigits] at h
  split at h
  · rename_i hfree
    cases h
    exact hfree
  · have hdivides := divides_divide tokens
    rw [joinFrom_of_divides hdivides, resultOf] at h
    split at h
    · cases h
      exact isSpaceFree_joinedIn hdivides
    · cases h

/-- A list without spaces stays as it is, and joining any other one finds the result of its
division, of which there is one only: literals in the places of the numbers and no space any
more, or the first text that is no number.  Joining again changes nothing. -/
theorem joinDigits_of_divides (tokens : List Token) :
    (isSpaceFree tokens → joinDigits tokens = .ok tokens) ∧
      (∃! blocks, Divides tokens blocks) ∧
      (isSpaceFree tokens = false →
        ∀ blocks, Divides tokens blocks → joinDigits tokens = resultOf blocks) ∧
      ∀ joined, joinDigits tokens = .ok joined →
        isSpaceFree joined ∧ joinDigits joined = .ok joined := by
  refine ⟨joinDigits_of_spaceFree, ?_, ?_, ?_⟩
  · exact ⟨divide tokens, divides_divide tokens, fun _ => divides_iff.mp⟩
  · intro hspace blocks hdivides
    rw [joinDigits, if_neg (by simp [hspace]), joinFrom_of_divides hdivides]
  · intro joined hjoined
    have hfree := isSpaceFree_of_joinDigits hjoined
    exact ⟨hfree, joinDigits_of_spaceFree hfree⟩

/-- A number with its sign, and one in an argument.  The argument without a space stays as
it is. -/
theorem joinDigits_of_divides_signed :
    let tokens : List Token := [.negative, .digit 2, .point, .digit 5, .space,
      .fn .sin [.digit 3, .space], .operator .add, .fn .cos [.digit 4, .digit 5], .operator .mul]
    let blocks : List Block := [.number true [.digit 2, .point, .digit 5], .space,
      .fn .sin [.number false [.digit 3], .space], .other (.operator .add),
      .other (.fn .cos [.digit 4, .digit 5]), .other (.operator .mul)]
    (isSpaceFree tokens = false ∧ Divides tokens blocks ∧
        joinDigits tokens = .ok (joinedIn blocks)) ∧
      isSpaceFree (joinedIn blocks) ∧ joinDigits (joinedIn blocks) = .ok (joinedIn blocks) ∧
      joinDigits [.digit 4, .digit 5] = .ok [.digit 4, .digit 5] := by
  intro tokens blocks
  have hdivides : Divides tokens blocks := divides_iff.mpr rfl
  have hfaults : faultsIn blocks = [] := by decide +kernel
  obtain ⟨-, -, hspace, hagain⟩ := joinDigits_of_divides tokens
  have hjoined : joinDigits tokens = .ok (joinedIn blocks) := by
    rw [hspace rfl blocks hdivides, resultOf, hfaults]
  obtain ⟨hfree, hsame⟩ := hagain _ hjoined
  exact ⟨⟨rfl, hdivides, hjoined⟩, hfree, hsame, (joinDigits_of_divides _).1 rfl⟩

/-- The fault in an argument is come across before the sign that has no number. -/
example : joinDigits [.fn .sin [.point, .space], .negative] = .error (.badNumeral ".") := rfl

end Calculator.ReversePolish

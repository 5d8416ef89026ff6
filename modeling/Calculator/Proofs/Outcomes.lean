import Calculator.ReadError

/-!
# Outcomes of stages that can fail

What is known about the stages of a computation once its end is known to be a success.
-/

namespace Calculator.Outcomes

variable {α β : Type}

/-- Two stages succeed if the first one does and the second one does with its result. -/
theorem bind_eq_ok_iff {x : Except ReadError α} {f : α → Except ReadError β} {b : β} :
    (x >>= f) = .ok b ↔ ∃ a, x = .ok a ∧ f a = .ok b := by
  cases x with
  | error e => simp [bind, Except.bind]
  | ok a => simp [bind, Except.bind]

theorem map_eq_ok_iff {f : α → β} {x : Except ReadError α} {b : β} :
    f <$> x = .ok b ↔ ∃ a, x = .ok a ∧ f a = b := by
  cases x with
  | error e => simp [Functor.map, Except.map]
  | ok a => simp [Functor.map, Except.map]

/-- A stage that is known to succeed has a result. -/
theorem exists_of_isOk {x : Except ReadError α} (h : x.isOk) : ∃ a, x = .ok a := by
  cases x with
  | error e => cases h
  | ok a => exact ⟨a, rfl⟩

/-- A list of outcomes is a success if each of them is. -/
theorem mapM_id_ok_cons_iff {a : α} {items : List (Except ReadError α)} {results : List α} :
    (Except.ok a :: items).mapM id = .ok results ↔
      ∃ rest, items.mapM id = .ok rest ∧ results = a :: rest := by
  rw [List.mapM_cons]
  cases items.mapM id with
  | error e => simp [bind, Except.bind]
  | ok rest => simp [bind, Except.bind, pure, Except.pure, eq_comm]

/-- The results of a list of outcomes are those of its members. -/
theorem mapM_id_eq_ok_iff {items : List (Except ReadError α)} {results : List α} :
    items.mapM id = .ok results ↔ items = results.map .ok := by
  induction items generalizing results with
  | nil => simp [pure, Except.pure, eq_comm]
  | cons item items ih =>
    cases item with
    | error e =>
      rw [List.mapM_cons]
      cases results <;> simp [bind, Except.bind]
    | ok a =>
      rw [mapM_id_ok_cons_iff]
      constructor
      · rintro ⟨rest, hrest, rfl⟩
        rw [ih.mp hrest, List.map_cons]
      · intro h
        cases results with
        | nil => cases h
        | cons b results =>
          obtain ⟨hhead, htail⟩ := List.cons.inj h
          cases hhead
          exact ⟨results, ih.mpr htail, rfl⟩

/-- The outcome of a stage that can fail for one reason only. -/
def orMalformed : Option α → Except ReadError α
  | some a => .ok a
  | none => .error .malformed

theorem orMalformed_eq_ok_iff {x : Option α} {a : α} : orMalformed x = .ok a ↔ x = some a := by
  cases x with
  | none => simp [orMalformed]
  | some b => simp [orMalformed]

theorem orMalformed_eq_error_iff {x : Option α} {e : ReadError} :
    orMalformed x = .error e ↔ x = none ∧ e = .malformed := by
  cases x with
  | none => simp [orMalformed, eq_comm]
  | some b => simp [orMalformed]

end Calculator.Outcomes

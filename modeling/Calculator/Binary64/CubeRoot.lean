import Calculator.Binary64.Units

/-!
# Cube roots

The cube root of a double, rounded once: the result is the double nearest to the
exact root.

The exact root is found as a whole number, on a scale so fine that the rounding
to 53 binary places only has to know whether anything is left behind it.
-/

namespace Calculator.Binary64

/-- The third power. -/
def cube (n : Nat) : Nat := n * n * n

theorem cube_double (n : Nat) : cube (2 * n) = 8 * cube n := by
  simp only [cube, Nat.mul_comm, Nat.mul_left_comm, Nat.mul_assoc]

/-- The greatest number whose cube is at most `n`.  Each octal digit of `n` gives
one binary digit of the root. -/
def floorCubeRoot (n : Nat) : Nat :=
  if n = 0 then 0
  else
    let root := 2 * floorCubeRoot (n / 8)
    if cube (root + 1) ≤ n then root + 1 else root

/-- The floor of the cube root is at most the exact root and less than one
below it. -/
theorem floorCubeRoot_bounds (n : Nat) :
    cube (floorCubeRoot n) ≤ n ∧ n < cube (floorCubeRoot n + 1) := by
  induction n using Nat.strongRecOn with
  | _ n ih =>
    unfold floorCubeRoot
    by_cases hn : n = 0
    · subst hn
      decide
    · rw [if_neg hn]
      obtain ⟨hle, hlt⟩ := ih (n / 8) (by omega)
      generalize floorCubeRoot (n / 8) = root at hle hlt ⊢
      have hdouble := cube_double root
      have hnext := cube_double (root + 1)
      rw [show 2 * (root + 1) = 2 * root + 1 + 1 by omega] at hnext
      dsimp only
      split
      · exact ⟨by assumption, by omega⟩
      · exact ⟨by omega, by omega⟩

/-- Binary places that the root is found with behind its units.  The smallest
double then has a root of more than sixty places. -/
def rootPlaces : Nat := 60

/-- The magnitude of the double nearest to the cube root of a magnitude.

Since 1074 is three times 358, the root of a count of units is a count of two to
the power -358.  Half a place stands for any rest that is left behind the
root. -/
def cubeRootMagnitude (magnitude : Nat) : Nat :=
  let radicand := units magnitude * Nat.pow 2 (3 * rootPlaces)
  let root := floorCubeRoot radicand
  let rest := if cube root = radicand then 0 else 1
  nearest (2 * root + rest) (Nat.pow 2 (358 + rootPlaces + 1))

/-- The cube root of a number.  It has the sign of the number; zeros, infinities
and NaN are their own cube roots. -/
def cubeRoot (x : Float) : Float :=
  let m := magnitude x
  if m = 0 ∨ infinite ≤ m then x
  else ofMagnitude (isNegative x) (cubeRootMagnitude m)

end Calculator.Binary64

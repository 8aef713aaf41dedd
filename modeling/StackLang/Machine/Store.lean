/-
  The memory of a machine: one value for each variable that was stored.
-/
import StackLang.Value

namespace StackLang

/-- The values of the variables. -/
structure Store where
  cells : List (String × Value) := []
  deriving DecidableEq

namespace Store

/-- The value of a variable, if it was stored. -/
def get? (m : Store) (x : String) : Option Value := m.cells.lookup x

/-- Stores the value of a variable. -/
def set (m : Store) (x : String) (v : Value) : Store :=
  ⟨(x, v) :: m.cells.filter fun c => c.1 ≠ x⟩

/-- The variables in the order of their names. -/
def toSorted (m : Store) : List (String × Value) :=
  m.cells.mergeSort fun a b => decide (a.1 ≤ b.1)

@[simp] theorem get?_set_self (m : Store) (x : String) (v : Value) :
    (m.set x v).get? x = some v := by
  simp [get?, set]

/-- Storing a variable leaves the others as they are. -/
theorem get?_set_of_ne (m : Store) {x y : String} (v : Value) (h : y ≠ x) :
    (m.set x v).get? y = m.get? y := by
  have hyx : (y == x) = false := by simpa using h
  simp only [get?, set, List.lookup_cons, hyx]
  induction m.cells with
  | nil => rfl
  | cons c cells ih =>
    obtain ⟨z, w⟩ := c
    by_cases hz : z = x
    · subst hz
      simpa [List.lookup_cons, hyx] using ih
    · by_cases hy : y = z
      · subst hy; simp [hz]
      · have : (y == z) = false := by simpa using hy
        simpa [List.lookup_cons, hz, this] using ih

theorem get?_set (m : Store) (x y : String) (v : Value) :
    (m.set x v).get? y = if y = x then some v else m.get? y := by
  split
  · next h => rw [h, get?_set_self]
  · next h => exact m.get?_set_of_ne v h

end Store

end StackLang

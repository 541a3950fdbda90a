import Mathlib.Algebra.Group.Nat.Defs
import Mathlib.Data.List.Basic

/-!
# Unsigned machine integers

Natural numbers stand for unsigned integers of some width. A sum or a difference that is out of
range is no value, a conversion keeps the low bits. A computation that stays in the range gives
what it gives on natural numbers.
-/

namespace Unsigned

/-- The sum, if it has no more than `width` bits. -/
def add? (width a b : ℕ) : Option ℕ := if a + b < 2 ^ width then some (a + b) else none

/-- The difference, if it is not negative. -/
def sub? (a b : ℕ) : Option ℕ := if b ≤ a then some (a - b) else none

/-- Conversion to `width` bits. -/
def convert (width n : ℕ) : ℕ := n % 2 ^ width

variable {width a b : ℕ}

theorem add?_eq (h : a + b < 2 ^ width) : add? width a b = some (a + b) := if_pos h

theorem sub?_eq (h : b ≤ a) : sub? a b = some (a - b) := if_pos h

theorem convert_eq (h : a < 2 ^ width) : convert width a = a := Nat.mod_eq_of_lt h

/-- A loop of which every turn has a value. -/
theorem mapM_eq_some {α β : Type*} {f : α → Option β} {g : α → β} {l : List α}
    (h : ∀ x ∈ l, f x = some (g x)) : l.mapM f = some (l.map g) := by
  induction l with
  | nil => rfl
  | cons x l ih =>
    obtain ⟨hx, hl⟩ := List.forall_mem_cons.mp h
    rw [List.mapM_cons, hx, ih hl]
    rfl

end Unsigned

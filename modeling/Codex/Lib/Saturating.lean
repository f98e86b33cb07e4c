import Mathlib.Algebra.Group.Nat.Defs
import Mathlib.Order.MinMax
import Mathlib.Tactic.Common

/-!
# Saturating arithmetic

The addition of `usize` that stays at the largest value, for 64-bit targets. A counter that is only
added to is the sum of what was added, or the largest value (`saturatingAdd_min`).
-/

namespace Codex.Lib

/-- `usize::MAX`. -/
def usizeMax : ℕ := 2 ^ 64 - 1

def saturatingAdd (a b : ℕ) : ℕ := min (a + b) usizeMax

lemma saturatingAdd_of_le {a b : ℕ} (h : a + b ≤ usizeMax) : saturatingAdd a b = a + b :=
  min_eq_left h

lemma saturatingAdd_min (a b : ℕ) : saturatingAdd (min a usizeMax) b = min (a + b) usizeMax := by
  unfold saturatingAdd
  omega

end Codex.Lib

import Mathlib.Algebra.Group.Nat.Defs
import BasicDataStruct.RedBlack.Balance

namespace red_black

variable {α : Type}

/-- The number of nodes on a longest path from the root to an empty tree. -/
def RBTree.height : RBTree α → Nat
  | .nil => 0
  | .node _ l _ r => max l.height r.height + 1

namespace Balanced

variable {t : RBTree α} {c : Color} {n : Nat}

/-- A tree of black height `n` contains a complete binary tree of height `n`. -/
theorem two_pow_le (h : Balanced t c n) : 2 ^ n ≤ t.toList.length + 1 := by
  induction h with
  | nil => simp [RBTree.toList]
  | red x _ _ ihl ihr =>
    simp only [RBTree.toList, List.length_append, List.length_cons]
    omega
  | black x _ _ ihl ihr =>
    rw [Nat.pow_succ]
    simp only [RBTree.toList, List.length_append, List.length_cons]
    omega

/-- No two red nodes follow each other on a path, so at most every second node of
it is red, and one more below a red root. -/
theorem height_le (h : Balanced t c n) : t.height ≤ 2 * n + if c = .red then 1 else 0 := by
  induction h with
  | nil => simp [RBTree.height]
  | red x _ _ ihl ihr =>
    simp only [reduceCtorEq, if_false, if_true, RBTree.height] at ihl ihr ⊢
    omega
  | black x _ _ ihl ihr =>
    simp only [reduceCtorEq, if_false, RBTree.height]
    split at ihl <;> split at ihr <;> omega

/-- The height of a tree with a black root is logarithmic in its size. -/
theorem two_pow_height_le (h : Balanced t .black n) : 2 ^ t.height ≤ (t.toList.length + 1) ^ 2 := by
  have hle : t.height ≤ n * 2 := by
    have := h.height_le
    simp only [reduceCtorEq, if_false] at this
    omega
  calc 2 ^ t.height
    _ ≤ 2 ^ (n * 2) := Nat.pow_le_pow_right (by decide) hle
    _ = (2 ^ n) ^ 2 := Nat.pow_mul 2 n 2
    _ ≤ (t.toList.length + 1) ^ 2 := Nat.pow_le_pow_left h.two_pow_le 2

end Balanced

end red_black

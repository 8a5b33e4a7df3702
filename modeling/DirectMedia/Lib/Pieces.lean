import Mathlib.Algebra.Order.Ring.Int
import Mathlib.Data.List.Basic

set_option autoImplicit false

/-! # A list in pieces

A list cut into pieces of a given size, the last of which may be shorter. Pieces that are each a
prefix of the piece meant give the whole list only if none is cut short.
-/

namespace Pieces

variable {α : Type}

/-- The number of pieces of a list of `n` elements. -/
def count (size n : Nat) : Nat := (n + size - 1) / size

/-- The piece number `k`. -/
def piece (size : Nat) (l : List α) (k : Nat) : List α := (l.drop (k * size)).take size

/-- All pieces. -/
def pieces (size : Nat) (l : List α) : List (List α) :=
  (List.range (count size l.length)).map (piece size l)

theorem length_piece_le (size : Nat) (l : List α) (k : Nat) : (piece size l k).length ≤ size := by
  simp only [piece, List.length_take]
  omega

theorem length_piece (size : Nat) (l : List α) (k : Nat) :
    (piece size l k).length = min size (l.length - k * size) := by
  simp [piece]

section Count

variable {size n : Nat}

/-- All elements are in a piece. -/
theorem le_count_mul (h : 0 < size) : n ≤ count size n * size := by
  have hdiv := Nat.div_add_mod (n + size - 1) size
  have hmod := Nat.mod_lt (n + size - 1) h
  rw [count, Nat.mul_comm]
  omega

/-- A piece number has an element to start with. -/
theorem lt_count_iff (h : 0 < size) (k : Nat) : k < count size n ↔ k * size < n := by
  rw [count, ← Nat.succ_le_iff, Nat.le_div_iff_mul_le h, Nat.succ_mul]
  omega

theorem count_pos (h : 0 < size) (hn : 0 < n) : 0 < count size n := by
  rw [lt_count_iff h]
  omega

theorem count_le (h : 0 < size) : count size n ≤ n := by
  by_contra hlt
  have := (lt_count_iff (n := n) h n).mp (by omega)
  have := Nat.le_mul_of_pos_right n h
  omega

@[simp] theorem count_zero (size : Nat) : count size 0 = 0 := by
  obtain rfl | h := Nat.eq_zero_or_pos size
  · rfl
  · exact Nat.div_eq_of_lt (by omega)

/-- The last piece is the one after which nothing is left. -/
theorem last_iff (h : 0 < size) {k : Nat} (hk : k * size < n) :
    k + 1 = count size n ↔ n ≤ k * size + size := by
  have hlt := (lt_count_iff (n := n) h k).mpr hk
  have hnext := lt_count_iff (n := n) h (k + 1)
  rw [Nat.succ_mul] at hnext
  omega

end Count

theorem piece_ne_nil {size : Nat} {l : List α} {k : Nat} (h : 0 < size) (hk : k * size < l.length) :
    piece size l k ≠ [] := by
  intro hnil
  have := length_piece size l k
  rw [hnil] at this
  simp only [List.length_nil] at this
  omega

/-- The last piece is all that is left. -/
theorem piece_last {size : Nat} {l : List α} {k : Nat} (h : l.length ≤ k * size + size) :
    piece size l k = l.drop (k * size) := by
  rw [piece, List.take_of_length_le]
  rw [List.length_drop]
  omega

/-- The first `m` pieces hold the first `m * size` elements. -/
theorem flatten_pieces_take (size : Nat) (l : List α) (m : Nat) :
    ((List.range m).map (piece size l)).flatten = l.take (m * size) := by
  induction m with
  | zero => simp
  | succ m ih =>
      rw [List.range_succ, List.map_append, List.flatten_append, ih, Nat.succ_mul, List.take_add]
      simp [piece]

/-- The pieces make up the list. -/
theorem flatten_pieces {size : Nat} (h : 0 < size) (l : List α) :
    (pieces size l).flatten = l := by
  rw [pieces, flatten_pieces_take, List.take_of_length_le (le_count_mul h)]

theorem flatten_length_le {ps qs : List (List α)} (h : List.Forall₂ (· <+: ·) ps qs) :
    ps.flatten.length ≤ qs.flatten.length := by
  induction h with
  | nil => exact le_refl _
  | cons hp _ ih =>
      have := hp.length_le
      simp only [List.flatten_cons, List.length_append]
      omega

/-- Prefixes of some lists that make up as much as the lists are the lists. -/
theorem eq_of_flatten_eq {ps qs : List (List α)} (h : List.Forall₂ (· <+: ·) ps qs)
    (hflat : ps.flatten = qs.flatten) : ps = qs := by
  induction h with
  | nil => rfl
  | @cons p q ps qs hp hrest ih =>
      have hle := flatten_length_le hrest
      have hsum := congrArg List.length hflat
      simp only [List.flatten_cons, List.length_append] at hsum
      have heq : p = q := hp.eq_of_length (Nat.le_antisymm hp.length_le (by omega))
      subst heq
      rw [List.flatten_cons, List.flatten_cons, List.append_cancel_left_eq] at hflat
      rw [ih hflat]

end Pieces

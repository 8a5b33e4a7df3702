import Mathlib.Data.List.Infix

set_option autoImplicit false

/-! # Records that arrive in chunks

A list of records is sent as one sequence of elements, and this sequence arrives cut into chunks.
The receiver consumes the first chunk from its front (`advance`) and may ask that no cut falls where
a record starts (`NoCut`).
-/

namespace Chunks

variable {α : Type}

/-- What is left once `m` elements of the first chunk are consumed. -/
def advance (m : Nat) : List (List α) → List (List α)
  | [] => []
  | c :: cs => if m < c.length then c.drop m :: cs else cs

theorem advance_lt {m : Nat} {c : List α} (h : m < c.length) (cs : List (List α)) :
    advance m (c :: cs) = c.drop m :: cs := by
  simp [advance, h]

theorem advance_ge {m : Nat} {c : List α} (h : c.length ≤ m) (cs : List (List α)) :
    advance m (c :: cs) = cs := by
  simp [advance, h]

theorem flatten_advance {m : Nat} {c : List α} (h : m ≤ c.length) (cs : List (List α)) :
    (advance m (c :: cs)).flatten = (c :: cs).flatten.drop m := by
  rcases Nat.lt_or_ge m c.length with hlt | hge
  · rw [advance_lt hlt, List.flatten_cons, List.flatten_cons, List.drop_append_of_le_length h]
  · rw [advance_ge hge, List.flatten_cons, Nat.le_antisymm h hge, List.drop_left]

theorem subset_advance (m : Nat) (c : List α) (cs : List (List α)) : cs ⊆ advance m (c :: cs) := by
  rcases Nat.lt_or_ge m c.length with hlt | hge
  · rw [advance_lt hlt]
    exact List.subset_cons_self _ _
  · rw [advance_ge hge]
    exact List.Subset.refl _

/-- A chunk that is left is one that was there, or the rest of one. -/
theorem of_mem_advance {m : Nat} {d : List α} {cs : List (List α)} (h : d ∈ advance m cs) :
    d ∈ cs ∨ ∃ c ∈ cs, d = c.drop m ∧ m < c.length := by
  cases cs with
  | nil => exact Or.inl h
  | cons c cs =>
      rcases Nat.lt_or_ge m c.length with hlt | hge
      · rw [advance_lt hlt] at h
        rcases List.mem_cons.mp h with rfl | h
        · exact Or.inr ⟨c, by simp, rfl, hlt⟩
        · exact Or.inl (List.mem_cons_of_mem _ h)
      · rw [advance_ge hge] at h
        exact Or.inl (List.mem_cons_of_mem _ h)

/-- A cut in what is left was a cut before, `m` elements further on. -/
theorem prefix_of_advance {m : Nat} {c : List α} (h : m ≤ c.length) {cs front : List (List α)}
    (hfront : front <+: advance m (c :: cs)) :
    front = [] ∨ ∃ all, all <+: c :: cs ∧ all.flatten.length = m + front.flatten.length := by
  rcases Nat.lt_or_ge m c.length with hlt | hge
  · rw [advance_lt hlt] at hfront
    cases front with
    | nil => exact Or.inl rfl
    | cons d front =>
        obtain ⟨rfl, hcs⟩ := List.cons_prefix_cons.mp hfront
        refine Or.inr ⟨c :: front, List.cons_prefix_cons.mpr ⟨rfl, hcs⟩, ?_⟩
        simp only [List.flatten_cons, List.length_append, List.length_drop]
        omega
  · rw [advance_ge hge] at hfront
    refine Or.inr ⟨c :: front, List.cons_prefix_cons.mpr ⟨rfl, hfront⟩, ?_⟩
    simp only [List.flatten_cons, List.length_append]
    omega

/-- A chunk ends inside the record it starts with, or has all of it. -/
theorem append_cases {c r tail more : List α} (h : c ++ tail = r ++ more) :
    (∃ rest, rest ≠ [] ∧ r = c ++ rest ∧ tail = rest ++ more) ∨
      ∃ rest, c = r ++ rest ∧ more = rest ++ tail := by
  rcases List.append_eq_append_iff.mp h with ⟨rest, hr, htail⟩ | hall
  · by_cases hrest : rest = []
    · subst hrest
      exact Or.inr ⟨[], by simp [hr], by simpa using htail.symm⟩
    · exact Or.inl ⟨rest, hrest, hr, htail⟩
  · exact Or.inr hall

/-! ## Cuts -/

/-- No cut is strictly inside the first `h` elements of a record, where the first record starts
after `n` elements. -/
def NoCut (h n : Nat) (records chunks : List (List α)) : Prop :=
  ∀ before r after front, records = before ++ r :: after → front <+: chunks →
    front.flatten.length ≤ n + before.flatten.length ∨
      n + before.flatten.length + h ≤ front.flatten.length

theorem NoCut.tail {h n : Nat} {r : List α} {records chunks : List (List α)}
    (hcut : NoCut h n (r :: records) chunks) : NoCut h (n + r.length) records chunks := by
  intro before s after front hrecords hfront
  have := hcut (r :: before) s after front (by rw [hrecords, List.cons_append]) hfront
  simp only [List.flatten_cons, List.length_append] at this
  omega

theorem NoCut.consume {h n m : Nat} {c : List α} {records cs : List (List α)}
    (hcut : NoCut h n records (c :: cs)) (hc : m ≤ c.length) (hm : m ≤ n) :
    NoCut h (n - m) records (advance m (c :: cs)) := by
  intro before r after front hrecords hfront
  rcases prefix_of_advance hc hfront with rfl | ⟨all, hall, hlength⟩
  · exact Or.inl (by simp)
  · have := hcut before r after all hrecords hall
    omega

/-- A chunk that starts with a record has the first `h` elements of it. -/
theorem NoCut.le_length {h : Nat} {r c : List α} {records cs : List (List α)}
    (hcut : NoCut h 0 (r :: records) (c :: cs)) (hc : c ≠ []) : h ≤ c.length := by
  have := hcut [] r records [c] rfl (List.cons_prefix_cons.mpr ⟨rfl, List.nil_prefix⟩)
  have hpos := List.length_pos_iff.mpr hc
  simp only [List.flatten_cons, List.flatten_nil, List.append_nil, List.length_nil] at this
  omega

/-- A whole record is consumed. -/
theorem NoCut.consume_record {h : Nat} {r c : List α} {records cs : List (List α)}
    (hcut : NoCut h 0 (r :: records) (c :: cs)) (hc : r.length ≤ c.length) :
    NoCut h 0 records (advance r.length (c :: cs)) := by
  have := hcut.tail.consume hc (Nat.le_add_left _ _)
  rwa [Nat.zero_add, Nat.sub_self] at this

theorem noCut_one (n : Nat) (records chunks : List (List α)) : NoCut 1 n records chunks := by
  intro before r after front _ _
  omega

end Chunks

import Mathlib.Data.List.Basic

set_option autoImplicit false

/-! # Events with their past

A log grows at its end. What is known of every event and the events before it (`Each`) is shown when
the event is added, and is then read off any place of the log.
-/

namespace History

variable {ε : Type} {P : List ε → ε → Prop} {log : List ε}

/-- Every event of the log satisfies `P` with the events before it. -/
def Each (P : List ε → ε → Prop) (log : List ε) : Prop :=
  ∀ past e rest, log = past ++ e :: rest → P past e

theorem each_nil : Each P [] := by
  intro past e rest h
  simp at h

/-- One more event. -/
theorem Each.concat (h : Each P log) {e : ε} (he : P log e) : Each P (log ++ [e]) := by
  intro past d rest heq
  rcases List.eq_nil_or_concat rest with rfl | ⟨rest', d', rfl⟩
  · obtain ⟨rfl, hlast⟩ := List.append_inj' heq rfl
    obtain rfl := List.head_eq_of_cons_eq hlast
    exact he
  · rw [List.concat_eq_append, ← List.cons_append, ← List.append_assoc] at heq
    exact h past d rest' (List.append_inj' heq rfl).1

/-- One more event, or none. -/
theorem Each.append_toList (h : Each P log) {o : Option ε} (ho : ∀ e ∈ o, P log e) :
    Each P (log ++ o.toList) := by
  cases o with
  | none => simpa using h
  | some e => exact h.concat (ho e rfl)

/-- Where what holds in the end did not hold at the start, an event has brought it. -/
theorem foldl_origin {σ : Type} {next : σ → ε → σ} (Holds : σ → Prop) {Brings : ε → Prop}
    (hnext : ∀ s e, Holds (next s e) → Brings e ∨ Holds s) {s : σ}
    (h : Holds (log.foldl next s)) : Holds s ∨ ∃ e ∈ log, Brings e := by
  induction log generalizing s with
  | nil => exact .inl h
  | cons e log ih =>
      rcases ih h with h | ⟨d, hd, hbrings⟩
      · rcases hnext s e h with h | h
        · exact .inr ⟨e, List.mem_cons_self, h⟩
        · exact .inl h
      · exact .inr ⟨d, List.mem_cons_of_mem e hd, hbrings⟩

end History

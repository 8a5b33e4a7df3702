import DirectMedia.Lib.Lts
import Mathlib.Data.List.Count

set_option autoImplicit false

/-! # Progress by a rank

A rank that every step lowers, but for those that set the run back, bounds the steps of a run
(`exec_rank`). Where it can be lowered as long as there is something to do, a run leads to where
there is nothing to do (`exists_rest`). What the steps of a run show is accounted for by what is
left to be shown (`shown_append`).
-/

namespace Lts

variable {σ α ε : Type} {step : σ → α → Option σ}

/-! ## Bounded runs -/

/-- A step that moves lowers the rank, one that sets the run back raises it by at most `k`. -/
def Lowers (step : σ → α → Option σ) (moves setsBack : α → Bool) (k : Nat) (rank : σ → Nat) :
    Prop :=
  ∀ s a t, step s a = some t →
    (if moves a then 1 else 0) + rank t ≤ rank s + k * if setsBack a then 1 else 0

/-- **The moves of a run** are bounded by the rank of its first state and by how often the run is
set back. -/
theorem exec_rank {moves setsBack : α → Bool} {k : Nat} {rank : σ → Nat}
    (h : Lowers step moves setsBack k rank) {as : List α} :
    ∀ {s t : σ}, exec step s as = some t →
      as.countP moves + rank t ≤ rank s + k * as.countP setsBack := by
  induction as with
  | nil =>
      intro s t ht
      obtain rfl := Option.some.inj ht
      simp
  | cons a as ih =>
      intro s t ht
      obtain ⟨u, hu, ht⟩ := exec_cons_iff.mp ht
      have hfirst := h s a u hu
      have hrest := ih ht
      rw [List.countP_cons, List.countP_cons, Nat.mul_add]
      omega

/-! ## Runs that come to rest -/

/-- **Runs come to rest.** If from every state with the invariant that is not at rest some steps
that `Q` allows lower the rank and keep the invariant, a run of such steps leads to rest. -/
theorem exists_rest {I Rest : σ → Prop} {Q : α → Prop} {rank : σ → Nat}
    (h : ∀ s, I s → ¬ Rest s →
      ∃ as t, (∀ a ∈ as, Q a) ∧ exec step s as = some t ∧ I t ∧ rank t < rank s)
    {s : σ} (hs : I s) : ∃ as t, (∀ a ∈ as, Q a) ∧ exec step s as = some t ∧ I t ∧ Rest t := by
  induction hn : rank s using Nat.strongRecOn generalizing s with
  | ind n ih =>
      by_cases hrest : Rest s
      · exact ⟨[], s, by simp, rfl, hs, hrest⟩
      · obtain ⟨as, t, has, ht, hI, hlt⟩ := h s hs hrest
        obtain ⟨bs, u, hbs, hu, hIu, hrestu⟩ := ih (rank t) (hn ▸ hlt) hI rfl
        refine ⟨as ++ bs, u, ?_, exec_append_iff.mpr ⟨t, ht, hu⟩, hIu, hrestu⟩
        intro a ha
        rcases List.mem_append.mp ha with ha | ha
        · exact has a ha
        · exact hbs a ha

/-! ## What a run shows -/

/-- What the steps of a run show. -/
def shown (step : σ → α → Option σ) (out : σ → α → Option ε) : σ → List α → List ε
  | _, [] => []
  | s, a :: as => (out s a).toList ++ (step s a).elim [] fun t => shown step out t as

/-- If every step shows the first of what is left to be shown, or nothing, a run shows what is left
at its start and not at its end. -/
theorem shown_append {out : σ → α → Option ε} {left : σ → List ε} {I : σ → Prop} {Q : α → Prop}
    (h : ∀ s a t, Q a → I s → step s a = some t → left s = (out s a).toList ++ left t ∧ I t)
    {as : List α} : ∀ {s t : σ}, (∀ a ∈ as, Q a) → I s → exec step s as = some t →
      shown step out s as ++ left t = left s := by
  induction as with
  | nil =>
      intro s t _ _ ht
      obtain rfl := Option.some.inj ht
      rfl
  | cons a as ih =>
      intro s t hQ hs ht
      obtain ⟨u, hu, ht⟩ := exec_cons_iff.mp ht
      obtain ⟨hleft, hIu⟩ := h s a u (hQ a (by simp)) hs hu
      have hrest := ih (fun b hb => hQ b (by simp [hb])) hIu ht
      rw [shown, hu, Option.elim_some, List.append_assoc, hrest, hleft]

end Lts

import DirectMedia.Lib.Prog

set_option autoImplicit false

/-! # Programs that look before they act

A program that must take actions of a certain kind, such as going through a pointer, only where a
condition holds, and looks whether it does before the first one. What it knows is that the condition
held when it looked.
-/

namespace Prog

variable {σ ε α β : Type}

/-- The program takes no action that `U` selects before one in a state that satisfies `C`. -/
def LooksFirst (U : (σ → Option ε × σ) → Prop) (C : σ → Prop) : Prog σ ε α → Prop
  | ret _ => True
  | act f k => ¬ U f ∧ ∀ s, C s ∨ (k s).LooksFirst U C
  | acquire k => k.LooksFirst U C
  | release k => k.LooksFirst U C

variable {U : (σ → Option ε × σ) → Prop} {C : σ → Prop}

theorem Does.looksFirst {p : Prog σ ε α} (h : p.Does fun f => ¬ U f) : p.LooksFirst U C := by
  induction p with
  | ret a => trivial
  | act f k ih => exact ⟨h.1, fun s => .inr (ih s (h.2 s))⟩
  | acquire k ih => exact ih h
  | release k ih => exact ih h

theorem LooksFirst.bind {p : Prog σ ε α} {g : α → Prog σ ε β} (hp : p.LooksFirst U C)
    (hg : ∀ a, (g a).LooksFirst U C) : (p >>= g).LooksFirst U C := by
  change (p.bind g).LooksFirst U C
  induction p with
  | ret a => exact hg a
  | act f k ih => exact ⟨hp.1, fun s => (hp.2 s).imp_right (ih s)⟩
  | acquire k ih => exact ih hp
  | release k ih => exact ih hp

/-- After a look it is the program for a state without `C` that has to look again. -/
theorem looksFirst_look {f : σ → α} {g : α → Prog σ ε β} (hf : ¬ U fun s => (none, s))
    (hg : ∀ s, ¬ C s → (g (f s)).LooksFirst U C) : (read f >>= g).LooksFirst U C := by
  refine ⟨hf, fun s => ?_⟩
  by_cases hs : C s
  · exact .inl hs
  · exact .inr (hg s hs)

end Prog

import DirectMedia.Lib.Prog

set_option autoImplicit false

/-! # Runs amid changes by others

`Prog.amid` executes a program while others change the state: before its `n`-th action by `e n`.
The history of the run has, for each action, the state it was taken in and what it showed. With
others that change nothing it is the undisturbed run.
-/

/-- What a run amid others leaves: the history, the result, the last state and the number of the
next action. -/
structure Amid (σ ε α : Type) where
  history : List (σ × Option ε)
  result : α
  state : σ
  count : Nat

/-- The events of the run. -/
def Amid.events {σ ε α : Type} (r : Amid σ ε α) : List ε := r.history.filterMap (·.2)

namespace Prog

variable {σ ε α β : Type}

/-- The run from the `n`-th action on. -/
def amid (e : Nat → σ → σ) : Prog σ ε α → Nat → σ → Amid σ ε α
  | ret a, n, s => ⟨[], a, s, n⟩
  | act f k, n, s =>
      let r := (k (e n s)).amid e (n + 1) (f (e n s)).2
      { r with history := (e n s, (f (e n s)).1) :: r.history }
  | acquire k, n, s => k.amid e n s
  | release k, n, s => k.amid e n s

variable {e : Nat → σ → σ}

@[simp] theorem amid_pure (a : α) (n : Nat) (s : σ) :
    (pure a : Prog σ ε α).amid e n s = ⟨[], a, s, n⟩ := (rfl)

/-- One program after the other: the second goes on where the first has ended. -/
theorem amid_bind (p : Prog σ ε α) (g : α → Prog σ ε β) (n : Nat) (s : σ) :
    (p >>= g).amid e n s =
      { (g (p.amid e n s).result).amid e (p.amid e n s).count (p.amid e n s).state with
        history := (p.amid e n s).history ++
          ((g (p.amid e n s).result).amid e (p.amid e n s).count
            (p.amid e n s).state).history } := by
  change (p.bind g).amid e n s = _
  induction p generalizing n s with
  | ret a => rfl
  | act f k ih =>
      simp only [bind, amid, ih, List.cons_append]
  | acquire k ih => exact ih n s
  | release k ih => exact ih n s

/-- Others that change nothing leave the undisturbed run. -/
theorem amid_undisturbed (p : Prog σ ε α) (n : Nat) (s : σ) :
    ((p.amid (fun _ s => s) n s).result, (p.amid (fun _ s => s) n s).state) = p.run s ∧
      (p.amid (fun _ s => s) n s).events = p.trace s := by
  induction p generalizing n s with
  | ret a => exact ⟨rfl, rfl⟩
  | act f k ih =>
      obtain ⟨hrun, htrace⟩ := ih s (n + 1) (f s).2
      refine ⟨hrun, ?_⟩
      rw [trace, ← htrace]
      simp only [amid, Amid.events, List.filterMap_cons]
      cases (f s).1 <;> rfl
  | acquire k ih => exact ih n s
  | release k ih => exact ih n s

/-! ## Assertions about the history and the state -/

/-- From a history and a state that satisfy `B`, the run ends with a result, a history and a state
that satisfy `C`. -/
def Amidst (e : Nat → σ → σ) (B : List (σ × Option ε) → σ → Prop) (p : Prog σ ε α)
    (C : α → List (σ × Option ε) → σ → Prop) : Prop :=
  ∀ d n s, B d s → C (p.amid e n s).result (d ++ (p.amid e n s).history) (p.amid e n s).state

section Amidst

variable {B : List (σ × Option ε) → σ → Prop} {C : α → List (σ × Option ε) → σ → Prop}

theorem amidst_pure {a : α} (h : ∀ d s, B d s → C a d s) : Amidst e B (pure a) C := by
  intro d n s hs
  simpa using h d s hs

theorem Amidst.bind {C' : β → List (σ × Option ε) → σ → Prop} {p : Prog σ ε α}
    {g : α → Prog σ ε β} (hp : Amidst e B p C) (hg : ∀ a, Amidst e (C a) (g a) C') :
    Amidst e B (p >>= g) C' := by
  intro d n s hs
  rw [amid_bind, ← List.append_assoc]
  exact hg _ _ _ _ (hp d n s hs)

/-- One action, and a result that is read off the state it is taken in. -/
theorem amidst_step {f : σ → Option ε × σ} {r : σ → α}
    (h : ∀ d n s, B d s → C (r (e n s)) (d ++ [(e n s, (f (e n s)).1)]) (f (e n s)).2) :
    Amidst e B (act f fun s => ret (r s)) C :=
  h

theorem Amidst.ite {c : Prop} [Decidable c] {p q : Prog σ ε α}
    (hp : c → Amidst e B p C) (hq : ¬ c → Amidst e B q C) :
    Amidst e B (if c then p else q) C := by
  by_cases hc : c
  · rw [if_pos hc]; exact hp hc
  · rw [if_neg hc]; exact hq hc

theorem Amidst.mono {B' : List (σ × Option ε) → σ → Prop}
    {C' : α → List (σ × Option ε) → σ → Prop} {p : Prog σ ε α} (h : Amidst e B p C)
    (hB : ∀ d s, B' d s → B d s) (hC : ∀ a d s, C a d s → C' a d s) : Amidst e B' p C' :=
  fun d n s hs => hC _ _ _ (h d n s (hB d s hs))

/-- A fact about the start may be used throughout. -/
theorem amidst_of_start {P : Prop} {p : Prog σ ε α} (hP : ∀ d s, B d s → P)
    (h : P → Amidst e B p C) : Amidst e B p C :=
  fun d n s hs => h (hP d s hs) d n s hs

/-- What is known of the result of the first program may be used throughout the second. -/
theorem Amidst.bind_and {C' : β → List (σ × Option ε) → σ → Prop} {R : α → Prop}
    {p : Prog σ ε α} {g : α → Prog σ ε β} (hp : Amidst e B p fun a d s => R a ∧ C a d s)
    (hg : ∀ a, R a → Amidst e (C a) (g a) C') : Amidst e B (p >>= g) C' := by
  refine Amidst.bind hp fun a => amidst_of_start (fun _ _ h => h.1) fun ha => ?_
  exact (hg a ha).mono (fun _ _ h => h.2) fun _ _ _ h => h

/-- An assertion that others keep, and every action of the program, holds in the end. -/
theorem Does.amidst {p : Prog σ ε α} (he : ∀ d n s, B d s → B d (e n s))
    (h : p.Does fun f => ∀ d s, B d s → B (d ++ [(s, (f s).1)]) (f s).2) :
    Amidst e B p fun _ => B := by
  intro d n s hs
  induction p generalizing d n s with
  | ret a => simpa [amid] using hs
  | act f k ih =>
      have hrest := ih (e n s) (h.2 _) _ (n + 1) _ (h.1 _ _ (he d n s hs))
      rwa [List.append_assoc] at hrest
  | acquire k ih => exact ih h d n s hs
  | release k ih => exact ih h d n s hs

end Amidst

/-! ## Results -/

/-- Whatever state each action finds, the result satisfies `R`. -/
def Yields (R : α → Prop) : Prog σ ε α → Prop
  | ret a => R a
  | act _ k => ∀ s, (k s).Yields R
  | acquire k => k.Yields R
  | release k => k.Yields R

section Yields

variable {R : α → Prop}

theorem Yields.bind {R' : β → Prop} {p : Prog σ ε α} {g : α → Prog σ ε β} (hp : p.Yields R)
    (hg : ∀ a, R a → (g a).Yields R') : (p >>= g).Yields R' := by
  change (p.bind g).Yields R'
  induction p with
  | ret a => exact hg a hp
  | act f k ih => exact fun s => ih s (hp s)
  | acquire k ih => exact ih hp
  | release k ih => exact ih hp

theorem Yields.mono {R' : α → Prop} {p : Prog σ ε α} (h : p.Yields R) (hR : ∀ a, R a → R' a) :
    p.Yields R' := by
  induction p with
  | ret a => exact hR a h
  | act f k ih => exact fun s => ih s (h s)
  | acquire k ih => exact ih h
  | release k ih => exact ih h

theorem yields_true (p : Prog σ ε α) : p.Yields fun _ => True := by
  induction p with
  | ret a => trivial
  | act f k ih => exact ih
  | acquire k ih => exact ih
  | release k ih => exact ih

theorem Yields.result {p : Prog σ ε α} (h : p.Yields R) (n : Nat) (s : σ) :
    R (p.amid e n s).result := by
  induction p generalizing n s with
  | ret a => exact h
  | act f k ih => exact ih _ (h _) _ _
  | acquire k ih => exact ih h _ _
  | release k ih => exact ih h _ _

/-- The result of a run satisfies what the program yields. -/
theorem Amidst.yields {B : List (σ × Option ε) → σ → Prop}
    {C : α → List (σ × Option ε) → σ → Prop} {p : Prog σ ε α} (h : Amidst e B p C)
    (hp : p.Yields R) : Amidst e B p fun a d s => R a ∧ C a d s :=
  fun d n s hs => ⟨hp.result n s, h d n s hs⟩

end Yields

end Prog

import Mathlib.Logic.Basic
import Mathlib.Data.Option.Basic

set_option autoImplicit false

/-! # Labelled transition systems with executable steps

A system is a partial step function: `step s a` is the state after the label `a`, and `none`
where `a` cannot happen in `s`. All nondeterminism (which thread moves, what the environment
answers) is in the label, so a run is a list of labels and `exec` computes its last state.
-/

namespace Lts

variable {σ α : Type} {step : σ → α → Option σ}

/-- The state after the run `as` from `s`; `none` where one of its labels cannot happen. -/
def exec (step : σ → α → Option σ) : σ → List α → Option σ
  | s, [] => some s
  | s, a :: as => (step s a).bind fun t => exec step t as

@[simp] theorem exec_nil (s : σ) : exec step s [] = some s := rfl

theorem exec_cons_iff {s u : σ} {a : α} {as : List α} :
    exec step s (a :: as) = some u ↔ ∃ t, step s a = some t ∧ exec step t as = some u := by
  simp [exec, Option.bind_eq_some_iff]

theorem exec_append_iff {s u : σ} {as bs : List α} :
    exec step s (as ++ bs) = some u ↔ ∃ t, exec step s as = some t ∧ exec step t bs = some u := by
  induction as generalizing s with
  | nil => simp
  | cons a as ih =>
      rw [List.cons_append, exec_cons_iff]
      constructor
      · rintro ⟨t, ht, hu⟩
        obtain ⟨v, hv, hu⟩ := ih.mp hu
        exact ⟨v, exec_cons_iff.mpr ⟨t, ht, hv⟩, hu⟩
      · rintro ⟨v, hv, hu⟩
        obtain ⟨t, ht, hv⟩ := exec_cons_iff.mp hv
        exact ⟨t, ht, ih.mpr ⟨v, hv, hu⟩⟩

/-- A system whose steps are steps of another, under other labels, runs as that one does. -/
theorem exec_map {β : Type} {step' : σ → β → Option σ} {f : α → β}
    (h : ∀ s a, step' s (f a) = step s a) (as : List α) :
    ∀ s, exec step' s (as.map f) = exec step s as := by
  induction as with
  | nil => exact fun _ => rfl
  | cons a as ih =>
      intro s
      simp only [List.map_cons, exec, h, ih]

/-! ## Invariants -/

/-- What a step preserves, a run preserves. The labels of the run may be restricted by `Q`. -/
theorem exec_invariant {P : σ → Prop} {Q : α → Prop}
    (hstep : ∀ s a t, Q a → P s → step s a = some t → P t) {as : List α} :
    ∀ {s u : σ}, (∀ a ∈ as, Q a) → P s → exec step s as = some u → P u := by
  induction as with
  | nil =>
      intro s u _ hs hu
      rw [exec_nil, Option.some.injEq] at hu
      exact hu ▸ hs
  | cons a as ih =>
      intro s u hQ hs hu
      obtain ⟨t, ht, hu⟩ := exec_cons_iff.mp hu
      exact ih (fun b hb => hQ b (by simp [hb])) (hstep s a t (hQ a (by simp)) hs ht) hu

/-- The states the system can reach from `init`. -/
def Reachable (step : σ → α → Option σ) (init s : σ) : Prop :=
  ∃ as, exec step init as = some s

theorem Reachable.invariant {P : σ → Prop} {init s : σ}
    (h : Reachable step init s) (hinit : P init)
    (hstep : ∀ s a t, P s → step s a = some t → P t) : P s := by
  obtain ⟨as, has⟩ := h
  exact exec_invariant (Q := fun _ => True) (fun s a t _ => hstep s a t) (fun _ _ => trivial)
    hinit has

/-! ## Conditions on the steps of a run -/

/-- Every step of the run `as` from `s` is taken in a state and with a label that `P` allows. -/
def Along (step : σ → α → Option σ) (P : σ → α → Prop) : σ → List α → Prop
  | _, [] => True
  | s, a :: as => P s a ∧ ∀ t, step s a = some t → Along step P t as

instance Along.decidable {P : σ → α → Prop} [∀ s a, Decidable (P s a)] :
    ∀ (s : σ) (as : List α), Decidable (Along step P s as)
  | _, [] => inferInstanceAs (Decidable True)
  | s, a :: as =>
      have (t : σ) : Decidable (Along step P t as) := Along.decidable t as
      inferInstanceAs (Decidable (P s a ∧ ∀ t ∈ step s a, Along step P t as))

theorem Along.cons {P : σ → α → Prop} {s t : σ} {a : α} {as : List α} (hP : P s a)
    (ht : step s a = some t) (hrest : Along step P t as) : Along step P s (a :: as) := by
  refine ⟨hP, fun u hu => ?_⟩
  obtain rfl := Option.some.inj (ht.symm.trans hu)
  exact hrest

/-- What holds along a run holds of its last step. -/
theorem Along.last {P : σ → α → Prop} {as : List α} {a : α} :
    ∀ {s t : σ}, Along step P s (as ++ [a]) → exec step s as = some t → P t a := by
  induction as with
  | nil =>
      intro s t h ht
      rw [exec_nil, Option.some.injEq] at ht
      exact ht ▸ h.1
  | cons b as ih =>
      intro s t h ht
      obtain ⟨u, hu, ht⟩ := exec_cons_iff.mp ht
      exact ih (h.2 u hu) ht

/-- A condition on the labels, added to a condition on the steps. -/
theorem Along.and_labels {P : σ → α → Prop} {Q : α → Prop} {as : List α} :
    ∀ {s : σ}, Along step P s as → (∀ a ∈ as, Q a) → Along step (fun s a => P s a ∧ Q a) s as := by
  induction as with
  | nil => exact fun _ _ => trivial
  | cons a as ih =>
      intro s hP hQ
      exact ⟨⟨hP.1, hQ a (by simp)⟩, fun t ht => ih (hP.2 t ht) fun b hb => hQ b (by simp [hb])⟩

/-- An invariant of the steps that `P` allows. -/
theorem Along.invariant {P : σ → α → Prop} {I : σ → Prop}
    (hstep : ∀ s a t, P s a → I s → step s a = some t → I t) {as : List α} :
    ∀ {s u : σ}, Along step P s as → I s → exec step s as = some u → I u := by
  induction as with
  | nil =>
      intro s u _ hs hu
      rw [exec_nil, Option.some.injEq] at hu
      exact hu ▸ hs
  | cons a as ih =>
      intro s u hP hs hu
      obtain ⟨t, ht, hu⟩ := exec_cons_iff.mp hu
      exact ih (hP.2 t ht) (hstep s a t hP.1 hs ht) hu

/-- What every step from a state with the invariant satisfies holds along a run. -/
theorem Along.of_invariant {P : σ → α → Prop} {I : σ → Prop} (hP : ∀ s a, I s → P s a)
    (hstep : ∀ s a t, I s → step s a = some t → I t) {as : List α} :
    ∀ {s : σ}, I s → Along step P s as := by
  induction as with
  | nil => exact fun _ => trivial
  | cons a as ih => exact fun hs => ⟨hP _ a hs, fun t ht => ih (hstep _ a t hs ht)⟩

/-- Two conditions on steps that agree where the invariant holds agree on runs, if the steps they
allow keep the invariant. The labels of the run may be restricted by `L`. -/
theorem Along.congr {P Q : σ → α → Prop} {I : σ → Prop} {L : α → Prop}
    (hPQ : ∀ s a, L a → I s → (P s a ↔ Q s a))
    (hstep : ∀ s a t, L a → Q s a → I s → step s a = some t → I t) {as : List α} :
    ∀ {s : σ}, (∀ a ∈ as, L a) → I s → (Along step P s as ↔ Along step Q s as) := by
  induction as with
  | nil => exact fun _ _ => Iff.rfl
  | cons a as ih =>
      intro s hL hs
      have ha : L a := hL a (by simp)
      have has : ∀ b ∈ as, L b := fun b hb => hL b (by simp [hb])
      constructor
      · rintro ⟨hP, hrest⟩
        have hQ := (hPQ s a ha hs).mp hP
        exact ⟨hQ, fun t ht => (ih has (hstep s a t ha hQ hs ht)).mp (hrest t ht)⟩
      · rintro ⟨hQ, hrest⟩
        exact ⟨(hPQ s a ha hs).mpr hQ, fun t ht =>
          (ih has (hstep s a t ha hQ hs ht)).mpr (hrest t ht)⟩

/-- If a step that `P` forbids leaves a mark `R` on the state that no later step removes, a run
whose last state is unmarked took allowed steps only. -/
theorem Along.of_unmarked {P : σ → α → Prop} {R I : σ → Prop}
    (hI : ∀ s a t, I s → step s a = some t → I t)
    (hmark : ∀ s a t, I s → ¬ P s a → step s a = some t → R t)
    (hkeep : ∀ s a t, R s → step s a = some t → R t) {as : List α} :
    ∀ {s u : σ}, I s → exec step s as = some u → ¬ R u → Along step P s as := by
  induction as with
  | nil => intros; trivial
  | cons a as ih =>
      intro s u hs hu hR
      obtain ⟨t, ht, hu⟩ := exec_cons_iff.mp hu
      refine ⟨?_, ?_⟩
      · by_contra hP
        refine hR ?_
        exact exec_invariant (Q := fun _ => True) (fun s a t _ => hkeep s a t) (fun _ _ => trivial)
          (hmark s a t hs hP ht) hu
      · intro t' ht'
        rw [ht, Option.some.injEq] at ht'
        exact ht' ▸ ih (hI s a t hs ht) hu hR

end Lts

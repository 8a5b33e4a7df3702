import DirectMedia.Lib.Lts
import DirectMedia.Lib.Pool

set_option autoImplicit false

/-! # Threads that run alone

A program is balanced if it takes the mutex only while it does not hold it, leaves it only while it
does, and ends without it. In a pool of balanced programs the mutex is always held by a thread that
will leave it. So nothing blocks for good: the owner can run to its end while the others stand
still, and after it any other thread. A thread that runs alone computes what `Prog.run` computes.
-/

namespace Prog

variable {ι σ ε α β : Type}

/-! ## Balanced programs -/

/-- The program, which holds the mutex at its start if `held` is set, takes and leaves it in turn
and ends without it. -/
def Balanced : Bool → Prog σ ε α → Prop
  | held, ret _ => held = false
  | held, act _ k => ∀ s, (k s).Balanced held
  | held, acquire k => held = false ∧ k.Balanced true
  | held, release k => held = true ∧ k.Balanced false

@[simp] theorem balanced_pure (a : α) : (pure a : Prog σ ε α).Balanced false := rfl

theorem balanced_act {f : σ → Option ε × σ} {r : σ → α} :
    (act f fun s => ret (r s)).Balanced false := fun _ => rfl

@[simp] theorem balanced_read (g : σ → α) : (read g : Prog σ ε α).Balanced false := balanced_act

@[simp] theorem balanced_emit (e : σ → ε) (f : σ → σ) : (emit e f).Balanced false := balanced_act

theorem Balanced.bind {p : Prog σ ε β} {g : β → Prog σ ε α} {held : Bool} (hp : p.Balanced held)
    (hg : ∀ b, (g b).Balanced false) : (p >>= g).Balanced held := by
  change (p.bind g).Balanced held
  induction p generalizing held with
  | ret b =>
      obtain rfl : held = false := hp
      exact hg b
  | act f k ih => exact fun s => ih s (hp s)
  | acquire k ih => exact ⟨hp.1, ih hp.2⟩
  | release k ih => exact ⟨hp.1, ih hp.2⟩

theorem Balanced.ite {c : Prop} [Decidable c] {p q : Prog σ ε α} {held : Bool}
    (hp : p.Balanced held) (hq : q.Balanced held) : (if c then p else q).Balanced held := by
  split
  · exact hp
  · exact hq

theorem Balanced.onlyIf {c : Prop} [Decidable c] {p : Prog σ ε Unit} (hp : p.Balanced false) :
    (onlyIf c p).Balanced false :=
  Balanced.ite hp rfl

/-- A program that leaves the mutex alone, before another. -/
theorem LockFree.balanced_bind {p : Prog σ ε β} {g : β → Prog σ ε α} {held : Bool}
    (hp : p.LockFree) (hg : ∀ b, (g b).Balanced held) : (p >>= g).Balanced held := by
  change (p.bind g).Balanced held
  induction p with
  | ret b => exact hg b
  | act f k ih => exact fun s => ih s (hp s)
  | acquire k => exact hp.elim
  | release k => exact hp.elim

theorem LockFree.balanced {p : Prog σ ε α} (hp : p.LockFree) : p.Balanced false := by
  induction p with
  | ret a => rfl
  | act f k ih => exact fun s => ih s (hp s)
  | acquire k => exact hp.elim
  | release k => exact hp.elim

theorem LockFree.balanced_withLock {p : Prog σ ε α} (hp : p.LockFree) :
    (withLock p).Balanced false :=
  ⟨rfl, hp.balanced_bind fun _ => ⟨rfl, rfl⟩⟩

/-! ## Pools of balanced programs -/

namespace Pool

variable [DecidableEq ι] {x y : Pool ι σ ε α} {i : ι} {p : Prog σ ε α}

/-- Every program that runs is balanced, that of the owner from inside its section. -/
structure Sound (x : Pool ι σ ε α) : Prop where
  balanced : ∀ i p, x.running i = some p → p.Balanced (decide (x.owner = some i))
  owner : ∀ i, x.owner = some i → (x.running i).isSome = true

theorem sound_init (s : σ) : (init s : Pool ι σ ε α).Sound where
  balanced _ _ h := by cases h
  owner _ h := by cases h

/-- An idle thread does not hold the mutex. -/
theorem Sound.owner_ne (h : x.Sound) (hi : x.running i = none) : x.owner ≠ some i := by
  intro howner
  have := h.owner i howner
  rw [hi] at this
  cases this

/-- A change of the world concerns no mutex. -/
theorem Sound.setWorld (h : x.Sound) (w : World ι σ ε) : Sound { x with world := w } :=
  ⟨h.balanced, h.owner⟩

theorem Sound.start (h : x.Sound) (hp : p.Balanced false) (hi : x.running i = none) :
    (x.setRunning i (some p)).Sound where
  balanced j q hq := by
    rcases setRunning_cases hq with ⟨rfl, hpq⟩ | ⟨_, hq⟩
    · cases hpq
      have : decide (x.owner = some j) = false := decide_eq_false (h.owner_ne hi)
      exact this ▸ hp
    · exact h.balanced j q hq
  owner j hj := by
    have hne : j ≠ i := by
      rintro rfl
      exact h.owner_ne hi hj
    rw [running_setRunning_ne x hne]
    exact h.owner j hj

theorem Sound.finish (h : x.Sound) {a : α} (hi : x.running i = some (ret a)) :
    (x.setRunning i none).Sound where
  balanced j q hq := by
    rcases setRunning_cases hq with ⟨_, hnone⟩ | ⟨_, hq⟩
    · cases hnone
    · exact h.balanced j q hq
  owner j hj := by
    have hne : j ≠ i := by
      rintro rfl
      have := h.balanced j _ hi
      simp [Balanced, show x.owner = some j from hj] at this
    rw [running_setRunning_ne x hne]
    exact h.owner j hj

/-- A thread takes or leaves the mutex: the others' programs stand outside before and after it. -/
theorem Sound.move (h : x.Sound) {o : Option ι} (ho : ∀ j, j ≠ i → x.owner ≠ some j ∧ o ≠ some j)
    (hp : p.Balanced (decide (o = some i))) :
    Sound { x.setRunning i (some p) with owner := o } where
  balanced j q hq := by
    rcases setRunning_cases (x := x) hq with ⟨rfl, hpq⟩ | ⟨hne, hq⟩
    · cases hpq
      exact hp
    · have := h.balanced j q hq
      rwa [decide_eq_false (ho j hne).1, ← decide_eq_false (ho j hne).2] at this
  owner j hj := by
    have hji : j = i := by
      by_contra hne
      exact (ho j hne).2 hj
    rw [hji]
    exact congrArg Option.isSome (running_setRunning_self x i (some p))

theorem Sound.step (h : x.Sound) (hy : x.step i = some y) : y.Sound := by
  unfold Pool.step at hy
  split at hy
  case h_1 f k hp =>
      cases hy
      have hk : (k x.world.state).Balanced (decide (x.owner = some i)) := h.balanced i _ hp _
      refine ⟨fun j q hq => ?_, fun j hj => ?_⟩
      · rcases setRunning_cases (x := x) hq with ⟨rfl, hpq⟩ | ⟨_, hq⟩
        · cases hpq
          exact hk
        · exact h.balanced j q hq
      · by_cases hji : j = i
        · rw [hji]
          exact congrArg Option.isSome (running_setRunning_self x i _)
        · exact (congrArg Option.isSome (running_setRunning_ne x hji _)).trans (h.owner j hj)
  case h_2 k hp =>
      split at hy
      case isTrue hfree =>
          cases hy
          have hnone : x.owner = none := Option.isNone_iff_eq_none.mp hfree
          refine h.move (fun j hne => ⟨by simp [hnone], by simpa using hne.symm⟩) ?_
          rw [decide_eq_true rfl]
          exact (h.balanced i _ hp).2
      case isFalse => cases hy
  case h_3 k hp =>
      cases hy
      obtain ⟨howner, hk⟩ := h.balanced i _ hp
      have howner := of_decide_eq_true howner
      refine h.move (fun j hne => ⟨?_, by simp⟩) (by simpa using hk)
      rw [howner]
      simpa using hne.symm
  case h_4 => cases hy

/-- **A thread that runs alone.** If nobody else holds the mutex, a thread can run to the end of its
program. It returns what `run` returns and shows what `trace` shows, and the mutex is free then. -/
theorem Sound.alone (h : x.Sound) (hi : x.running i = some p)
    (hfree : x.owner = none ∨ x.owner = some i) :
    ∃ n y, Lts.exec Pool.step x (List.replicate n i) = some y ∧
      y.running i = some (ret (p.run x.world.state).1) ∧
      y.world =
        ⟨(p.run x.world.state).2, x.world.log ++ (p.trace x.world.state).map (i, ·)⟩ ∧
      y.owner = none ∧ ∀ j, j ≠ i → y.running j = x.running j := by
  induction p generalizing x with
  | ret a =>
      refine ⟨0, x, rfl, hi, by simp [run, trace], ?_, fun _ _ => rfl⟩
      refine hfree.resolve_right fun howner => ?_
      have := h.balanced i _ hi
      simp [Balanced, howner] at this
  | act f k ih =>
      have hy : x.step i =
          some { x.setRunning i (some (k x.world.state)) with world := x.world.after i f } := by
        rw [Pool.step, hi]
      obtain ⟨n, z, hz, hret, hworld, howner, hothers⟩ :=
        ih x.world.state (h.step hy) (running_setRunning_self x i _) hfree
      refine ⟨n + 1, z, Lts.exec_cons_iff.mpr ⟨_, hy, hz⟩, hret, ?_, howner, fun j hj => ?_⟩
      · rw [hworld, World.after_log, List.append_assoc, ← List.map_append]
        rfl
      · exact (hothers j hj).trans (running_setRunning_ne x hj _)
  | acquire k ih =>
      have hnone : x.owner = none := by
        refine hfree.resolve_right fun howner => ?_
        have := (h.balanced i _ hi).1
        simp [howner] at this
      have hy : x.step i = some { x.setRunning i (some k) with owner := some i } := by
        rw [Pool.step, hi]
        simp [hnone]
      obtain ⟨n, z, hz, hret, hworld, howner, hothers⟩ :=
        ih (h.step hy) (running_setRunning_self x i _) (.inr rfl)
      exact ⟨n + 1, z, Lts.exec_cons_iff.mpr ⟨_, hy, hz⟩, hret, hworld, howner, fun j hj =>
        (hothers j hj).trans (running_setRunning_ne x hj _)⟩
  | release k ih =>
      have hy : x.step i = some { x.setRunning i (some k) with owner := none } := by
        rw [Pool.step, hi]
      obtain ⟨n, z, hz, hret, hworld, howner, hothers⟩ :=
        ih (h.step hy) (running_setRunning_self x i _) (.inl rfl)
      exact ⟨n + 1, z, Lts.exec_cons_iff.mpr ⟨_, hy, hz⟩, hret, hworld, howner, fun j hj =>
        (hothers j hj).trans (running_setRunning_ne x hj _)⟩

end Pool

end Prog

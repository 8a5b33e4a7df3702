import DirectMedia.Lib.Prog
import Mathlib.Logic.Function.Basic
import Mathlib.Algebra.Order.BigOperators.Group.Finset
import Mathlib.Algebra.BigOperators.Group.Finset.Piecewise

set_option autoImplicit false

/-! # Threads that run programs on one state

A `Pool` is a family of threads that share a state, a mutex and a log of the events they show.
Each thread is idle or runs a program, and takes one action of it at a time, in any order with the
others.

A thread is verified on its own. `Ensures i R G Q p w` says what thread `i` does with the program
`p` from the world `w` on, whatever steps in `R` (the rely) the others take in between: each of its
actions is a step in `G` (the guarantee), and where it ends `Q` holds. The rules follow the
structure of programs; `Pool.step_ensures` brings what was proved back to the pool.
-/

namespace Prog

variable {ι σ ε α β : Type}

/-- The shared state, and what the threads have shown so far. -/
structure World (ι σ ε : Type) where
  state : σ
  log : List (ι × ε)

namespace World

/-- The world after an action of thread `i`. -/
def after (w : World ι σ ε) (i : ι) (f : σ → Option ε × σ) : World ι σ ε :=
  ⟨(f w.state).2, w.log ++ (f w.state).1.toList.map (i, ·)⟩

@[simp] theorem after_state (w : World ι σ ε) (i : ι) (f : σ → Option ε × σ) :
    (w.after i f).state = (f w.state).2 := rfl

theorem after_log (w : World ι σ ε) (i : ι) (f : σ → Option ε × σ) :
    (w.after i f).log = w.log ++ (f w.state).1.toList.map (i, ·) := rfl

/-- What thread `i` has shown. -/
def events [DecidableEq ι] (w : World ι σ ε) (i : ι) : List ε :=
  w.log.filterMap fun x => if x.1 = i then some x.2 else none

theorem events_congr [DecidableEq ι] {w v : World ι σ ε} (h : v.log = w.log) (i : ι) :
    v.events i = w.events i := by
  rw [events, events, h]

theorem events_after_self [DecidableEq ι] (w : World ι σ ε) (i : ι) (f : σ → Option ε × σ) :
    (w.after i f).events i = w.events i ++ (f w.state).1.toList := by
  simp [events, after_log, List.filterMap_append, List.filterMap_map]

theorem events_after_ne [DecidableEq ι] (w : World ι σ ε) {i j : ι} (h : i ≠ j)
    (f : σ → Option ε × σ) : (w.after i f).events j = w.events j := by
  simp [events, after_log, List.filterMap_append, List.filterMap_map, h]

end World

/-! ## Rely and guarantee -/

/-- Thread `i` runs the program from the world `w` on. Between its actions, and before its end, the
others take steps in `R`. Its own actions are steps in `G`, and it ends in `Q`. -/
def Ensures (i : ι) (R G : World ι σ ε → World ι σ ε → Prop) (Q : α → World ι σ ε → Prop) :
    Prog σ ε α → World ι σ ε → Prop
  | ret a, w => ∀ v, R w v → Q a v
  | act f k, w => ∀ v, R w v → G v (v.after i f) ∧ Ensures i R G Q (k v.state) (v.after i f)
  | acquire k, w => Ensures i R G Q k w
  | release k, w => Ensures i R G Q k w

section Ensures

variable {i : ι} {R G : World ι σ ε → World ι σ ε → Prop} {Q : α → World ι σ ε → Prop}
  {w : World ι σ ε}

/-- Steps of the other threads do not matter. -/
theorem Ensures.stable (htrans : ∀ u v w, R u v → R v w → R u w) {p : Prog σ ε α}
    (h : Ensures i R G Q p w) {v : World ι σ ε} (hv : R w v) : Ensures i R G Q p v := by
  induction p with
  | ret a => exact fun u hu => h u (htrans _ _ _ hv hu)
  | act f k _ => exact fun u hu => h u (htrans _ _ _ hv hu)
  | acquire k ih => exact ih h
  | release k ih => exact ih h

theorem Ensures.mono {Q' : α → World ι σ ε → Prop} {p : Prog σ ε α} (h : Ensures i R G Q p w)
    (hQ : ∀ a v, Q a v → Q' a v) : Ensures i R G Q' p w := by
  induction p generalizing w with
  | ret a => exact fun v hv => hQ a v (h v hv)
  | act f k ih => exact fun v hv => ⟨(h v hv).1, ih _ (h v hv).2⟩
  | acquire k ih => exact ih h
  | release k ih => exact ih h

theorem Ensures.ret_bind {b : β} {g : β → Prog σ ε α} (h : Ensures i R G Q (g b) w) :
    Ensures i R G Q (ret b >>= g) w := h

theorem Ensures.act_bind {f : σ → Option ε × σ} {k : σ → Prog σ ε β} {g : β → Prog σ ε α}
    (h : ∀ v, R w v → G v (v.after i f) ∧ Ensures i R G Q (k v.state >>= g) (v.after i f)) :
    Ensures i R G Q (act f k >>= g) w := h

theorem Ensures.ite {c : Prop} [Decidable c] {p q : Prog σ ε α} (hp : c → Ensures i R G Q p w)
    (hq : ¬ c → Ensures i R G Q q w) : Ensures i R G Q (if c then p else q) w := by
  by_cases hc : c
  · rw [if_pos hc]; exact hp hc
  · rw [if_neg hc]; exact hq hc

/-- The rule of sequencing. The rely is reflexive: nothing need happen between two programs. -/
theorem Ensures.bind (hrefl : ∀ u, R u u) {p : Prog σ ε β} {g : β → Prog σ ε α}
    {M : β → World ι σ ε → Prop} (hp : Ensures i R G M p w)
    (hg : ∀ b v, M b v → Ensures i R G Q (g b) v) : Ensures i R G Q (p >>= g) w := by
  change Ensures i R G Q (p.bind g) w
  induction p generalizing w with
  | ret b => exact hg b w (hp w (hrefl w))
  | act f k ih => exact fun v hv => ⟨(hp v hv).1, ih _ (hp v hv).2⟩
  | acquire k ih => exact ih hp
  | release k ih => exact ih hp

/-- A fact that the others keep, and every action of the program. -/
theorem Does.ensures {Φ : World ι σ ε → Prop} (hstable : ∀ u v, R u v → Φ u → Φ v)
    {D : (σ → Option ε × σ) → Prop} {p : Prog σ ε α} (hp : p.Does D)
    (hact : ∀ f v, D f → Φ v → G v (v.after i f) ∧ Φ (v.after i f)) (h : Φ w) :
    Ensures i R G (fun _ => Φ) p w := by
  induction p generalizing w with
  | ret a => exact fun v hv => hstable w v hv h
  | act f k ih =>
      intro v hv
      obtain ⟨hG, hΦ⟩ := hact f v hp.1 (hstable w v hv h)
      exact ⟨hG, ih v.state (hp.2 v.state) hΦ⟩
  | acquire k ih => exact ih hp h
  | release k ih => exact ih hp h

end Ensures

/-! ## Under a condition on the own actions -/

/-- As `Ensures`, as long as `C` allows what each action of the thread does in the state it is taken
in. -/
def EnsuresIf (i : ι) (C : σ → Option ε × σ → Prop) (R G : World ι σ ε → World ι σ ε → Prop)
    (Q : α → World ι σ ε → Prop) : Prog σ ε α → World ι σ ε → Prop
  | ret a, w => ∀ v, R w v → Q a v
  | act f k, w => ∀ v, R w v → C v.state (f v.state) →
      G v (v.after i f) ∧ EnsuresIf i C R G Q (k v.state) (v.after i f)
  | acquire k, w => EnsuresIf i C R G Q k w
  | release k, w => EnsuresIf i C R G Q k w

section EnsuresIf

variable {i : ι} {C : σ → Option ε × σ → Prop} {R G : World ι σ ε → World ι σ ε → Prop}
  {Q : α → World ι σ ε → Prop} {w : World ι σ ε}

theorem EnsuresIf.stable (htrans : ∀ u v w, R u v → R v w → R u w) {p : Prog σ ε α}
    (h : EnsuresIf i C R G Q p w) {v : World ι σ ε} (hv : R w v) : EnsuresIf i C R G Q p v := by
  induction p with
  | ret a => exact fun u hu => h u (htrans _ _ _ hv hu)
  | act f k _ => exact fun u hu => h u (htrans _ _ _ hv hu)
  | acquire k ih => exact ih h
  | release k ih => exact ih h

theorem EnsuresIf.mono {Q' : α → World ι σ ε → Prop} {p : Prog σ ε α}
    (h : EnsuresIf i C R G Q p w) (hQ : ∀ a v, Q a v → Q' a v) : EnsuresIf i C R G Q' p w := by
  induction p generalizing w with
  | ret a => exact fun v hv => hQ a v (h v hv)
  | act f k ih => exact fun v hv hC => ⟨(h v hv hC).1, ih _ (h v hv hC).2⟩
  | acquire k ih => exact ih h
  | release k ih => exact ih h

theorem EnsuresIf.ret_bind {b : β} {g : β → Prog σ ε α} (h : EnsuresIf i C R G Q (g b) w) :
    EnsuresIf i C R G Q (ret b >>= g) w := h

theorem EnsuresIf.act_bind {f : σ → Option ε × σ} {k : σ → Prog σ ε β} {g : β → Prog σ ε α}
    (h : ∀ v, R w v → C v.state (f v.state) →
      G v (v.after i f) ∧ EnsuresIf i C R G Q (k v.state >>= g) (v.after i f)) :
    EnsuresIf i C R G Q (act f k >>= g) w := h

theorem EnsuresIf.ite {c : Prop} [Decidable c] {p q : Prog σ ε α}
    (hp : c → EnsuresIf i C R G Q p w) (hq : ¬ c → EnsuresIf i C R G Q q w) :
    EnsuresIf i C R G Q (if c then p else q) w := by
  by_cases hc : c
  · rw [if_pos hc]; exact hp hc
  · rw [if_neg hc]; exact hq hc

theorem EnsuresIf.bind (hrefl : ∀ u, R u u) {p : Prog σ ε β} {g : β → Prog σ ε α}
    {M : β → World ι σ ε → Prop} (hp : EnsuresIf i C R G M p w)
    (hg : ∀ b v, M b v → EnsuresIf i C R G Q (g b) v) : EnsuresIf i C R G Q (p >>= g) w := by
  change EnsuresIf i C R G Q (p.bind g) w
  induction p generalizing w with
  | ret b => exact hg b w (hp w (hrefl w))
  | act f k ih => exact fun v hv hC => ⟨(hp v hv hC).1, ih _ (hp v hv hC).2⟩
  | acquire k ih => exact ih hp
  | release k ih => exact ih hp

/-- A fact that the others keep, and every action of the program. -/
theorem Does.ensuresIf {Φ : World ι σ ε → Prop} (hstable : ∀ u v, R u v → Φ u → Φ v)
    {D : (σ → Option ε × σ) → Prop} {p : Prog σ ε α} (hp : p.Does D)
    (hact : ∀ f v, D f → Φ v → C v.state (f v.state) → G v (v.after i f) ∧ Φ (v.after i f))
    (h : Φ w) : EnsuresIf i C R G (fun _ => Φ) p w := by
  induction p generalizing w with
  | ret a => exact fun v hv => hstable w v hv h
  | act f k ih =>
      intro v hv hC
      obtain ⟨hG, hΦ⟩ := hact f v hp.1 (hstable w v hv h) hC
      exact ⟨hG, ih v.state (hp.2 v.state) hΦ⟩
  | acquire k ih => exact ih hp h
  | release k ih => exact ih hp h

end EnsuresIf

/-! ## While the others keep a fact -/

/-- As long as `H` holds whenever the program takes an action, its actions keep `H` and show only
events that satisfy `E`, and its result satisfies `Q`. -/
def Within (H : σ → Prop) (E : ε → Prop) (Q : α → Prop) : Prog σ ε α → Prop
  | ret a => Q a
  | act f k => ∀ s, H s → (∀ e ∈ (f s).1, E e) ∧ H (f s).2 ∧ Within H E Q (k s)
  | acquire k => Within H E Q k
  | release k => Within H E Q k

section Within

variable {H : σ → Prop} {E : ε → Prop} {Q : α → Prop}

theorem within_pure {a : α} (h : Q a) : Within H E Q (pure a : Prog σ ε α) := h

theorem within_act {f : σ → Option ε × σ} {r : σ → α}
    (h : ∀ s, H s → (∀ e ∈ (f s).1, E e) ∧ H (f s).2 ∧ Q (r s)) :
    Within H E Q (act f fun s => ret (r s)) := h

theorem within_read {g : σ → α} (h : ∀ s, H s → Q (g s)) :
    Within H E Q (read g : Prog σ ε α) :=
  within_act fun s hs => ⟨by simp, hs, h s hs⟩

theorem Within.bind {p : Prog σ ε β} {g : β → Prog σ ε α} {M : β → Prop} (hp : Within H E M p)
    (hg : ∀ b, M b → Within H E Q (g b)) : Within H E Q (p >>= g) := by
  change Within H E Q (p.bind g)
  induction p with
  | ret b => exact hg b hp
  | act f k ih => exact fun s hs => ⟨(hp s hs).1, (hp s hs).2.1, ih s (hp s hs).2.2⟩
  | acquire k ih => exact ih hp
  | release k ih => exact ih hp

end Within

/-! ## The pool -/

/-- The action a program is about to take. -/
def next : Prog σ ε α → Option (σ → Option ε × σ)
  | act f _ => some f
  | _ => none

/-- Threads with a shared world and one mutex. A thread that runs no program is idle. -/
structure Pool (ι σ ε α : Type) where
  world : World ι σ ε
  owner : Option ι
  running : ι → Option (Prog σ ε α)

namespace Pool

/-- Nothing has happened yet. -/
def init (s : σ) : Pool ι σ ε α := ⟨⟨s, []⟩, none, fun _ => none⟩

section Steps

variable [DecidableEq ι]

/-- Thread `i` runs `p` from now on. -/
def setRunning (x : Pool ι σ ε α) (i : ι) (p : Option (Prog σ ε α)) : Pool ι σ ε α :=
  { x with running := Function.update x.running i p }

/-- Thread `i` takes the next step of its program. -/
def step (x : Pool ι σ ε α) (i : ι) : Option (Pool ι σ ε α) :=
  match x.running i with
  | some (act f k) =>
      some { x.setRunning i (some (k x.world.state)) with world := x.world.after i f }
  | some (acquire k) =>
      if x.owner.isNone then some { x.setRunning i (some k) with owner := some i } else none
  | some (release k) => some { x.setRunning i (some k) with owner := none }
  | _ => none

/-- Thread `i`, which is idle, starts a program. -/
def start (x : Pool ι σ ε α) (i : ι) (p : Prog σ ε α) : Option (Pool ι σ ε α) :=
  if (x.running i).isNone then some (x.setRunning i (some p)) else none

/-- The program of thread `i` returns. -/
def finish (x : Pool ι σ ε α) (i : ι) : Option (α × Pool ι σ ε α) :=
  match x.running i with
  | some (ret a) => some (a, x.setRunning i none)
  | _ => none

/-- What the next step of thread `i` will show. -/
def shows (x : Pool ι σ ε α) (i : ι) : Option ε :=
  match x.running i with
  | some (act f _) => (f x.world.state).1
  | _ => none

variable {x y : Pool ι σ ε α} {i : ι}

theorem running_setRunning_self (x : Pool ι σ ε α) (i : ι) (p : Option (Prog σ ε α)) :
    (x.setRunning i p).running i = p := by
  simp [setRunning]

theorem running_setRunning_ne (x : Pool ι σ ε α) {i j : ι} (h : j ≠ i)
    (p : Option (Prog σ ε α)) : (x.setRunning i p).running j = x.running j := by
  simp [setRunning, Function.update_of_ne h]

/-- What runs once thread `i` runs `p`. -/
theorem setRunning_cases {p : Option (Prog σ ε α)} {j : ι} {q : Prog σ ε α}
    (h : (x.setRunning i p).running j = some q) :
    (j = i ∧ p = some q) ∨ (j ≠ i ∧ x.running j = some q) := by
  by_cases hj : j = i
  · subst hj
    rw [running_setRunning_self] at h
    exact .inl ⟨rfl, h⟩
  · rw [running_setRunning_ne x hj] at h
    exact .inr ⟨hj, h⟩

/-- A step is an action of the thread's program, or a step that only the mutex sees. -/
theorem step_cases (h : x.step i = some y) :
    (∃ f k, x.running i = some (act f k) ∧ y.running i = some (k x.world.state) ∧
      y.world = x.world.after i f) ∨
    (∃ k, (x.running i = some (acquire k) ∨ x.running i = some (release k)) ∧
      y.running i = some k ∧ y.world = x.world) := by
  unfold step at h
  split at h
  case h_1 f k hp =>
      cases h
      exact .inl ⟨f, k, hp, running_setRunning_self x i _, rfl⟩
  case h_2 k hp =>
      split at h
      · cases h
        exact .inr ⟨k, .inl hp, running_setRunning_self x i _, rfl⟩
      · cases h
  case h_3 k hp =>
      cases h
      exact .inr ⟨k, .inr hp, running_setRunning_self x i _, rfl⟩
  case h_4 => cases h

theorem step_running_ne (h : x.step i = some y) {j : ι} (hj : j ≠ i) :
    y.running j = x.running j := by
  unfold step at h
  split at h
  case h_1 => cases h; exact running_setRunning_ne x hj _
  case h_2 =>
      split at h
      · cases h; exact running_setRunning_ne x hj _
      · cases h
  case h_3 => cases h; exact running_setRunning_ne x hj _
  case h_4 => cases h

/-- The thread that takes a step runs a program before and after it. -/
theorem step_running (h : x.step i = some y) :
    (∃ p, x.running i = some p) ∧ ∃ q, y.running i = some q := by
  rcases step_cases h with ⟨f, k, hp, hq, _⟩ | ⟨k, hp | hp, hq, _⟩
  · exact ⟨⟨_, hp⟩, _, hq⟩
  · exact ⟨⟨_, hp⟩, _, hq⟩
  · exact ⟨⟨_, hp⟩, _, hq⟩

/-- What runs after a step of thread `i`. -/
theorem step_running_cases (h : x.step i = some y) {j : ι} {q : Prog σ ε α}
    (hq : y.running j = some q) : j = i ∨ (j ≠ i ∧ x.running j = some q) := by
  by_cases hj : j = i
  · exact .inl hj
  · rw [step_running_ne h hj] at hq
    exact .inr ⟨hj, hq⟩

theorem start_cases {p : Prog σ ε α} (h : x.start i p = some y) :
    x.running i = none ∧ y = x.setRunning i (some p) := by
  simp only [start, Option.isNone_iff_eq_none, Option.ite_none_right_eq_some,
    Option.some.injEq] at h
  exact ⟨h.1, h.2.symm⟩

theorem finish_cases {a : α} (h : x.finish i = some (a, y)) :
    x.running i = some (ret a) ∧ y = x.setRunning i none := by
  unfold finish at h
  split at h
  case h_1 b hb =>
      simp only [Option.some.injEq, Prod.mk.injEq] at h
      obtain ⟨rfl, rfl⟩ := h
      exact ⟨hb, rfl⟩
  case h_2 => cases h

/-- A thread shows what `shows` announces. -/
theorem step_log (h : x.step i = some y) :
    y.world.log = x.world.log ++ (x.shows i).toList.map (i, ·) := by
  rcases step_cases h with ⟨f, k, hp, _, hw⟩ | ⟨k, hp | hp, _, hw⟩
  · rw [hw, World.after_log, shows, hp]
  · simp [hw, shows, hp]
  · simp [hw, shows, hp]

theorem step_events_self (h : x.step i = some y) :
    y.world.events i = x.world.events i ++ (x.shows i).toList := by
  rcases step_cases h with ⟨f, k, hp, _, hw⟩ | ⟨k, hp | hp, _, hw⟩
  · rw [hw, World.events_after_self, shows, hp]
  · simp [hw, shows, hp]
  · simp [hw, shows, hp]

theorem step_events_ne (h : x.step i = some y) {j : ι} (hj : j ≠ i) :
    y.world.events j = x.world.events j := by
  rcases step_cases h with ⟨f, _, _, _, hw⟩ | ⟨_, _, _, hw⟩
  · rw [hw, World.events_after_ne _ hj.symm]
  · rw [hw]

/-- A thread that is about to show an event can take the step. -/
theorem step_of_shows {e : ε} (h : x.shows i = some e) :
    ∃ f k y, x.running i = some (act f k) ∧ (f x.world.state).1 = some e ∧ x.step i = some y ∧
      y.world = x.world.after i f := by
  unfold shows at h
  split at h
  case h_1 f k hp => exact ⟨f, k, _, hp, h, by rw [step, hp], rfl⟩
  case h_2 => cases h

/-- Every action of a thread whose program `Does Q` satisfies `Q`. -/
theorem step_does {Q : (σ → Option ε × σ) → Prop} {p : Prog σ ε α} (h : x.step i = some y)
    (hp : x.running i = some p) (hQ : p.Does Q) :
    (y.world = x.world ∨ ∃ f, Q f ∧ y.world = x.world.after i f) ∧
      ∃ q, y.running i = some q ∧ q.Does Q := by
  rcases step_cases h with ⟨f, k, hp', hq, hw⟩ | ⟨k, hp' | hp', hq, hw⟩
  all_goals
    rw [hp] at hp'
    cases hp'
  · exact ⟨.inr ⟨f, hQ.1, hw⟩, _, hq, hQ.2 _⟩
  · exact ⟨.inl hw, k, hq, hQ⟩
  · exact ⟨.inl hw, k, hq, hQ⟩

/-- What was proved of a thread holds of its steps in the pool. -/
theorem step_ensures {R G : World ι σ ε → World ι σ ε → Prop} {Q : α → World ι σ ε → Prop}
    {p : Prog σ ε α} (hrefl : ∀ w, R w w) (h : x.step i = some y) (hp : x.running i = some p)
    (he : Ensures i R G Q p x.world) :
    (y.world = x.world ∨ G x.world y.world) ∧
      ∃ q, y.running i = some q ∧ Ensures i R G Q q y.world := by
  rcases step_cases h with ⟨f, k, hp', hq, hw⟩ | ⟨k, hp' | hp', hq, hw⟩
  all_goals
    rw [hp] at hp'
    cases hp'
    rw [hw]
  · obtain ⟨hG, hk⟩ := he x.world (hrefl _)
    exact ⟨.inr hG, _, hq, hk⟩
  · exact ⟨.inl rfl, k, hq, he⟩
  · exact ⟨.inl rfl, k, hq, he⟩

/-- And what was proved under a condition, of its steps that the condition allows. -/
theorem step_ensuresIf {C : σ → Option ε × σ → Prop} {R G : World ι σ ε → World ι σ ε → Prop}
    {Q : α → World ι σ ε → Prop} {p : Prog σ ε α} (hrefl : ∀ w, R w w) (h : x.step i = some y)
    (hp : x.running i = some p) (he : EnsuresIf i C R G Q p x.world)
    (hC : ∀ f k, x.running i = some (act f k) → C x.world.state (f x.world.state)) :
    (y.world = x.world ∨ G x.world y.world) ∧
      ∃ q, y.running i = some q ∧ EnsuresIf i C R G Q q y.world := by
  rcases step_cases h with ⟨f, k, hp', hq, hw⟩ | ⟨k, hp' | hp', hq, hw⟩
  all_goals
    have hsame := hp.symm.trans hp'
    cases hsame
    rw [hw]
  · obtain ⟨hG, hk⟩ := he x.world (hrefl _) (hC f k hp')
    exact ⟨.inr hG, _, hq, hk⟩
  · exact ⟨.inl rfl, k, hq, he⟩
  · exact ⟨.inl rfl, k, hq, he⟩

end Steps

end Pool

/-! ## Counting in the log -/

/-- How often thread `i` has shown an event that `p` selects. -/
def World.count [DecidableEq ι] (w : World ι σ ε) (i : ι) (p : ε → Bool) : Nat :=
  (w.events i).countP p

/-- The events of the log that `p` selects, whoever showed them. -/
def World.total (w : World ι σ ε) (p : ε → Bool) : Nat := w.log.countP fun x => p x.2

theorem World.total_eq_sum [DecidableEq ι] (w : World ι σ ε) (p : ε → Bool) {S : Finset ι}
    (hS : ∀ x ∈ w.log, x.1 ∈ S) : w.total p = ∑ i ∈ S, w.count i p := by
  obtain ⟨s, log⟩ := w
  simp only [World.total, World.count, World.events] at hS ⊢
  induction log with
  | nil => simp
  | cons x log ih =>
      obtain ⟨j, e⟩ := x
      have hj : j ∈ S := hS (j, e) (by simp)
      rw [List.countP_cons, ih fun x hx => hS x (by simp [hx])]
      have hcons : ∀ i, ((((j, e) :: log).filterMap fun x =>
          if x.1 = i then some x.2 else none).countP p) =
          ((log.filterMap fun x => if x.1 = i then some x.2 else none).countP p) +
            if i = j then (if p e then 1 else 0) else 0 := by
        intro i
        by_cases hi : j = i
        · subst hi
          simp [List.countP_cons]
        · simp [hi, Ne.symm hi]
      simp only [hcons, Finset.sum_add_distrib, Finset.sum_ite_eq', hj, if_true]

/-- If no thread has shown more events of one kind than of another, there are not more of them. -/
theorem World.total_le [DecidableEq ι] {w : World ι σ ε} {p q : ε → Bool}
    (h : ∀ i, w.count i p ≤ w.count i q) : w.total p ≤ w.total q := by
  have hS : ∀ x ∈ w.log, x.1 ∈ (w.log.map Prod.fst).toFinset := fun x hx =>
    List.mem_toFinset.mpr (List.mem_map_of_mem hx)
  rw [w.total_eq_sum p hS, w.total_eq_sum q hS]
  exact Finset.sum_le_sum fun i _ => h i

end Prog

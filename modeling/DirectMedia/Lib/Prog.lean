import Mathlib.Logic.Basic
import Mathlib.Data.List.Basic

set_option autoImplicit false

/-! # Programs of atomic actions with one mutex

A `Prog σ ε α` is a thread that works on a shared state `σ`, one atomic action after the other,
and returns a value in `α`. An action may be visible as an event in `ε`; the rest of the program
may depend on the state the action was taken in, so reading is an action like any other. Taking
and leaving the mutex are steps of their own.

`run` executes a program without interruption. `Visits` gives the points a run goes through, the
places where another thread may step in: the mutex is noted there, and the marks of what the
program has done so far.
-/

/-- A program that works on a state `σ`, with events in `ε` and a result in `α`. -/
inductive Prog (σ ε α : Type) where
  | ret (a : α)
  | act (f : σ → Option ε × σ) (k : σ → Prog σ ε α)
  | acquire (k : Prog σ ε α)
  | release (k : Prog σ ε α)

namespace Prog

variable {σ ε α β γ : Type}

/-- One program after the other. -/
def bind : Prog σ ε α → (α → Prog σ ε β) → Prog σ ε β
  | ret a, g => g a
  | act f k, g => act f fun s => (k s).bind g
  | acquire k, g => acquire (k.bind g)
  | release k, g => release (k.bind g)

instance : Monad (Prog σ ε) where
  pure := ret
  bind := bind

/-- Read a value of the state. -/
def read (g : σ → α) : Prog σ ε α := act (fun s => (none, s)) fun s => ret (g s)

/-- Change the state and return a value of the state before, in one action. -/
def exchange (g : σ → α) (f : σ → σ) : Prog σ ε α := act (fun s => (none, f s)) fun s => ret (g s)

/-- Change the state. -/
def write (f : σ → σ) : Prog σ ε Unit := exchange (fun _ => ()) f

/-- Change the state, visibly. -/
def emit (e : σ → ε) (f : σ → σ) : Prog σ ε Unit := act (fun s => (some (e s), f s)) fun _ => ret ()

/-- Run `p` if the condition holds. -/
def onlyIf (c : Prop) [Decidable c] (p : Prog σ ε Unit) : Prog σ ε Unit :=
  if c then p else ret ()

/-- Take the mutex. -/
def lock : Prog σ ε Unit := acquire (ret ())

/-- Leave the mutex. -/
def unlock : Prog σ ε Unit := release (ret ())

/-- A scope with a lock guard. -/
def withLock (p : Prog σ ε α) : Prog σ ε α := do
  lock
  let a ← p
  unlock
  return a

/-! ## Undisturbed runs -/

/-- The result and the last state of a run that no other thread interrupts. -/
def run : Prog σ ε α → σ → α × σ
  | ret a, s => (a, s)
  | act f k, s => (k s).run (f s).2
  | acquire k, s => k.run s
  | release k, s => k.run s

/-- The events of that run. -/
def trace : Prog σ ε α → σ → List ε
  | ret _, _ => []
  | act f k, s => (f s).1.toList ++ (k s).trace (f s).2
  | acquire k, s => k.trace s
  | release k, s => k.trace s

@[simp] theorem run_pure (a : α) (s : σ) : (pure a : Prog σ ε α).run s = (a, s) := (rfl)

@[simp] theorem run_bind (p : Prog σ ε α) (g : α → Prog σ ε β) (s : σ) :
    (p >>= g).run s = (g (p.run s).1).run (p.run s).2 := by
  change (p.bind g).run s = _
  induction p generalizing s with
  | ret a => rfl
  | act f k ih => exact ih s (f s).2
  | acquire k ih => exact ih s
  | release k ih => exact ih s

@[simp] theorem run_read (g : σ → α) (s : σ) : (read g : Prog σ ε α).run s = (g s, s) := (rfl)

@[simp] theorem run_exchange (g : σ → α) (f : σ → σ) (s : σ) :
    (exchange g f : Prog σ ε α).run s = (g s, f s) := (rfl)

@[simp] theorem run_write (f : σ → σ) (s : σ) : (write f : Prog σ ε Unit).run s = ((), f s) := (rfl)

@[simp] theorem run_emit (e : σ → ε) (f : σ → σ) (s : σ) : (emit e f).run s = ((), f s) := (rfl)

@[simp] theorem run_lock (s : σ) : (lock : Prog σ ε Unit).run s = ((), s) := (rfl)

@[simp] theorem run_unlock (s : σ) : (unlock : Prog σ ε Unit).run s = ((), s) := (rfl)

@[simp] theorem run_withLock (p : Prog σ ε α) (s : σ) : (withLock p).run s = p.run s := by
  simp [withLock]

@[simp] theorem run_ite (c : Prop) [Decidable c] (p q : Prog σ ε α) (s : σ) :
    (if c then p else q).run s = if c then p.run s else q.run s := by
  split <;> rfl

@[simp] theorem run_onlyIf (c : Prop) [Decidable c] (p : Prog σ ε Unit) (s : σ) :
    (onlyIf c p).run s = if c then p.run s else ((), s) := by
  simp only [onlyIf]
  split <;> rfl

@[simp] theorem trace_pure (a : α) (s : σ) : (pure a : Prog σ ε α).trace s = [] := (rfl)

@[simp] theorem trace_bind (p : Prog σ ε α) (g : α → Prog σ ε β) (s : σ) :
    (p >>= g).trace s = p.trace s ++ (g (p.run s).1).trace (p.run s).2 := by
  change (p.bind g).trace s = _
  induction p generalizing s with
  | ret a => rfl
  | act f k ih =>
      simp only [bind, trace, run, List.append_assoc]
      rw [ih]
  | acquire k ih => exact ih s
  | release k ih => exact ih s

@[simp] theorem trace_read (g : σ → α) (s : σ) : (read g : Prog σ ε α).trace s = [] := (rfl)

@[simp] theorem trace_write (f : σ → σ) (s : σ) : (write f : Prog σ ε Unit).trace s = [] := (rfl)

@[simp] theorem trace_onlyIf (c : Prop) [Decidable c] (p : Prog σ ε Unit) (s : σ) :
    (onlyIf c p).trace s = if c then p.trace s else [] := by
  simp only [onlyIf]
  split <;> rfl

@[simp] theorem trace_emit (e : σ → ε) (f : σ → σ) (s : σ) : (emit e f).trace s = [e s] := (rfl)

@[simp] theorem trace_lock (s : σ) : (lock : Prog σ ε Unit).trace s = [] := (rfl)

@[simp] theorem trace_unlock (s : σ) : (unlock : Prog σ ε Unit).trace s = [] := (rfl)

@[simp] theorem trace_withLock (p : Prog σ ε α) (s : σ) : (withLock p).trace s = p.trace s := by
  simp [withLock]

/-! ## What every action does -/

/-- Every action of the program satisfies `Q`: a property of what it shows and how it changes the
state, whatever the state it is taken in. -/
def Does (Q : (σ → Option ε × σ) → Prop) : Prog σ ε α → Prop
  | ret _ => True
  | act f k => Q f ∧ ∀ s, (k s).Does Q
  | acquire k => k.Does Q
  | release k => k.Does Q

variable {Q : (σ → Option ε × σ) → Prop}

@[simp] theorem does_pure (a : α) : (pure a : Prog σ ε α).Does Q := trivial

theorem Does.bind {p : Prog σ ε α} {g : α → Prog σ ε β} (hp : p.Does Q)
    (hg : ∀ a, (g a).Does Q) : (p >>= g).Does Q := by
  change (p.bind g).Does Q
  induction p with
  | ret a => exact hg a
  | act f k ih => exact ⟨hp.1, fun s => ih s (hp.2 s)⟩
  | acquire k ih => exact ih hp
  | release k ih => exact ih hp

theorem Does.ite {c : Prop} [Decidable c] {p q : Prog σ ε α} (hp : c → p.Does Q)
    (hq : ¬ c → q.Does Q) : (if c then p else q).Does Q := by
  by_cases hc : c
  · rw [if_pos hc]; exact hp hc
  · rw [if_neg hc]; exact hq hc

theorem Does.onlyIf {c : Prop} [Decidable c] {p : Prog σ ε Unit} (hp : c → p.Does Q) :
    (onlyIf c p).Does Q :=
  Does.ite hp fun _ => trivial

theorem does_read (g : σ → α) (h : Q fun s => (none, s)) : (read g : Prog σ ε α).Does Q :=
  ⟨h, fun _ => trivial⟩

theorem does_exchange (g : σ → α) (f : σ → σ) (h : Q fun s => (none, f s)) :
    (exchange g f : Prog σ ε α).Does Q :=
  ⟨h, fun _ => trivial⟩

theorem does_emit (e : σ → ε) (f : σ → σ) (h : Q fun s => (some (e s), f s)) :
    (emit e f).Does Q :=
  ⟨h, fun _ => trivial⟩

theorem does_forM {f : β → Prog σ ε Unit} {l : List β} (h : ∀ b ∈ l, (f b).Does Q) :
    (l.forM f).Does Q := by
  induction l with
  | nil => exact does_pure _
  | cons b l ih => exact Does.bind (h b (by simp)) fun _ => ih fun c hc => h c (by simp [hc])

theorem Does.withLock {p : Prog σ ε α} (h : p.Does Q) : (withLock p).Does Q :=
  Does.bind (p := lock) trivial fun _ => h.bind fun _ => Does.bind (p := unlock) trivial fun _ =>
    trivial

theorem Does.mono {Q' : (σ → Option ε × σ) → Prop} {p : Prog σ ε α} (h : p.Does Q)
    (hQ : ∀ f, Q f → Q' f) : p.Does Q' := by
  induction p with
  | ret a => trivial
  | act f k ih => exact ⟨hQ f h.1, fun s => ih s (h.2 s)⟩
  | acquire k ih => exact ih h
  | release k ih => exact ih h

theorem does_true (p : Prog σ ε α) : p.Does fun _ => True := by
  induction p with
  | ret a => trivial
  | act f k ih => exact ⟨trivial, ih⟩
  | acquire k ih => exact ih
  | release k ih => exact ih

/-- What every action preserves, the run preserves. -/
theorem Does.run {P : σ → Prop} {p : Prog σ ε α} (h : p.Does fun f => ∀ s, P s → P (f s).2) :
    ∀ s, P s → P (p.run s).2 := by
  induction p with
  | ret a => exact fun s hs => hs
  | act f k ih => exact fun s hs => ih s (h.2 s) _ (h.1 s hs)
  | acquire k ih => exact ih h
  | release k ih => exact ih h

/-- What every action may show, the run shows. -/
theorem Does.events {R : ε → Prop} {p : Prog σ ε α} (h : p.Does fun f => ∀ s, ∀ e ∈ (f s).1, R e)
    (s : σ) : ∀ e ∈ p.trace s, R e := by
  induction p generalizing s with
  | ret a => simp [trace]
  | act f k ih =>
      intro e he
      rcases List.mem_append.mp he with he | he
      · exact h.1 s e (by simpa using he)
      · exact ih s (h.2 s) _ e he
  | acquire k ih => exact ih h s
  | release k ih => exact ih h s

/-- No action of the program changes the part `π` of the state. -/
def Keeps (π : σ → γ) (p : Prog σ ε α) : Prop := p.Does fun f => ∀ s, π (f s).2 = π s

theorem Keeps.run {π : σ → γ} {p : Prog σ ε α} (h : p.Keeps π) (s : σ) :
    π (p.run s).2 = π s := by
  induction p generalizing s with
  | ret a => rfl
  | act f k ih => exact (ih s (h.2 s) _).trans (h.1 s)
  | acquire k ih => exact ih h s
  | release k ih => exact ih h s

@[simp] theorem keeps_pure (π : σ → γ) (a : α) : (pure a : Prog σ ε α).Keeps π := trivial

@[simp] theorem keeps_read (π : σ → γ) (g : σ → α) : (read g : Prog σ ε α).Keeps π :=
  does_read g fun _ => rfl

theorem Keeps.bind {π : σ → γ} {p : Prog σ ε α} {g : α → Prog σ ε β} (hp : p.Keeps π)
    (hg : ∀ a, (g a).Keeps π) : (p >>= g).Keeps π :=
  Does.bind hp hg

theorem Keeps.ite {π : σ → γ} {c : Prop} [Decidable c] {p q : Prog σ ε α} (hp : p.Keeps π)
    (hq : q.Keeps π) : (if c then p else q).Keeps π :=
  Does.ite (fun _ => hp) fun _ => hq

theorem Keeps.onlyIf {π : σ → γ} {c : Prop} [Decidable c] {p : Prog σ ε Unit} (hp : p.Keeps π) :
    (onlyIf c p).Keeps π :=
  Does.onlyIf fun _ => hp

theorem keeps_write {π : σ → γ} {f : σ → σ} (h : ∀ s, π (f s) = π s) :
    (write f : Prog σ ε Unit).Keeps π :=
  does_exchange _ f h

theorem keeps_emit {π : σ → γ} {e : σ → ε} {f : σ → σ} (h : ∀ s, π (f s) = π s) :
    (emit e f).Keeps π :=
  does_emit e f h

/-! ## Invariants with events -/

/-- The program keeps `P`, and where `P` holds all it shows satisfies `R`. -/
def Safe (P : σ → Prop) (R : ε → Prop) (p : Prog σ ε α) : Prop :=
  ∀ s, P s → (∀ e ∈ p.trace s, R e) ∧ P (p.run s).2

section Safe

variable {P : σ → Prop} {R : ε → Prop}

theorem safe_pure (a : α) : (pure a : Prog σ ε α).Safe P R := fun _ hs => ⟨by simp, hs⟩

theorem Safe.read_bind {f : σ → α} {g : α → Prog σ ε β} (h : ∀ s, P s → (g (f s)).Safe P R) :
    (read f >>= g).Safe P R := by
  intro s hs
  simpa using h s hs s hs

theorem safe_write {f : σ → σ} (h : ∀ s, P s → P (f s)) : (write f : Prog σ ε Unit).Safe P R :=
  fun s hs => ⟨by simp, h s hs⟩

theorem safe_emit {e : σ → ε} {f : σ → σ} (he : ∀ s, P s → R (e s)) (h : ∀ s, P s → P (f s)) :
    (emit e f).Safe P R :=
  fun s hs => ⟨by simpa using he s hs, h s hs⟩

theorem Safe.bind {p : Prog σ ε α} {g : α → Prog σ ε β} (hp : p.Safe P R)
    (hg : ∀ a, (g a).Safe P R) : (p >>= g).Safe P R := by
  intro s hs
  obtain ⟨hev, hs'⟩ := hp s hs
  obtain ⟨hev', hs''⟩ := hg (p.run s).1 _ hs'
  rw [trace_bind, run_bind]
  refine ⟨fun e he => ?_, hs''⟩
  rcases List.mem_append.mp he with he | he
  · exact hev e he
  · exact hev' e he

theorem Safe.ite {c : Prop} [Decidable c] {p q : Prog σ ε α} (hp : p.Safe P R)
    (hq : q.Safe P R) : (if c then p else q).Safe P R := by
  split
  · exact hp
  · exact hq

theorem Safe.onlyIf {c : Prop} [Decidable c] {p : Prog σ ε Unit} (hp : p.Safe P R) :
    (onlyIf c p).Safe P R :=
  Safe.ite hp (safe_pure ())

theorem safe_forM {f : β → Prog σ ε Unit} (h : ∀ b, (f b).Safe P R) (l : List β) :
    (l.forM f).Safe P R := by
  induction l with
  | nil => exact safe_pure ()
  | cons b l ih => exact Safe.bind (h b) fun _ => ih

theorem Safe.withLock {p : Prog σ ε α} (hp : p.Safe P R) : (withLock p).Safe P R := by
  intro s hs
  simpa using hp s hs

theorem Does.safe {p : Prog σ ε α}
    (h : p.Does fun f => ∀ s, P s → (∀ e ∈ (f s).1, R e) ∧ P (f s).2) : p.Safe P R := by
  induction p with
  | ret a => exact safe_pure a
  | act f k ih =>
      intro s hs
      obtain ⟨hev, hs'⟩ := h.1 s hs
      obtain ⟨hev', hs''⟩ := ih s (h.2 s) _ hs'
      refine ⟨fun e he => ?_, hs''⟩
      rcases List.mem_append.mp he with he | he
      · exact hev e (by simpa using he)
      · exact hev' e he
  | acquire k ih => exact ih h
  | release k ih => exact ih h

end Safe

/-! ## Invariants of the history -/

/-- The program keeps a relation between the events so far and the state. -/
def Carries (B : List ε → σ → Prop) (p : Prog σ ε α) : Prop :=
  ∀ d s, B d s → B (d ++ p.trace s) (p.run s).2

section Carries

variable {B : List ε → σ → Prop}

theorem carries_pure (a : α) : (pure a : Prog σ ε α).Carries B := fun d s h => by simpa using h

theorem Carries.bind {p : Prog σ ε α} {g : α → Prog σ ε β} (hp : p.Carries B)
    (hg : ∀ a, (g a).Carries B) : (p >>= g).Carries B := by
  intro d s h
  rw [trace_bind, run_bind, ← List.append_assoc]
  exact hg _ _ _ (hp d s h)

theorem Carries.ite {c : Prop} [Decidable c] {p q : Prog σ ε α} (hp : p.Carries B)
    (hq : q.Carries B) : (if c then p else q).Carries B := by
  split
  · exact hp
  · exact hq

end Carries

/-! ## What a program returns -/

/-- Whatever the state, the result satisfies `R`. -/
def Returns (R : α → Prop) (p : Prog σ ε α) : Prop := ∀ s, R (p.run s).1

theorem returns_pure {R : α → Prop} {a : α} (h : R a) : (pure a : Prog σ ε α).Returns R :=
  fun _ => h

theorem returns_bind {R : β → Prop} {p : Prog σ ε α} {g : α → Prog σ ε β}
    (h : ∀ a, (g a).Returns R) : (p >>= g).Returns R := by
  intro s
  rw [run_bind]
  exact h _ _

theorem Returns.ite {R : α → Prop} {c : Prop} [Decidable c] {p q : Prog σ ε α}
    (hp : p.Returns R) (hq : q.Returns R) : (if c then p else q).Returns R := by
  split
  · exact hp
  · exact hq

/-! ## The points of a run -/

/-- What a program has done, as far as another thread can tell. -/
inductive Mark (ε : Type) where
  | event (e : ε)
  | acquired
  | released
  deriving DecidableEq, Repr

/-- A place between two steps of a run: the rest of the program, the state, whether the program
holds the mutex, and what it has done so far. -/
structure Point (σ ε α : Type) where
  prog : Prog σ ε α
  state : σ
  held : Bool
  done : List (Mark ε)

/-- The program after `p`, at a point of `p`. -/
def Point.bind (x : Point σ ε α) (g : α → Prog σ ε β) : Point σ ε β :=
  ⟨x.prog >>= g, x.state, x.held, x.done⟩

/-- The run from the point before comes through the point `y`. -/
def Visits (y : Point σ ε α) : Prog σ ε α → σ → Bool → List (Mark ε) → Prop
  | ret a, s, b, d => y = ⟨ret a, s, b, d⟩
  | act f k, s, b, d =>
      y = ⟨act f k, s, b, d⟩ ∨ Visits y (k s) (f s).2 b (d ++ (f s).1.toList.map .event)
  | acquire k, s, b, d => y = ⟨acquire k, s, b, d⟩ ∨ Visits y k s true (d ++ [.acquired])
  | release k, s, b, d => y = ⟨release k, s, b, d⟩ ∨ Visits y k s false (d ++ [.released])

/-- The points of `p` followed by `g` are those of `p`, with `g` to come, and those of `g` after
the last point of `p`. -/
theorem visits_bind {p : Prog σ ε α} {g : α → Prog σ ε β} {y : Point σ ε β} {s : σ} {b : Bool}
    {d : List (Mark ε)} (h : Visits y (p >>= g) s b d) :
    (∃ x, Visits x p s b d ∧ y = x.bind g) ∨
      ∃ b' d', Visits ⟨ret (p.run s).1, (p.run s).2, b', d'⟩ p s b d ∧
        Visits y (g (p.run s).1) (p.run s).2 b' d' := by
  change Visits y (p.bind g) s b d at h
  induction p generalizing s b d with
  | ret a => exact .inr ⟨b, d, rfl, h⟩
  | act f k ih =>
      rcases h with rfl | h
      · exact .inl ⟨⟨act f k, s, b, d⟩, .inl rfl, rfl⟩
      · rcases ih s h with ⟨x, hx, rfl⟩ | ⟨b', d', hlast, hy⟩
        · exact .inl ⟨x, .inr hx, rfl⟩
        · exact .inr ⟨b', d', .inr hlast, hy⟩
  | acquire k ih =>
      rcases h with rfl | h
      · exact .inl ⟨⟨acquire k, s, b, d⟩, .inl rfl, rfl⟩
      · rcases ih h with ⟨x, hx, rfl⟩ | ⟨b', d', hlast, hy⟩
        · exact .inl ⟨x, .inr hx, rfl⟩
        · exact .inr ⟨b', d', .inr hlast, hy⟩
  | release k ih =>
      rcases h with rfl | h
      · exact .inl ⟨⟨release k, s, b, d⟩, .inl rfl, rfl⟩
      · rcases ih h with ⟨x, hx, rfl⟩ | ⟨b', d', hlast, hy⟩
        · exact .inl ⟨x, .inr hx, rfl⟩
        · exact .inr ⟨b', d', .inr hlast, hy⟩

/-- Before reading, or after it. -/
theorem visits_read_bind {f : σ → α} {g : α → Prog σ ε β} {y : Point σ ε β} {s : σ} {b : Bool}
    {d : List (Mark ε)} (h : Visits y (read f >>= g) s b d) :
    y = ⟨read f >>= g, s, b, d⟩ ∨ Visits y (g (f s)) s b d := by
  rcases h with rfl | h
  · exact .inl rfl
  · simp only [Option.toList_none, List.map_nil, List.append_nil] at h
    exact .inr h

/-- What a program has done stays done. -/
theorem Visits.done_mono {p : Prog σ ε α} {y : Point σ ε α} {s : σ} {b : Bool}
    {d : List (Mark ε)} (h : Visits y p s b d) : d <+: y.done := by
  induction p generalizing s b d with
  | ret a =>
      rcases h with rfl
      exact List.prefix_rfl
  | act f k ih =>
      rcases h with rfl | h
      · exact List.prefix_rfl
      · exact (List.prefix_append _ _).trans (ih s h)
  | acquire k ih =>
      rcases h with rfl | h
      · exact List.prefix_rfl
      · exact (List.prefix_append _ _).trans (ih h)
  | release k ih =>
      rcases h with rfl | h
      · exact List.prefix_rfl
      · exact (List.prefix_append _ _).trans (ih h)

/-- A program that neither takes nor leaves the mutex. -/
def LockFree : Prog σ ε α → Prop
  | ret _ => True
  | act _ k => ∀ s, (k s).LockFree
  | acquire _ => False
  | release _ => False

@[simp] theorem lockFree_pure (a : α) : (pure a : Prog σ ε α).LockFree := trivial

@[simp] theorem lockFree_read (g : σ → α) : (read g : Prog σ ε α).LockFree := fun _ => trivial

@[simp] theorem lockFree_write (f : σ → σ) : (write f : Prog σ ε Unit).LockFree := fun _ => trivial

@[simp] theorem lockFree_emit (e : σ → ε) (f : σ → σ) : (emit e f).LockFree := fun _ => trivial

theorem LockFree.bind {p : Prog σ ε α} {g : α → Prog σ ε β} (hp : p.LockFree)
    (hg : ∀ a, (g a).LockFree) : (p >>= g).LockFree := by
  change (p.bind g).LockFree
  induction p with
  | ret a => exact hg a
  | act f k ih => exact fun s => ih s (hp s)
  | acquire k => exact hp
  | release k => exact hp

theorem LockFree.ite {c : Prop} [Decidable c] {p q : Prog σ ε α} (hp : c → p.LockFree)
    (hq : ¬ c → q.LockFree) : (if c then p else q).LockFree := by
  by_cases hc : c
  · rw [if_pos hc]; exact hp hc
  · rw [if_neg hc]; exact hq hc

theorem LockFree.onlyIf {c : Prop} [Decidable c] {p : Prog σ ε Unit} (hp : p.LockFree) :
    (onlyIf c p).LockFree :=
  LockFree.ite (fun _ => hp) fun _ => trivial

/-- At the points of such a program the mutex is as before, and the marks added are events. -/
theorem LockFree.visits {p : Prog σ ε α} (hp : p.LockFree) {y : Point σ ε α} {s : σ} {b : Bool}
    {d : List (Mark ε)} (h : Visits y p s b d) :
    y.held = b ∧ ∃ es : List ε, y.done = d ++ es.map .event := by
  induction p generalizing s b d with
  | ret a =>
      rcases h with rfl
      exact ⟨rfl, [], by simp⟩
  | act f k ih =>
      rcases h with rfl | h
      · exact ⟨rfl, [], by simp⟩
      · obtain ⟨hheld, es, hes⟩ := ih s (hp s) h
        exact ⟨hheld, (f s).1.toList ++ es, by simp [hes]⟩
  | acquire k => exact absurd hp id
  | release k => exact absurd hp id

/-- At every point of a run the rest of the program does what the program does. -/
theorem Does.rest {p : Prog σ ε α} (hp : p.Does Q) {y : Point σ ε α} {s : σ} {b : Bool}
    {d : List (Mark ε)} (h : Visits y p s b d) : y.prog.Does Q := by
  induction p generalizing s b d with
  | ret a =>
      rcases h with rfl
      exact hp
  | act f k ih =>
      rcases h with rfl | h
      · exact hp
      · exact ih s (hp.2 s) h
  | acquire k ih =>
      rcases h with rfl | h
      · exact hp
      · exact ih hp h
  | release k ih =>
      rcases h with rfl | h
      · exact hp
      · exact ih hp h

/-- A part of the state that no action changes is the same at every point. -/
theorem Keeps.visits {π : σ → γ} {p : Prog σ ε α} (hp : p.Keeps π) {y : Point σ ε α} {s : σ}
    {b : Bool} {d : List (Mark ε)} (h : Visits y p s b d) : π y.state = π s := by
  induction p generalizing s b d with
  | ret a =>
      rcases h with rfl
      rfl
  | act f k ih =>
      rcases h with rfl | h
      · rfl
      · exact (ih s (hp.2 s) h).trans (hp.1 s)
  | acquire k ih =>
      rcases h with rfl | h
      · rfl
      · exact ih hp h
  | release k ih =>
      rcases h with rfl | h
      · rfl
      · exact ih hp h

/-- The marks of a point of a program that neither takes nor leaves the mutex are the marks from
before and events that its actions may show. -/
theorem Does.marks {P : ε → Prop} {p : Prog σ ε α} (hfree : p.LockFree)
    (hp : p.Does fun f => ∀ s, ∀ e ∈ (f s).1, P e) {y : Point σ ε α} {s : σ} {b : Bool}
    {d : List (Mark ε)} (h : Visits y p s b d) :
    ∃ es : List ε, y.done = d ++ es.map .event ∧ ∀ e ∈ es, P e := by
  induction p generalizing s b d with
  | ret a =>
      rcases h with rfl
      exact ⟨[], by simp, by simp⟩
  | act f k ih =>
      rcases h with rfl | h
      · exact ⟨[], by simp, by simp⟩
      · obtain ⟨es, hes, hP⟩ := ih s (hfree s) (hp.2 s) h
        refine ⟨(f s).1.toList ++ es, by simp [hes], fun e he => ?_⟩
        rcases List.mem_append.mp he with he | he
        · exact hp.1 s e (by simpa using he)
        · exact hP e he
  | acquire k => exact absurd hfree id
  | release k => exact absurd hfree id

/-- The points of a section under the mutex: its start, points with the mutex held, and the end. -/
theorem visits_withLock {p : Prog σ ε α} (hp : p.LockFree) {y : Point σ ε α} {s : σ} {b : Bool}
    {d : List (Mark ε)} (h : Visits y (withLock p) s b d) :
    y = ⟨withLock p, s, b, d⟩ ∨ y.held = true ∨ (∃ a, y.prog = ret a) ∧ .acquired ∈ y.done := by
  rcases h with rfl | h
  · exact .inl rfl
  · rcases visits_bind (p := p) h with ⟨x, hx, rfl⟩ | ⟨b', d', hlast, hy⟩
    · exact .inr (.inl (hp.visits hx).1)
    · obtain ⟨hheld, es, hdone⟩ := hp.visits hlast
      simp only at hheld hdone
      rcases hy with rfl | rfl
      · exact .inr (.inl hheld)
      · refine .inr (.inr ⟨⟨_, rfl⟩, ?_⟩)
        simp [hdone]

end Prog

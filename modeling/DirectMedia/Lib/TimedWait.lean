import DirectMedia.Lib.Lts
import Mathlib.Data.List.Basic

set_option autoImplicit false

/-! # Waiting for a condition until a deadline

Threads wait for conditions on a state they share with callbacks. A waiter looks at its condition,
reads the clock for its deadline, and from then on waits on a condition variable and looks again,
until it finds the condition or a wait has timed out. It looks without the mutex, and not again
after a time-out. A callback changes the state first and signals later, without the mutex.

A time-out is truthful if the condition did not hold when the deadline passed (`Waiter.Truthful`).
That is so in every run in which each signal finds the waiters it is for asleep and comes before
their deadline (`truthful_of_prompt`).
-/

/-- The conditions and callbacks: for conditions `κ` on a state `σ`, callbacks `γ`, signals to come
`δ` and condition variables `ν`. -/
structure WaitSpec (σ κ γ δ ν : Type) where
  /-- a look at a condition; `none` is an exception -/
  look : κ → σ → Option Bool
  /-- the condition variable on which it is waited for -/
  cond : κ → ν
  /-- the state after a callback and the signals to come; `none` for one that leaves at once -/
  react : γ → σ → Option (σ × List δ)
  /-- the condition variable that is signalled, if any, in the state there is by then -/
  emits : δ → σ → Option ν
  /-- a callback that brings a condition about signals it as long as it holds -/
  announces : ∀ {g x y ds k}, react g x = some (y, ds) → look k x ≠ some true →
    look k y = some true → ∃ d ∈ ds, ∀ z, look k z = some true → emits d z = some (cond k)

namespace TimedWait

def etimedout : Int := 110

/-- Where a waiter stands. -/
inductive Pc where
  /-- before the first look -/
  | entry
  /-- the first look has not found the condition -/
  | looked
  /-- before it takes the mutex -/
  | outside
  | locked
  | blocked
  /-- the wait is over, with this value -/
  | woken (err : Int)
  | relocked (err : Int)
  /-- before it looks again -/
  | unlocked (err : Int)
  | returned (result : Int)
  /-- a look has thrown an exception -/
  | threw
  deriving DecidableEq, Repr

/-- Waiting until the deadline, not woken yet. -/
def Pc.waiting : Pc → Bool
  | .outside | .locked | .blocked => true
  | _ => false

/-- The last look has not found the condition, and the waiter has not been woken since. -/
def Pc.unaware : Pc → Bool
  | .looked => true
  | pc => pc.waiting

/-- The value of the wait that is over; with 0 the waiter will look again. -/
def Pc.err : Pc → Option Int
  | .woken err | .relocked err | .unlocked err => some err
  | _ => none

/-- There is a deadline, and the call has not returned. -/
def Pc.timed : Pc → Bool
  | .outside | .locked | .blocked | .woken _ | .relocked _ | .unlocked _ => true
  | _ => false

/-- A call that waits. The last two fields are not the program's: what the last look has found, and
whether the condition held when the deadline passed. -/
structure Waiter (κ : Type) where
  wait : κ
  timeout : Int
  pc : Pc := .entry
  deadline : Int := 0
  lastLook : Bool := false
  atDeadline : Option Bool := none

/-- The shared state, the calls so far, the owners of the mutexes, the signals to come and the
clock. There is a mutex to every condition variable. -/
structure State (σ κ δ ν : Type) where
  shared : σ
  waiters : List (Waiter κ) := []
  owner : ν → Option Nat := fun _ => none
  signals : List δ := []
  now : Int := 0

/-- What a waiter does next. -/
inductive Move where
  | look
  | readClock (ok : Bool)
  | lock
  | block
  /-- a wake-up without a signal -/
  | spurious
  | timeOut
  | relock
  | unlock
  | lookAgain
  deriving DecidableEq, Repr

inductive Act (σ κ γ : Type) where
  | call (wait : κ) (timeout : Int)
  /-- a move of the waiter number `n` -/
  | turn (n : Nat) (move : Move)
  | react (g : γ)
  /-- the signal number `k` is given, and wakes these waiters -/
  | signal (k : Nat) (woken : List Nat)
  /-- another thread changes the state -/
  | change (f : σ → σ)
  | tick (d : Nat)

section Step

variable {σ κ γ δ ν : Type} (p : WaitSpec σ κ γ δ ν)

/-- The condition holds. -/
def Holds (k : κ) (x : σ) : Prop := p.look k x = some true

instance (k : κ) (x : σ) : Decidable (Holds p k x) := by
  unfold Holds
  infer_instance

/-- The waiter after a look that found `r`; `next` is where it goes on without the condition. -/
def Waiter.see (w : Waiter κ) (r : Option Bool) (next : Pc) : Waiter κ :=
  match r with
  | none => { w with pc := .threw }
  | some true => { w with pc := .returned 0, lastLook := true }
  | some false => { w with pc := next, lastLook := false }

/-- The clock shows `now`: has the deadline passed? -/
def Waiter.settle (x : σ) (now : Int) (w : Waiter κ) : Waiter κ :=
  if w.pc.timed = true ∧ w.atDeadline = none ∧ w.deadline ≤ now then
    { w with atDeadline := some (decide (Holds p w.wait x)) }
  else w

variable [DecidableEq ν]

/-- The waiters asleep on a condition variable. -/
def State.asleep (s : State σ κ δ ν) (c : ν) : List Nat :=
  (List.range s.waiters.length).filter fun n =>
    s.waiters[n]?.any fun w => w.pc = .blocked ∧ p.cond w.wait = c

/-- The waiter `n` becomes `w`. -/
def State.put (s : State σ κ δ ν) (n : Nat) (w : Waiter κ) : State σ κ δ ν :=
  { s with waiters := s.waiters.set n w }

/-- The mutex of `c` has a new owner. -/
def State.own (s : State σ κ δ ν) (c : ν) (owner : Option Nat) : State σ κ δ ν :=
  { s with owner := fun d => if d = c then owner else s.owner d }

/-- A move of the waiter `w`, which is number `n`. -/
def State.turn (s : State σ κ δ ν) (n : Nat) (w : Waiter κ) : Move → Option (State σ κ δ ν)
  | .look =>
      if w.pc = .entry then some (s.put n (w.see (p.look w.wait s.shared) .looked)) else none
  | .readClock ok =>
      if w.pc = .looked then
        if ok then
          let w := { w with pc := .outside, deadline := s.now + w.timeout }
          some (s.put n (w.settle p s.shared s.now))
        else some (s.put n { w with pc := .returned (-1) })
      else none
  | .lock =>
      if w.pc = .outside ∧ s.owner (p.cond w.wait) = none then
        some ((s.put n { w with pc := .locked }).own (p.cond w.wait) (some n))
      else none
  | .block =>
      if w.pc = .locked then
        some ((s.put n { w with pc := .blocked }).own (p.cond w.wait) none)
      else none
  | .spurious => if w.pc = .blocked then some (s.put n { w with pc := .woken 0 }) else none
  | .timeOut =>
      if w.pc = .blocked ∧ w.deadline ≤ s.now then
        some (s.put n { w with pc := .woken etimedout })
      else none
  | .relock =>
      match w.pc with
      | .woken err =>
          if s.owner (p.cond w.wait) = none then
            some ((s.put n { w with pc := .relocked err }).own (p.cond w.wait) (some n))
          else none
      | _ => none
  | .unlock =>
      match w.pc with
      | .relocked err => some ((s.put n { w with pc := .unlocked err }).own (p.cond w.wait) none)
      | _ => none
  | .lookAgain =>
      match w.pc with
      | .unlocked err =>
          if err = 0 then some (s.put n (w.see (p.look w.wait s.shared) .outside))
          else some (s.put n { w with pc := .returned err })
      | _ => none

/-- The waiters in `woken` go on. -/
def wake (woken : List Nat) (ws : List (Waiter κ)) : List (Waiter κ) :=
  ws.mapIdx fun n w => if n ∈ woken then { w with pc := .woken 0 } else w

/-- A signal wakes one waiter at least, if there are any. -/
def State.give (s : State σ κ δ ν) (k : Nat) (woken : List Nat) : Option (State σ κ δ ν) := do
  let d ← s.signals[k]?
  let s' := { s with signals := s.signals.eraseIdx k, waiters := wake woken s.waiters }
  match p.emits d s.shared with
  | none => if woken = [] then some s' else none
  | some c =>
      if (∀ n ∈ woken, n ∈ s.asleep p c) ∧ (s.asleep p c ≠ [] → woken ≠ []) then some s' else none

/-- One step. -/
def step (s : State σ κ δ ν) : Act σ κ γ → Option (State σ κ δ ν)
  | .call wait timeout =>
      some { s with waiters := s.waiters ++ [{ wait := wait, timeout := timeout }] }
  | .turn n move => (s.waiters[n]?).bind fun w => s.turn p n w move
  | .react g =>
      match p.react g s.shared with
      | none => some s
      | some (y, ds) => some { s with shared := y, signals := s.signals ++ ds }
  | .signal k woken => s.give p k woken
  | .change f => some { s with shared := f s.shared }
  | .tick d =>
      some
        { s with
          now := s.now + d
          waiters := s.waiters.map (Waiter.settle p s.shared (s.now + d)) }

end Step

/-! ## Truthful results, and the runs that have them -/

section Invariant

variable {σ κ γ δ ν : Type} (p : WaitSpec σ κ γ δ ν)

/-- The call returns 0 only if its last look has found the condition, and `ETIMEDOUT` only if the
condition did not hold when the deadline passed. -/
structure Waiter.Truthful (w : Waiter κ) : Prop where
  found : w.pc = .returned 0 → w.lastLook = true
  late : w.pc = .returned etimedout → w.atDeadline = some false

/-- While the condition holds, the signal will be given to its condition variable. -/
def Announces (d : δ) (k : κ) : Prop := ∀ z, Holds p k z → p.emits d z = some (p.cond k)

/-- The condition holds, and a signal for it is still to come. -/
def Due (x : σ) (ds : List δ) (k : κ) : Prop := Holds p k x ∧ ∃ d ∈ ds, Announces p d k

/-- The state changes from `x` to `y`, but no condition ceases to hold whose waiter was woken, had
it at its deadline and has not looked yet. -/
def Patient (ws : List (Waiter κ)) (y : σ) : Prop :=
  ∀ w ∈ ws, w.pc.err = some 0 → w.atDeadline = some true → Holds p w.wait y

/-- The last signal for a condition wakes every waiter who has not seen that it holds; no deadline
passes while a signal is still to come; no one but callbacks brings a condition about; and nothing
takes one from a waiter who was woken in time. -/
def Prompt (s : State σ κ δ ν) : Act σ κ γ → Prop
  | .turn n (.readClock _) =>
      ∀ w, s.waiters[n]? = some w → w.timeout ≤ 0 → ¬ Due p s.shared s.signals w.wait
  | .react g => ∀ y ds, p.react g s.shared = some (y, ds) → Patient p s.waiters y
  | .signal k woken => ∀ n w, s.waiters[n]? = some w → w.pc.unaware = true →
      Due p s.shared s.signals w.wait →
        n ∈ woken ∨ Due p s.shared (s.signals.eraseIdx k) w.wait
  | .change f => Patient p s.waiters (f s.shared) ∧
      ∀ w ∈ s.waiters, w.pc.unaware = true → Holds p w.wait (f s.shared) → Holds p w.wait s.shared
  | .tick d => ∀ w ∈ s.waiters, w.pc.waiting = true → s.now < w.deadline → w.deadline ≤ s.now + d →
      ¬ Due p s.shared s.signals w.wait
  | _ => True

/-- What is known of a waiter, wherever it stands. -/
structure Sound (x : σ) (ds : List δ) (now : Int) (w : Waiter κ) : Prop where
  announced : w.pc.unaware = true → Holds p w.wait x → Due p x ds w.wait
  waiting : w.pc.waiting = true → w.atDeadline ≠ some true
  alert : w.pc.err = some 0 → w.atDeadline = some true → Holds p w.wait x
  timedOut : ∀ err, w.pc.err = some err → err ≠ 0 → w.atDeadline = some false
  passed : w.pc.timed = true → w.deadline ≤ now → w.atDeadline ≠ none
  fresh : w.pc = .entry ∨ w.pc = .looked → w.atDeadline = none
  truthful : w.Truthful

variable {p} {x y : σ} {ds es : List δ} {now : Int} {w : Waiter κ}

/-- A move between places that are alike. -/
theorem Sound.goOn (h : Sound p x ds now w) {pc pc' : Pc} (hpc : w.pc = pc)
    (hunaware : pc'.unaware = pc.unaware) (hwaiting : pc'.waiting = pc.waiting)
    (herr : pc'.err = pc.err) (htimed : pc'.timed = true) (hw : pc.timed = true) :
    Sound p x ds now { w with pc := pc' } := by
  subst hpc
  refine ⟨fun hpc => h.announced (hunaware.symm.trans hpc),
    fun hpc => h.waiting (hwaiting.symm.trans hpc), fun hpc => h.alert (herr.symm.trans hpc),
    fun err hpc => h.timedOut err (herr.symm.trans hpc), fun _ => h.passed hw, ?_, ?_⟩
  · rintro (rfl | rfl)
    · cases htimed
    · cases htimed
  · constructor
    · rintro rfl
      cases htimed
    · rintro rfl
      cases htimed

/-- The call returns or throws. -/
theorem sound_left {pc : Pc} (hpc : pc = .threw ∨ ∃ result, pc = .returned result)
    (h : Waiter.Truthful { w with pc := pc }) : Sound p x ds now { w with pc := pc } := by
  rcases hpc with rfl | ⟨result, rfl⟩
  · exact ⟨fun h => (by cases h), fun h => (by cases h), fun h => (by cases h),
      fun _ h => (by cases h), fun h => (by cases h), fun h => by simp at h, h⟩
  · exact ⟨fun h => (by cases h), fun h => (by cases h), fun h => (by cases h),
      fun _ h => (by cases h), fun h => (by cases h), fun h => by simp at h, h⟩

/-- A look: the waiter has found the condition, or it goes on. -/
theorem sound_see {next : Pc}
    (h : p.look w.wait x = some false → Sound p x ds now { w with pc := next, lastLook := false }) :
    Sound p x ds now (w.see (p.look w.wait x) next) := by
  have hleft : ∀ {pc : Pc} {found : Bool}, pc = .threw ∨ pc = .returned 0 ∧ found = true →
      Sound p x ds now { w with pc := pc, lastLook := found } := by
    intro pc found hpc
    refine @sound_left _ _ _ _ _ _ _ _ _ { w with lastLook := found } pc ?_ ?_
    · rcases hpc with rfl | ⟨rfl, -⟩
      · exact .inl rfl
      · exact .inr ⟨0, rfl⟩
    · rcases hpc with rfl | ⟨rfl, rfl⟩
      · exact ⟨fun h => (by cases h), fun h => (by cases h)⟩
      · exact ⟨fun _ => rfl, fun h => (by cases h)⟩
  cases hr : p.look w.wait x with
  | none => exact hleft (.inl rfl)
  | some found =>
      cases found with
      | true => exact hleft (.inr ⟨rfl, rfl⟩)
      | false => exact h hr

theorem sound_looked (h : Sound p x ds now w) (hpc : w.pc = .entry)
    (hlook : p.look w.wait x = some false) :
    Sound p x ds now { w with pc := .looked, lastLook := false } where
  announced := fun _ hholds => by cases hlook.symm.trans hholds
  waiting := fun h => by cases h
  alert := fun h => by cases h
  timedOut := fun _ h => by cases h
  passed := fun h => by cases h
  fresh := fun _ => h.fresh (.inl hpc)
  truthful := ⟨fun h => (by cases h), fun h => (by cases h)⟩

/-- The clock is read: either the deadline is yet to come, or it has passed already. -/
theorem sound_deadline (h : Sound p x ds now w) (hpc : w.pc = .looked)
    (hdue : w.timeout ≤ 0 → ¬ Due p x ds w.wait) :
    Sound p x ds now
      (Waiter.settle p x now { w with pc := .outside, deadline := now + w.timeout }) := by
  have hfresh := h.fresh (.inr hpc)
  have hannounced := h.announced (by rw [hpc]; rfl)
  unfold Waiter.settle
  by_cases hpast : w.timeout ≤ 0
  · have hno : ¬ Holds p w.wait x := fun hholds => hdue hpast (hannounced hholds)
    rw [if_pos ⟨rfl, hfresh, by show now + w.timeout ≤ now; omega⟩]
    exact
      { announced := fun _ => hannounced
        waiting := fun _ => by simp [hno]
        alert := fun h => by cases h
        timedOut := fun _ h => by cases h
        passed := fun _ _ => by simp
        fresh := by rintro (h | h) <;> cases h
        truthful := ⟨fun h => (by cases h), fun h => (by cases h)⟩ }
  · have hfuture : ¬ now + w.timeout ≤ now := by omega
    rw [if_neg fun h => hfuture h.2.2]
    exact
      { announced := fun _ => hannounced
        waiting := fun _ => by simp [hfresh]
        alert := fun h => by cases h
        timedOut := fun _ h => by cases h
        passed := fun _ h => absurd h hfuture
        fresh := by rintro (h | h) <;> cases h
        truthful := ⟨fun h => (by cases h), fun h => (by cases h)⟩ }

/-- A blocked waiter goes on, before its deadline or after it. -/
theorem sound_woken (h : Sound p x ds now w) (hpc : w.pc = .blocked) {err : Int}
    (herr : err ≠ 0 → w.deadline ≤ now) : Sound p x ds now { w with pc := .woken err } := by
  have hlate : w.atDeadline ≠ some true := h.waiting (by rw [hpc]; rfl)
  have hpassed := h.passed (by rw [hpc]; rfl)
  refine ⟨fun h => (by cases h), fun h => (by cases h), fun _ h => absurd h hlate, ?_,
    fun _ => hpassed, fun h => by simp at h, ⟨fun h => (by cases h), fun h => (by cases h)⟩⟩
  rintro e he hne
  obtain rfl := Option.some.inj he
  cases hat : w.atDeadline with
  | none => exact absurd hat (hpassed (herr hne))
  | some found =>
      cases found with
      | true => exact absurd hat hlate
      | false => rfl

/-- The last look of a round has not found the condition. -/
theorem sound_round (h : Sound p x ds now w) (hpc : w.pc = .unlocked 0)
    (hlook : p.look w.wait x = some false) :
    Sound p x ds now { w with pc := .outside, lastLook := false } where
  announced := fun _ hholds => by cases hlook.symm.trans hholds
  waiting := fun _ hat => by
    have hholds := h.alert (by rw [hpc]; rfl) hat
    cases hlook.symm.trans hholds
  alert := fun h => by cases h
  timedOut := fun _ h => by cases h
  passed := fun _ => h.passed (by rw [hpc]; rfl)
  fresh := by rintro (h | h) <;> cases h
  truthful := ⟨fun h => (by cases h), fun h => (by cases h)⟩

/-- The state and the signals to come change under a waiter. -/
theorem Sound.under (h : Sound p x ds now w)
    (hdue : w.pc.unaware = true → (Holds p w.wait x → Due p x ds w.wait) → Holds p w.wait y →
      Due p y es w.wait)
    (hpatient : w.pc.err = some 0 → w.atDeadline = some true → Holds p w.wait y) :
    Sound p y es now w :=
  { h with
    announced := fun hpc => hdue hpc (h.announced hpc)
    alert := hpatient }

/-- The clock goes on. -/
theorem Sound.tick (h : Sound p x ds now w) {d : Nat}
    (hdue : w.pc.waiting = true → now < w.deadline → w.deadline ≤ now + d → ¬ Due p x ds w.wait) :
    Sound p x ds (now + d) (w.settle p x (now + d)) := by
  unfold Waiter.settle
  split
  case isFalse hnot =>
    refine { h with passed := fun htimed hpast => ?_ }
    exact fun hnone => hnot ⟨htimed, hnone, hpast⟩
  case isTrue hsettled =>
    obtain ⟨htimed, hnone, hpast⟩ := hsettled
    have hfuture : now < w.deadline := by
      by_contra hover
      exact h.passed htimed (by omega) hnone
    refine ⟨h.announced, fun hwait hat => ?_, fun _ hat => ?_, fun err herr hne => ?_,
      fun _ _ => by simp, fun hpc => ?_, ⟨fun hpc => ?_, fun hpc => ?_⟩⟩
    · have hunaware : w.pc.unaware = true := by
        cases hpc : w.pc <;> simp [hpc, Pc.waiting, Pc.unaware] at hwait ⊢
      have hholds : Holds p w.wait x := by simpa using hat
      exact hdue hwait hfuture hpast (h.announced hunaware hholds)
    · simpa using hat
    · exact absurd ((h.timedOut err herr hne).symm.trans hnone) (by simp)
    · rcases hpc with hpc | hpc
      · exact absurd htimed (by rw [show w.pc = .entry from hpc]; decide)
      · exact absurd htimed (by rw [show w.pc = .looked from hpc]; decide)
    · exact absurd htimed (by rw [show w.pc = .returned 0 from hpc]; decide)
    · exact absurd htimed (by rw [show w.pc = .returned etimedout from hpc]; decide)

/-- All waiters are as they should be. -/
def Fine (p : WaitSpec σ κ γ δ ν) (s : State σ κ δ ν) : Prop :=
  ∀ w ∈ s.waiters, Sound p s.shared s.signals s.now w

theorem sound_call (wait : κ) (timeout : Int) :
    Sound p x ds now { wait := wait, timeout := timeout } where
  announced := fun h => by cases h
  waiting := fun h => by cases h
  alert := fun h => by cases h
  timedOut := fun _ h => by cases h
  passed := fun h => by cases h
  fresh := fun _ => rfl
  truthful := ⟨fun h => (by cases h), fun h => (by cases h)⟩

theorem fine_react {s : State σ κ δ ν} {g : γ} {ds : List δ} (hs : Fine p s)
    (hg : p.react g s.shared = some (y, ds)) (hpatient : Patient p s.waiters y) :
    Fine p { s with shared := y, signals := s.signals ++ ds } := by
  refine fun w hw => (hs w hw).under (fun _ hdue hholds => ⟨hholds, ?_⟩) (hpatient w hw)
  by_cases hbefore : Holds p w.wait s.shared
  · obtain ⟨d, hd, hannounces⟩ := (hdue hbefore).2
    exact ⟨d, List.mem_append_left _ hd, hannounces⟩
  · obtain ⟨d, hd, hannounces⟩ := p.announces hg hbefore hholds
    exact ⟨d, List.mem_append_right _ hd, hannounces⟩

theorem fine_change {s : State σ κ δ ν} {f : σ → σ} (hs : Fine p s)
    (hf : Prompt p s (.change f : Act σ κ γ)) : Fine p { s with shared := f s.shared } := by
  obtain ⟨hpatient, hkeep⟩ := hf
  refine fun w hw => (hs w hw).under (fun hpc hdue hholds => ⟨hholds, ?_⟩) (hpatient w hw)
  exact (hdue (hkeep w hw hpc hholds)).2

variable [DecidableEq ν]

/-- A move changes nothing but the waiter and a mutex. -/
theorem sound_turn {s t : State σ κ δ ν} {n : Nat} {m : Move} (hw : s.waiters[n]? = some w)
    (h : Sound p s.shared s.signals s.now w) (hm : Prompt p s (.turn n m))
    (ht : s.turn p n w m = some t) :
    (t.shared = s.shared ∧ t.signals = s.signals ∧ t.now = s.now) ∧
      ∃ v, t.waiters = s.waiters.set n v ∧ Sound p s.shared s.signals s.now v := by
  unfold State.turn at ht
  cases m with
  | look =>
      simp only [Option.ite_none_right_eq_some, Option.some.injEq] at ht
      obtain ⟨hpc, rfl⟩ := ht
      exact ⟨⟨rfl, rfl, rfl⟩, _, rfl, sound_see (sound_looked h hpc)⟩
  | readClock ok =>
      cases ok with
      | true =>
          simp only [if_true, Option.ite_none_right_eq_some, Option.some.injEq] at ht
          obtain ⟨hpc, rfl⟩ := ht
          -- the deadline may have passed already, but then nothing is due
          exact ⟨⟨rfl, rfl, rfl⟩, _, rfl, sound_deadline h hpc (hm w hw)⟩
      | false =>
          -- the wait returns with an error that is neither 0 nor `etimedout`
          simp only [Bool.false_eq_true, if_false, Option.ite_none_right_eq_some,
            Option.some.injEq] at ht
          obtain ⟨hpc, rfl⟩ := ht
          refine ⟨⟨rfl, rfl, rfl⟩, _, rfl, sound_left (.inr ⟨_, rfl⟩) ?_⟩
          exact ⟨fun h => by simp at h, fun h => by simp [etimedout] at h⟩
  | lock =>
      simp only [Option.ite_none_right_eq_some, Option.some.injEq] at ht
      obtain ⟨⟨hpc, -⟩, rfl⟩ := ht
      exact ⟨⟨rfl, rfl, rfl⟩, _, rfl, h.goOn hpc rfl rfl rfl rfl rfl⟩
  | block =>
      simp only [Option.ite_none_right_eq_some, Option.some.injEq] at ht
      obtain ⟨hpc, rfl⟩ := ht
      exact ⟨⟨rfl, rfl, rfl⟩, _, rfl, h.goOn hpc rfl rfl rfl rfl rfl⟩
  | spurious =>
      simp only [Option.ite_none_right_eq_some, Option.some.injEq] at ht
      obtain ⟨hpc, rfl⟩ := ht
      exact ⟨⟨rfl, rfl, rfl⟩, _, rfl, sound_woken h hpc fun h => absurd rfl h⟩
  | timeOut =>
      simp only [Option.ite_none_right_eq_some, Option.some.injEq] at ht
      obtain ⟨⟨hpc, hpast⟩, rfl⟩ := ht
      exact ⟨⟨rfl, rfl, rfl⟩, _, rfl, sound_woken h hpc fun _ => hpast⟩
  | relock =>
      cases hpc : w.pc with
      | woken err =>
          simp only [hpc, Option.ite_none_right_eq_some, Option.some.injEq] at ht
          obtain ⟨-, rfl⟩ := ht
          exact ⟨⟨rfl, rfl, rfl⟩, _, rfl, h.goOn hpc rfl rfl rfl rfl rfl⟩
      | _ => simp [hpc] at ht
  | unlock =>
      cases hpc : w.pc with
      | relocked err =>
          simp only [hpc, Option.some.injEq] at ht
          obtain rfl := ht
          exact ⟨⟨rfl, rfl, rfl⟩, _, rfl, h.goOn hpc rfl rfl rfl rfl rfl⟩
      | _ => simp [hpc] at ht
  | lookAgain =>
      cases hpc : w.pc with
      | unlocked err =>
          simp only [hpc] at ht
          split at ht
          case isTrue hzero =>
            obtain rfl := Option.some.inj ht
            subst hzero
            exact ⟨⟨rfl, rfl, rfl⟩, _, rfl, sound_see (sound_round h hpc)⟩
          case isFalse hne =>
            -- an error ends the wait without another look
            obtain rfl := Option.some.inj ht
            refine ⟨⟨rfl, rfl, rfl⟩, _, rfl, sound_left (.inr ⟨_, rfl⟩) ⟨fun h => ?_, fun _ => ?_⟩⟩
            · exact absurd (Pc.returned.inj h) hne
            · exact h.timedOut err (by rw [hpc]; rfl) hne
      | _ => simp [hpc] at ht

theorem fine_turn {s t : State σ κ δ ν} {n : Nat} {m : Move} (hs : Fine p s)
    (hm : Prompt p s (.turn n m)) (ht : step p s (.turn n m) = some t) : Fine p t := by
  obtain ⟨w, hw, ht⟩ := Option.bind_eq_some_iff.mp ht
  obtain ⟨⟨hshared, hsignals, hnow⟩, v, hv, hsound⟩ :=
    sound_turn hw (hs w (List.mem_of_getElem? hw)) hm ht
  intro u hu
  rw [hshared, hsignals, hnow]
  rw [hv] at hu
  rcases List.mem_or_eq_of_mem_set hu with hu | rfl
  · exact hs u hu
  · exact hsound

/-- A signal only wakes waiters that are asleep. -/
theorem give_eq {s t : State σ κ δ ν} {k : Nat} {woken : List Nat}
    (ht : s.give p k woken = some t) :
    t = { s with signals := s.signals.eraseIdx k, waiters := wake woken s.waiters } ∧
      ∀ n ∈ woken, ∀ w, s.waiters[n]? = some w → w.pc = .blocked := by
  obtain ⟨d, -, ht⟩ := Option.bind_eq_some_iff.mp ht
  cases hc : p.emits d s.shared with
  | none =>
      simp only [hc, Option.ite_none_right_eq_some, Option.some.injEq] at ht
      obtain ⟨rfl, rfl⟩ := ht
      exact ⟨rfl, by simp⟩
  | some c =>
      simp only [hc, Option.ite_none_right_eq_some, Option.some.injEq] at ht
      obtain ⟨⟨hasleep, -⟩, rfl⟩ := ht
      refine ⟨rfl, fun n hn w hw => ?_⟩
      have hmem := (List.mem_filter.mp (hasleep n hn)).2
      rw [hw] at hmem
      have hboth : w.pc = .blocked ∧ p.cond w.wait = c := by simpa using hmem
      exact hboth.1

theorem fine_signal {s t : State σ κ δ ν} {k : Nat} {woken : List Nat} (hs : Fine p s)
    (hsignal : Prompt p s (.signal k woken : Act σ κ γ)) (ht : s.give p k woken = some t) :
    Fine p t := by
  obtain ⟨rfl, hblocked⟩ := give_eq ht
  intro w hw
  obtain ⟨n, hn, rfl⟩ := List.mem_mapIdx.mp hw
  have hv := List.getElem?_eq_getElem hn
  generalize s.waiters[n] = v at hv
  have hsound := hs v (List.mem_of_getElem? hv)
  split
  case isTrue hwoken =>
    have hstill := sound_woken hsound (hblocked n hwoken v hv) fun h => absurd (Eq.refl (0 : Int)) h
    exact hstill.under (fun h => by cases h) hstill.alert
  case isFalse hnot =>
    refine hsound.under (fun hpc hdue hholds => ?_) hsound.alert
    exact (hsignal n v hv hpc (hdue hholds)).resolve_left hnot

theorem fine_step {s t : State σ κ δ ν} {a : Act σ κ γ} (ha : Prompt p s a) (hs : Fine p s)
    (ht : step p s a = some t) : Fine p t := by
  cases a with
  | call wait timeout =>
      obtain rfl := Option.some.inj ht
      intro w hw
      rcases List.mem_append.mp hw with hw | hw
      · exact hs w hw
      · obtain rfl := List.mem_singleton.mp hw
        exact sound_call wait timeout
  | turn n m => exact fine_turn hs ha ht
  | react g =>
      cases hg : p.react g s.shared with
      | none =>
          simp only [step, hg, Option.some.injEq] at ht
          exact ht ▸ hs
      | some r =>
          obtain ⟨y, ds⟩ := r
          simp only [step, hg, Option.some.injEq] at ht
          exact ht ▸ fine_react hs hg (ha y ds hg)
  | signal k woken => exact fine_signal hs ha ht
  | change f =>
      obtain rfl := Option.some.inj ht
      exact fine_change hs ha
  | tick d =>
      obtain rfl := Option.some.inj ht
      intro w hw
      obtain ⟨v, hv, rfl⟩ := List.mem_map.mp hw
      exact (hs v hv).tick (ha v hv)

/-- In a run whose steps are all prompt, every result is truthful. -/
theorem truthful_of_prompt {s t : State σ κ δ ν} {as : List (Act σ κ γ)} (hs : s.waiters = [])
    (has : Lts.Along (step p) (Prompt p) s as) (ht : Lts.exec (step p) s as = some t) :
    ∀ w ∈ t.waiters, w.Truthful := by
  have hfine : Fine p s := by
    rw [Fine, hs]
    simp
  exact fun w hw =>
    (has.invariant (fun _ _ _ ha hs ht => fine_step ha hs ht) hfine ht w hw).truthful

end Invariant

/-! ## What a wait finds -/

section Finds

variable {σ κ γ δ ν : Type} (p : WaitSpec σ κ γ δ ν)

/-- The waiter is still in the same call, and if it has returned 0 now it has found its condition
in the state `x`. -/
def Follows (x : σ) (w v : Waiter κ) : Prop :=
  v.wait = w.wait ∧ (v.pc = .returned 0 → w.pc = .returned 0 ∨ Holds p w.wait x)

variable {p} {x : σ} {w : Waiter κ}

theorem follows_goOn {v : Waiter κ} (hwait : v.wait = w.wait) (hpc : v.pc ≠ .returned 0) :
    Follows p x w v :=
  ⟨hwait, fun h => absurd h hpc⟩

theorem follows_see {next : Pc} (hnext : next ≠ .returned 0) :
    Follows p x w (w.see (p.look w.wait x) next) := by
  cases hr : p.look w.wait x with
  | none => exact follows_goOn rfl (by simp [Waiter.see])
  | some found =>
      cases found with
      | true => exact ⟨rfl, fun _ => .inr hr⟩
      | false => exact follows_goOn rfl hnext

theorem settle_same (x : σ) (now : Int) (w : Waiter κ) :
    (Waiter.settle p x now w).wait = w.wait ∧ (Waiter.settle p x now w).pc = w.pc := by
  unfold Waiter.settle
  split
  · exact ⟨rfl, rfl⟩
  · exact ⟨rfl, rfl⟩

variable [DecidableEq ν]

theorem follows_turn {s t : State σ κ δ ν} {n : Nat} {m : Move} (ht : s.turn p n w m = some t) :
    t.shared = s.shared ∧ ∃ v, t.waiters = s.waiters.set n v ∧ Follows p s.shared w v := by
  unfold State.turn at ht
  cases m with
  | look =>
      simp only [Option.ite_none_right_eq_some, Option.some.injEq] at ht
      obtain ⟨hpc, rfl⟩ := ht
      exact ⟨rfl, _, rfl, follows_see (by simp)⟩
  | readClock ok =>
      cases ok with
      | true =>
          simp only [if_true, Option.ite_none_right_eq_some, Option.some.injEq] at ht
          obtain ⟨hpc, rfl⟩ := ht
          refine ⟨rfl, _, rfl, ?_⟩
          obtain ⟨hwait, hsame⟩ := settle_same (p := p) s.shared s.now
            { w with pc := .outside, deadline := s.now + w.timeout }
          exact follows_goOn hwait (by rw [hsame]; simp)
      | false =>
          simp only [Bool.false_eq_true, if_false, Option.ite_none_right_eq_some,
            Option.some.injEq] at ht
          obtain ⟨hpc, rfl⟩ := ht
          exact ⟨rfl, _, rfl, follows_goOn rfl (by simp)⟩
  | lock =>
      simp only [Option.ite_none_right_eq_some, Option.some.injEq] at ht
      obtain ⟨-, rfl⟩ := ht
      exact ⟨rfl, _, rfl, follows_goOn rfl (by simp)⟩
  | block =>
      simp only [Option.ite_none_right_eq_some, Option.some.injEq] at ht
      obtain ⟨-, rfl⟩ := ht
      exact ⟨rfl, _, rfl, follows_goOn rfl (by simp)⟩
  | spurious =>
      simp only [Option.ite_none_right_eq_some, Option.some.injEq] at ht
      obtain ⟨-, rfl⟩ := ht
      exact ⟨rfl, _, rfl, follows_goOn rfl (by simp)⟩
  | timeOut =>
      simp only [Option.ite_none_right_eq_some, Option.some.injEq] at ht
      obtain ⟨-, rfl⟩ := ht
      exact ⟨rfl, _, rfl, follows_goOn rfl (by simp)⟩
  | relock =>
      cases hpc : w.pc with
      | woken err =>
          simp only [hpc, Option.ite_none_right_eq_some, Option.some.injEq] at ht
          obtain ⟨-, rfl⟩ := ht
          exact ⟨rfl, _, rfl, follows_goOn rfl (by simp)⟩
      | _ => simp [hpc] at ht
  | unlock =>
      cases hpc : w.pc with
      | relocked err =>
          simp only [hpc, Option.some.injEq] at ht
          obtain rfl := ht
          exact ⟨rfl, _, rfl, follows_goOn rfl (by simp)⟩
      | _ => simp [hpc] at ht
  | lookAgain =>
      cases hpc : w.pc with
      | unlocked err =>
          simp only [hpc] at ht
          split at ht
          · obtain rfl := Option.some.inj ht
            exact ⟨rfl, _, rfl, follows_see (by simp)⟩
          case isFalse hne =>
            obtain rfl := Option.some.inj ht
            exact ⟨rfl, _, rfl, follows_goOn rfl fun h => hne (Pc.returned.inj h)⟩
      | _ => simp [hpc] at ht

/-- Where a step finds the waiters it leaves behind. -/
theorem follows_step {s t : State σ κ δ ν} {a : Act σ κ γ}
    (hcall : ∀ wait timeout, a ≠ .call wait timeout) (ht : step p s a = some t) {n : Nat}
    {v : Waiter κ} (hv : t.waiters[n]? = some v) :
    ∃ w, s.waiters[n]? = some w ∧ Follows p s.shared w v := by
  cases a with
  | call wait timeout => exact absurd rfl (hcall wait timeout)
  | turn m move =>
      obtain ⟨w, hw, ht⟩ := Option.bind_eq_some_iff.mp ht
      obtain ⟨-, u, hu, hfollows⟩ := follows_turn ht
      rw [hu] at hv
      by_cases hn : m = n
      · subst hn
        rw [List.getElem?_set_self (List.getElem?_eq_some_iff.mp hw).1] at hv
        obtain rfl := Option.some.inj hv
        exact ⟨w, hw, hfollows⟩
      · rw [List.getElem?_set_ne hn] at hv
        exact ⟨v, hv, rfl, .inl⟩
  | react g =>
      have hsame : t.waiters = s.waiters := by
        cases hg : p.react g s.shared with
        | none =>
            simp only [step, hg, Option.some.injEq] at ht
            rw [ht]
        | some r =>
            simp only [step, hg, Option.some.injEq] at ht
            rw [← ht]
      rw [hsame] at hv
      exact ⟨v, hv, rfl, .inl⟩
  | signal k woken =>
      obtain ⟨rfl, -⟩ := give_eq ht
      obtain ⟨w, hw, rfl⟩ := Option.map_eq_some_iff.mp (by simpa [wake] using hv)
      refine ⟨w, hw, ?_⟩
      split
      · exact follows_goOn rfl (by simp)
      · exact ⟨rfl, .inl⟩
  | change f =>
      obtain rfl := Option.some.inj ht
      exact ⟨v, hv, rfl, .inl⟩
  | tick d =>
      obtain rfl := Option.some.inj ht
      obtain ⟨w, hw, rfl⟩ := Option.map_eq_some_iff.mp (by simpa using hv)
      obtain ⟨hwait, hpc⟩ := settle_same (p := p) s.shared (s.now + d) w
      exact ⟨w, hw, hwait, fun h => .inl (hpc ▸ h)⟩

end Finds

end TimedWait

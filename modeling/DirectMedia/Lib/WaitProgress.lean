import DirectMedia.Lib.Progress
import DirectMedia.Lib.TimedWait

set_option autoImplicit false

/-! # Waits come to an end

Of the system of `TimedWait`, in every run and whatever the conditions: a mutex has an owner only
while that waiter is in its section (`Exclusive`), so it is left with the owner's next move; every
move of a waiter brings it nearer to its end, but for a wake-up, which takes it back by at most one
round (`turns_le`); and a wait can come to its end by the moves of the waiters and the clock alone
(`Exclusive.ends`).
-/

namespace TimedWait

variable {σ κ γ δ ν : Type} {p : WaitSpec σ κ γ δ ν}

/-! ## What a move does -/

/-- In the section under the mutex. -/
def Pc.inside : Pc → Bool
  | .locked | .relocked _ => true
  | _ => false

/-- The call has returned, or thrown an exception. -/
def Pc.over : Pc → Bool
  | .returned _ | .threw => true
  | _ => false

/-- The moves from place to place. -/
inductive Goes : Pc → Move → Pc → Prop
  | look {pc : Pc} (h : pc = .looked ∨ pc.over = true) : Goes .entry .look pc
  | readClock : Goes .looked (.readClock true) .outside
  | noClock : Goes .looked (.readClock false) (.returned (-1))
  | lock : Goes .outside .lock .locked
  | block : Goes .locked .block .blocked
  | spurious : Goes .blocked .spurious (.woken 0)
  | timeOut : Goes .blocked .timeOut (.woken etimedout)
  | relock (err : Int) : Goes (.woken err) .relock (.relocked err)
  | unlock (err : Int) : Goes (.relocked err) .unlock (.unlocked err)
  | lookAgain {pc : Pc} (h : pc = .outside ∨ pc.over = true) : Goes (.unlocked 0) .lookAgain pc
  | giveUp {err : Int} (h : err ≠ 0) : Goes (.unlocked err) .lookAgain (.returned err)

/-- The owner of the mutex after a move of the waiter `n`. -/
def Move.owner (n : Nat) (owner : Option Nat) : Move → Option Nat
  | .lock | .relock => some n
  | .block | .unlock => none
  | _ => owner

variable [DecidableEq ν]

/-- What the move `m` of the waiter `w`, which is number `n`, makes of the system. -/
structure Moved (p : WaitSpec σ κ γ δ ν) (s : State σ κ δ ν) (n : Nat) (w : Waiter κ) (m : Move)
    (pc : Pc) (t : State σ κ δ ν) : Prop where
  goes : Goes w.pc m pc
  waiter : ∃ v, t.waiters = s.waiters.set n v ∧ v.wait = w.wait ∧ v.pc = pc
  shared : t.shared = s.shared
  owner : ∀ d, t.owner d =
    if d = p.cond w.wait then m.owner n (s.owner d) else s.owner d
  /-- a mutex is taken only when it is free -/
  free : m = .lock ∨ m = .relock → s.owner (p.cond w.wait) = none

theorem put_owner (s : State σ κ δ ν) (n : Nat) (v : Waiter κ) (c d : ν) :
    (s.put n v).owner d = if d = c then s.owner d else s.owner d :=
  (ite_self _).symm

theorem see_goes (w : Waiter κ) (r : Option Bool) (next : Pc) :
    (w.see r next).wait = w.wait ∧ ((w.see r next).pc = next ∨ (w.see r next).pc.over = true) := by
  cases r with
  | none => exact ⟨rfl, .inr rfl⟩
  | some found =>
      cases found with
      | true => exact ⟨rfl, .inr rfl⟩
      | false => exact ⟨rfl, .inl rfl⟩

/-- **The moves of a waiter.** -/
theorem turn_moved {s t : State σ κ δ ν} {n : Nat} {w : Waiter κ} {m : Move}
    (ht : s.turn p n w m = some t) : ∃ pc, Moved p s n w m pc t := by
  unfold State.turn at ht
  cases m with
  | look =>
      simp only [Option.ite_none_right_eq_some, Option.some.injEq] at ht
      obtain ⟨hpc, rfl⟩ := ht
      obtain ⟨hwait, hnext⟩ := see_goes w (p.look w.wait s.shared) .looked
      exact ⟨_, hpc ▸ .look hnext, ⟨_, rfl, hwait, rfl⟩, rfl, put_owner s n _ _, by simp⟩
  | readClock ok =>
      cases ok with
      | true =>
          simp only [if_true, Option.ite_none_right_eq_some, Option.some.injEq] at ht
          obtain ⟨hpc, rfl⟩ := ht
          obtain ⟨hwait, hsame⟩ := settle_same (p := p) s.shared s.now
            { w with pc := .outside, deadline := s.now + w.timeout }
          exact ⟨.outside, hpc ▸ .readClock, ⟨_, rfl, hwait, hsame⟩, rfl, put_owner s n _ _,
            by simp⟩
      | false =>
          simp only [Bool.false_eq_true, if_false, Option.ite_none_right_eq_some,
            Option.some.injEq] at ht
          obtain ⟨hpc, rfl⟩ := ht
          exact ⟨_, hpc ▸ .noClock, ⟨_, rfl, rfl, rfl⟩, rfl, put_owner s n _ _, by simp⟩
  | lock =>
      simp only [Option.ite_none_right_eq_some, Option.some.injEq] at ht
      obtain ⟨⟨hpc, hfree⟩, rfl⟩ := ht
      exact ⟨_, hpc ▸ .lock, ⟨_, rfl, rfl, rfl⟩, rfl, fun _ => rfl, fun _ => hfree⟩
  | block =>
      simp only [Option.ite_none_right_eq_some, Option.some.injEq] at ht
      obtain ⟨hpc, rfl⟩ := ht
      exact ⟨_, hpc ▸ .block, ⟨_, rfl, rfl, rfl⟩, rfl, fun _ => rfl, by simp⟩
  | spurious =>
      simp only [Option.ite_none_right_eq_some, Option.some.injEq] at ht
      obtain ⟨hpc, rfl⟩ := ht
      exact ⟨_, hpc ▸ .spurious, ⟨_, rfl, rfl, rfl⟩, rfl, put_owner s n _ _, by simp⟩
  | timeOut =>
      simp only [Option.ite_none_right_eq_some, Option.some.injEq] at ht
      obtain ⟨⟨hpc, -⟩, rfl⟩ := ht
      exact ⟨_, hpc ▸ .timeOut, ⟨_, rfl, rfl, rfl⟩, rfl, put_owner s n _ _, by simp⟩
  | relock =>
      cases hpc : w.pc with
      | woken err =>
          simp only [hpc, Option.ite_none_right_eq_some, Option.some.injEq] at ht
          obtain ⟨hfree, rfl⟩ := ht
          exact ⟨_, hpc ▸ .relock err, ⟨_, rfl, rfl, rfl⟩, rfl, fun _ => rfl, fun _ => hfree⟩
      | _ => simp [hpc] at ht
  | unlock =>
      cases hpc : w.pc with
      | relocked err =>
          simp only [hpc, Option.some.injEq] at ht
          obtain rfl := ht
          exact ⟨_, hpc ▸ .unlock err, ⟨_, rfl, rfl, rfl⟩, rfl, fun _ => rfl, by simp⟩
      | _ => simp [hpc] at ht
  | lookAgain =>
      cases hpc : w.pc with
      | unlocked err =>
          simp only [hpc] at ht
          split at ht
          case isTrue hzero =>
            obtain rfl := Option.some.inj ht
            subst hzero
            obtain ⟨hwait, hnext⟩ := see_goes w (p.look w.wait s.shared) .outside
            exact ⟨_, hpc ▸ .lookAgain hnext, ⟨_, rfl, hwait, rfl⟩, rfl, put_owner s n _ _,
              by simp⟩
          case isFalse hne =>
            obtain rfl := Option.some.inj ht
            exact ⟨_, hpc ▸ .giveUp hne, ⟨_, rfl, rfl, rfl⟩, rfl, put_owner s n _ _, by simp⟩
      | _ => simp [hpc] at ht

/-! ## Who holds a mutex -/

/-- The owner of a mutex is the waiter in its section: there is at most one, and nobody else holds
it. -/
def Exclusive (p : WaitSpec σ κ γ δ ν) (s : State σ κ δ ν) : Prop :=
  ∀ c n, s.owner c = some n ↔
    ∃ w, s.waiters[n]? = some w ∧ p.cond w.wait = c ∧ w.pc.inside = true

omit [DecidableEq ν] in
/-- A change that takes no waiter into its section or out of it. -/
theorem Exclusive.congr {s t : State σ κ δ ν} (h : Exclusive p s) (howner : t.owner = s.owner)
    (hwaiters : ∀ n : Nat, (t.waiters[n]?.map fun w => (w.wait, w.pc.inside)) =
      s.waiters[n]?.map fun w => (w.wait, w.pc.inside)) : Exclusive p t := by
  have hsection : ∀ (u : State σ κ δ ν) (c : ν) (n : Nat),
      (∃ w, u.waiters[n]? = some w ∧ p.cond w.wait = c ∧ w.pc.inside = true) ↔
        ∃ r ∈ u.waiters[n]?.map fun w => (w.wait, w.pc.inside), p.cond r.1 = c ∧ r.2 = true := by
    intro u c n
    simp only [Option.mem_def, Option.map_eq_some_iff]
    constructor
    · rintro ⟨w, hw, hr⟩
      exact ⟨_, ⟨w, hw, rfl⟩, hr⟩
    · rintro ⟨_, ⟨w, hw, rfl⟩, hr⟩
      exact ⟨w, hw, hr⟩
  intro c n
  rw [howner, h c n, hsection, hsection, hwaiters]

/-- A mutex is taken by a waiter that goes into its section, and left by one that goes out. -/
theorem Goes.inside {pc pc' : Pc} {m : Move} (h : Goes pc m pc') :
    (m = .lock ∨ m = .relock) ∧ pc.inside = false ∧ pc'.inside = true ∨
    (m = .block ∨ m = .unlock) ∧ pc.inside = true ∧ pc'.inside = false ∨
    (∀ n o, m.owner n o = o) ∧ pc.inside = false ∧ pc'.inside = false := by
  have hover : ∀ {pc : Pc}, pc = .looked ∨ pc.over = true → pc.inside = false := by
    intro pc hpc
    cases pc <;> simp_all [Pc.over, Pc.inside]
  have hover' : ∀ {pc : Pc}, pc = .outside ∨ pc.over = true → pc.inside = false := by
    intro pc hpc
    cases pc <;> simp_all [Pc.over, Pc.inside]
  cases h with
  | look hpc => exact .inr (.inr ⟨fun _ _ => rfl, rfl, hover hpc⟩)
  | readClock => exact .inr (.inr ⟨fun _ _ => rfl, rfl, rfl⟩)
  | noClock => exact .inr (.inr ⟨fun _ _ => rfl, rfl, rfl⟩)
  | lock => exact .inl ⟨.inl rfl, rfl, rfl⟩
  | block => exact .inr (.inl ⟨.inl rfl, rfl, rfl⟩)
  | spurious => exact .inr (.inr ⟨fun _ _ => rfl, rfl, rfl⟩)
  | timeOut => exact .inr (.inr ⟨fun _ _ => rfl, rfl, rfl⟩)
  | relock err => exact .inl ⟨.inr rfl, rfl, rfl⟩
  | unlock err => exact .inr (.inl ⟨.inr rfl, rfl, rfl⟩)
  | lookAgain hpc => exact .inr (.inr ⟨fun _ _ => rfl, rfl, hover' hpc⟩)
  | giveUp => exact .inr (.inr ⟨fun _ _ => rfl, rfl, rfl⟩)

theorem Exclusive.moved {s t : State σ κ δ ν} {n : Nat} {w : Waiter κ} {m : Move} {pc : Pc}
    (h : Exclusive p s) (hw : s.waiters[n]? = some w) (ht : Moved p s n w m pc t) :
    Exclusive p t := by
  obtain ⟨v, hwaiters, hwait, rfl⟩ := ht.waiter
  have hlt := (List.getElem?_eq_some_iff.mp hw).1
  have hself : t.waiters[n]? = some v := by rw [hwaiters, List.getElem?_set_self hlt]
  have hothers : ∀ k, k ≠ n → t.waiters[k]? = s.waiters[k]? := fun k hk => by
    rw [hwaiters, List.getElem?_set_ne hk.symm]
  intro c k
  rw [ht.owner]
  by_cases hc : c = p.cond w.wait
  · subst hc
    rw [if_pos rfl]
    -- only the waiter itself can have been the owner, or be it now
    rcases ht.goes.inside with ⟨hm, hbefore, hafter⟩ | ⟨hm, hbefore, hafter⟩ | ⟨hm, hbefore, hafter⟩
    · have hfree := ht.free hm
      have howner : m.owner n (s.owner (p.cond w.wait)) = some n := by
        rcases hm with rfl | rfl
        · rfl
        · rfl
      rw [howner]
      constructor
      · rintro ⟨⟩
        exact ⟨v, hself, by rw [hwait], hafter⟩
      · rintro ⟨u, hu, hcond, hin⟩
        by_contra hne
        have hk : k ≠ n := fun hkn => hne (by rw [hkn])
        rw [hothers k hk] at hu
        rw [(h _ k).mpr ⟨u, hu, hcond, hin⟩] at hfree
        cases hfree
    · have howned : s.owner (p.cond w.wait) = some n := (h _ n).mpr ⟨w, hw, rfl, hbefore⟩
      have howner : m.owner n (s.owner (p.cond w.wait)) = none := by
        rcases hm with rfl | rfl
        · rfl
        · rfl
      rw [howner]
      constructor
      · rintro ⟨⟩
      · rintro ⟨u, hu, hcond, hin⟩
        by_cases hk : k = n
        · subst hk
          rw [hself, Option.some.injEq] at hu
          rw [← hu, hafter] at hin
          cases hin
        · rw [hothers k hk] at hu
          have := (h _ k).mpr ⟨u, hu, hcond, hin⟩
          rw [howned, Option.some.injEq] at this
          exact absurd this.symm hk
    · rw [hm]
      by_cases hk : k = n
      · subst hk
        rw [hself]
        constructor
        · intro howned
          obtain ⟨u, hu, _, hin⟩ := (h _ k).mp howned
          rw [hw, Option.some.injEq] at hu
          rw [← hu, hbefore] at hin
          cases hin
        · rintro ⟨u, hu, _, hin⟩
          rw [Option.some.injEq] at hu
          rw [← hu, hafter] at hin
          cases hin
      · rw [hothers k hk]
        exact h _ k
  · rw [if_neg hc]
    by_cases hk : k = n
    · subst hk
      rw [hself, h c k, hw]
      constructor
      · rintro ⟨u, hu, hcond, _⟩
        rw [Option.some.injEq] at hu
        exact absurd (hu ▸ hcond).symm hc
      · rintro ⟨u, hu, hcond, _⟩
        rw [Option.some.injEq] at hu
        rw [← hu, hwait] at hcond
        exact absurd hcond.symm hc
    · rw [hothers k hk]
      exact h c k

theorem Exclusive.step {s t : State σ κ δ ν} {a : Act σ κ γ} (h : Exclusive p s)
    (ht : step p s a = some t) : Exclusive p t := by
  cases a with
  | call wait timeout =>
      obtain rfl := Option.some.inj ht
      intro c n
      rw [show _ ↔ _ from h c n]
      by_cases hn : n < s.waiters.length
      · rw [List.getElem?_append_left hn]
      · -- a new waiter is not in its section
        rw [List.getElem?_append_right (by omega), List.getElem?_eq_none (by omega)]
        constructor
        · rintro ⟨w, hw, _⟩
          cases hw
        · rintro ⟨w, hw, _, hin⟩
          obtain rfl := List.mem_singleton.mp (List.mem_of_getElem? hw)
          cases hin
  | turn n m =>
      obtain ⟨w, hw, ht⟩ := Option.bind_eq_some_iff.mp ht
      obtain ⟨pc, hmoved⟩ := turn_moved ht
      exact h.moved hw hmoved
  | react g =>
      cases hg : p.react g s.shared with
      | none =>
          simp only [TimedWait.step, hg, Option.some.injEq] at ht
          exact ht ▸ h
      | some r =>
          simp only [TimedWait.step, hg, Option.some.injEq] at ht
          exact ht ▸ h
  | signal k woken =>
      obtain ⟨rfl, hblocked⟩ := give_eq ht
      refine h.congr rfl fun n => ?_
      simp only [wake, List.getElem?_mapIdx, Option.map_map]
      cases hw : s.waiters[n]? with
      | none => rfl
      | some w =>
          simp only [Option.map_some, Function.comp_apply, Option.some.injEq]
          split
          case isTrue hn => simp [hblocked n hn w hw, Pc.inside]
          case isFalse => rfl
  | change f =>
      obtain rfl := Option.some.inj ht
      exact h
  | tick d =>
      obtain rfl := Option.some.inj ht
      refine h.congr rfl fun n => ?_
      simp only [List.getElem?_map, Option.map_map]
      refine congrArg (fun f => Option.map f s.waiters[n]?) (funext fun w => ?_)
      obtain ⟨hwait, hpc⟩ := settle_same (p := p) s.shared (s.now + d) w
      simp only [Function.comp_apply, hwait, hpc]

/-! ## The moves are bounded by the wake-ups -/

/-- How many moves can follow if the waiter is woken no more, the time-out apart. -/
def Pc.rank : Pc → Nat
  | .entry => 8
  | .looked => 7
  | .outside => 6
  | .locked => 5
  | .blocked => 4
  | .woken err => if err = 0 then 9 else 3
  | .relocked err => if err = 0 then 8 else 2
  | .unlocked err => if err = 0 then 7 else 1
  | .returned _ | .threw => 0

/-- The rank of the waiter `n`; that of a call that is yet to come is 8. -/
def State.rank (s : State σ κ δ ν) (n : Nat) : Nat := (s.waiters[n]?).elim 8 (·.pc.rank)

/-- The label is a move of the waiter `n`. -/
def Act.isTurn (n : Nat) : Act σ κ γ → Bool
  | .turn k _ => decide (k = n)
  | _ => false

/-- The label wakes the waiter `n`, by a signal or without one. -/
def Act.wakes (n : Nat) : Act σ κ γ → Bool
  | .turn k .spurious => decide (k = n)
  | .signal _ woken => decide (n ∈ woken)
  | _ => false

theorem Pc.rank_over {pc : Pc} (h : pc.over = true) : pc.rank = 0 := by
  cases pc <;> first | rfl | cases h

/-- A move brings the waiter nearer to its end, but for a wake-up without a signal. -/
theorem Goes.rank {pc pc' : Pc} {m : Move} (h : Goes pc m pc') :
    pc'.rank + 1 ≤ pc.rank + if m = .spurious then 6 else 0 := by
  cases h with
  | look hpc =>
      rcases hpc with rfl | hpc
      · decide
      · rw [Pc.rank_over hpc]
        decide
  | lookAgain hpc =>
      rcases hpc with rfl | hpc
      · decide
      · rw [Pc.rank_over hpc]
        decide
  | readClock => decide
  | noClock => decide
  | lock => decide
  | block => decide
  | spurious => decide
  | timeOut => decide
  | relock err => by_cases he : err = 0 <;> simp [Pc.rank, he]
  | unlock err => by_cases he : err = 0 <;> simp [Pc.rank, he]
  | giveUp he => simp [Pc.rank, he]

theorem rank_step {s t : State σ κ δ ν} {a : Act σ κ γ} (n : Nat) (ht : step p s a = some t) :
    (if a.isTurn n then 1 else 0) + t.rank n ≤ s.rank n + 6 * if a.wakes n then 1 else 0 := by
  cases a with
  | call wait timeout =>
      obtain rfl := Option.some.inj ht
      simp only [Act.isTurn, Act.wakes, State.rank, Bool.false_eq_true, if_false]
      by_cases hn : n < s.waiters.length
      · rw [List.getElem?_append_left hn]
        omega
      · -- the rank of a call does not change when it is made
        have hnone : s.waiters[n]? = none := List.getElem?_eq_none (by omega)
        rw [List.getElem?_append_right (by omega), hnone]
        cases hnew : ([{ wait := wait, timeout := timeout }] : List (Waiter κ))[n -
            s.waiters.length]? with
        | none => simp
        | some w =>
            obtain rfl := List.mem_singleton.mp (List.mem_of_getElem? hnew)
            simp [Pc.rank]
  | turn k m =>
      obtain ⟨w, hw, ht⟩ := Option.bind_eq_some_iff.mp ht
      obtain ⟨pc, hmoved⟩ := turn_moved ht
      obtain ⟨v, hwaiters, _, rfl⟩ := hmoved.waiter
      have hrank := hmoved.goes.rank
      by_cases hk : k = n
      · subst hk
        have hlt := (List.getElem?_eq_some_iff.mp hw).1
        have hwakes : (Act.turn k m : Act σ κ γ).wakes k = decide (m = .spurious) := by
          cases m <;> simp [Act.wakes]
        simp only [State.rank, hwaiters, List.getElem?_set_self hlt, hw, Option.elim_some,
          Act.isTurn, hwakes, decide_true, if_true, decide_eq_true_eq]
        split at hrank <;> simp_all <;> omega
      · have hwakes : (Act.turn k m : Act σ κ γ).wakes n = false := by
          cases m <;> simp [Act.wakes, hk]
        simp [State.rank, hwaiters, List.getElem?_set_ne hk, Act.isTurn, hwakes, hk]
  | react g =>
      have hsame : t.waiters = s.waiters := by
        cases hg : p.react g s.shared with
        | none =>
            simp only [TimedWait.step, hg, Option.some.injEq] at ht
            rw [ht]
        | some r =>
            simp only [TimedWait.step, hg, Option.some.injEq] at ht
            rw [← ht]
      simp [State.rank, hsame, Act.isTurn, Act.wakes]
  | signal k woken =>
      obtain ⟨rfl, hblocked⟩ := give_eq ht
      simp only [State.rank, wake, List.getElem?_mapIdx, Act.isTurn, Act.wakes,
        Bool.false_eq_true, if_false, decide_eq_true_eq]
      cases hw : s.waiters[n]? with
      | none => simp
      | some w =>
          simp only [Option.map_some, Option.elim_some]
          by_cases hn : n ∈ woken
          · simp [hn, hblocked n hn w hw, Pc.rank]
          · simp [hn]
  | change f =>
      obtain rfl := Option.some.inj ht
      simp [State.rank, Act.isTurn, Act.wakes]
  | tick d =>
      obtain rfl := Option.some.inj ht
      simp only [State.rank, List.getElem?_map, Act.isTurn, Act.wakes, Bool.false_eq_true, if_false]
      cases hw : s.waiters[n]? with
      | none => simp
      | some w => simp [(settle_same (p := p) s.shared (s.now + d) w).2]

/-- **The moves of a waiter in a run** are bounded by how often it is woken. -/
theorem turns_le {as : List (Act σ κ γ)} (n : Nat) {s t : State σ κ δ ν}
    (ht : Lts.exec (step p) s as = some t) :
    as.countP (·.isTurn n) + t.rank n ≤ s.rank n + 6 * as.countP (·.wakes n) :=
  Lts.exec_rank (fun _ _ _ => rank_step n) ht

/-! ## Every wait can end -/

/-- Moves of the waiters, none of them a wake-up without a cause or a failure of the clock, and the
clock. -/
def Act.internal : Act σ κ γ → Bool
  | .turn _ .spurious | .turn _ (.readClock false) => false
  | .turn _ _ | .tick _ => true
  | _ => false

/-- The waiter `n` can come to its end in at most `k` steps of the waiters and the clock. -/
def CanEnd (p : WaitSpec σ κ γ δ ν) (k : Nat) (s : State σ κ δ ν) (n : Nat) : Prop :=
  ∃ bs u v, bs.length ≤ k ∧ (∀ b ∈ bs, b.internal = true) ∧
    Lts.exec (step p) s bs = some u ∧ u.shared = s.shared ∧
    u.waiters[n]? = some v ∧ v.pc.over = true

section CanEnd

variable {s t : State σ κ δ ν} {n k : Nat} {w : Waiter κ}

theorem CanEnd.of_over (hw : s.waiters[n]? = some w) (hpc : w.pc.over = true) :
    CanEnd p k s n :=
  ⟨[], s, w, Nat.zero_le k, by simp, rfl, rfl, hw, hpc⟩

theorem CanEnd.mono {k' : Nat} (h : CanEnd p k s n) (hk : k ≤ k') : CanEnd p k' s n := by
  obtain ⟨bs, u, v, hlen, hrest⟩ := h
  exact ⟨bs, u, v, Nat.le_trans hlen hk, hrest⟩

theorem CanEnd.cons {a : Act σ κ γ} (ha : a.internal = true) (ht : step p s a = some t)
    (hshared : t.shared = s.shared) (h : CanEnd p k t n) : CanEnd p (k + 1) s n := by
  obtain ⟨bs, u, v, hlen, hbs, hu, hsame, hv, hover⟩ := h
  refine ⟨a :: bs, u, v, by simpa using hlen, ?_, Lts.exec_cons_iff.mpr ⟨t, ht, hu⟩,
    hsame.trans hshared, hv, hover⟩
  simpa using ⟨ha, hbs⟩

/-- A move of the waiter itself, after which it can end, wherever the move leads. -/
theorem CanEnd.turn {m : Move} (hw : s.waiters[n]? = some w)
    (ha : (Act.turn n m : Act σ κ γ).internal = true) (hm : (s.turn p n w m).isSome = true)
    (h : ∀ t v pc, t.waiters[n]? = some v → v.pc = pc → v.wait = w.wait → Goes w.pc m pc →
      (∀ d, t.owner d = if d = p.cond w.wait then m.owner n (s.owner d) else s.owner d) →
      CanEnd p k t n) : CanEnd p (k + 1) s n := by
  obtain ⟨t, ht⟩ := Option.isSome_iff_exists.mp hm
  obtain ⟨pc, hmoved⟩ := turn_moved ht
  obtain ⟨v, hwaiters, hwait, hpc⟩ := hmoved.waiter
  refine CanEnd.cons ha (Option.bind_eq_some_iff.mpr ⟨w, hw, ht⟩) hmoved.shared ?_
  refine h t v pc ?_ hpc hwait hmoved.goes hmoved.owner
  rw [hwaiters, List.getElem?_set_self (List.getElem?_eq_some_iff.mp hw).1]

/-- After a time-out: `n` steps to the end, the mutex permitting. -/
theorem canEnd_unlocked_error {err : Int} (hw : s.waiters[n]? = some w)
    (hpc : w.pc = .unlocked err) (herr : err ≠ 0) : CanEnd p 1 s n := by
  refine CanEnd.turn (m := .lookAgain) hw rfl (by simp [State.turn, hpc, herr]) ?_
  intro t v pc hv hvpc _ hgoes _
  rw [hpc] at hgoes
  cases hgoes with
  | lookAgain => exact absurd rfl herr
  | giveUp => exact .of_over hv (by rw [hvpc]; rfl)

theorem canEnd_relocked_error {err : Int} (hw : s.waiters[n]? = some w)
    (hpc : w.pc = .relocked err) (herr : err ≠ 0) : CanEnd p 2 s n := by
  refine CanEnd.turn (m := .unlock) hw rfl (by simp [State.turn, hpc]) ?_
  intro t v pc hv hvpc _ hgoes _
  rw [hpc] at hgoes
  cases hgoes
  exact canEnd_unlocked_error hv hvpc herr

theorem canEnd_woken_error {err : Int} (hw : s.waiters[n]? = some w)
    (hpc : w.pc = .woken err) (herr : err ≠ 0) (hfree : s.owner (p.cond w.wait) = none) :
    CanEnd p 3 s n := by
  refine CanEnd.turn (m := .relock) hw rfl (by simp [State.turn, hpc, hfree]) ?_
  intro t v pc hv hvpc _ hgoes _
  rw [hpc] at hgoes
  cases hgoes
  exact canEnd_relocked_error hv hvpc herr

/-- The time-out itself, once the deadline has passed. -/
theorem canEnd_late (hw : s.waiters[n]? = some w) (hpc : w.pc = .blocked)
    (hlate : w.deadline ≤ s.now) (hfree : s.owner (p.cond w.wait) = none) : CanEnd p 4 s n := by
  refine CanEnd.turn (m := .timeOut) hw rfl (by simp [State.turn, hpc, hlate]) ?_
  intro t v pc hv hvpc hwait hgoes howner
  rw [hpc] at hgoes
  cases hgoes
  refine canEnd_woken_error hv hvpc (by decide) ?_
  rw [howner, hwait, if_pos rfl]
  exact hfree

theorem canEnd_blocked (hw : s.waiters[n]? = some w) (hpc : w.pc = .blocked)
    (hfree : s.owner (p.cond w.wait) = none) : CanEnd p 5 s n := by
  -- the clock goes on to the deadline
  refine CanEnd.cons (a := .tick (w.deadline - s.now).toNat) rfl rfl rfl ?_
  have hsettled := settle_same (p := p) s.shared (s.now + (w.deadline - s.now).toNat) w
  have hdeadline : (Waiter.settle p s.shared (s.now + (w.deadline - s.now).toNat) w).deadline =
      w.deadline := by
    unfold Waiter.settle
    split <;> rfl
  refine canEnd_late (w := Waiter.settle p s.shared (s.now + (w.deadline - s.now).toNat) w) ?_ ?_
    ?_ ?_
  · simp [hw]
  · rw [hsettled.2, hpc]
  · rw [hdeadline]
    simp only
    omega
  · rw [hsettled.1]
    exact hfree

theorem canEnd_locked (hw : s.waiters[n]? = some w) (hpc : w.pc = .locked) : CanEnd p 6 s n := by
  refine CanEnd.turn (m := .block) hw rfl (by simp [State.turn, hpc]) ?_
  intro t v pc hv hvpc hwait hgoes howner
  rw [hpc] at hgoes
  cases hgoes
  refine canEnd_blocked hv hvpc ?_
  rw [howner, hwait, if_pos rfl]
  rfl

theorem canEnd_outside (hw : s.waiters[n]? = some w) (hpc : w.pc = .outside)
    (hfree : s.owner (p.cond w.wait) = none) : CanEnd p 7 s n := by
  refine CanEnd.turn (m := .lock) hw rfl (by simp [State.turn, hpc, hfree]) ?_
  intro t v pc hv hvpc _ hgoes _
  rw [hpc] at hgoes
  cases hgoes
  exact canEnd_locked hv hvpc

theorem canEnd_looked (hw : s.waiters[n]? = some w) (hpc : w.pc = .looked)
    (hfree : s.owner (p.cond w.wait) = none) : CanEnd p 8 s n := by
  refine CanEnd.turn (m := .readClock true) hw rfl (by simp [State.turn, hpc]) ?_
  intro t v pc hv hvpc hwait hgoes howner
  rw [hpc] at hgoes
  cases hgoes
  refine canEnd_outside hv hvpc ?_
  rw [howner, hwait, if_pos rfl]
  exact hfree

theorem canEnd_entry (hw : s.waiters[n]? = some w) (hpc : w.pc = .entry)
    (hfree : s.owner (p.cond w.wait) = none) : CanEnd p 9 s n := by
  refine CanEnd.turn (m := .look) hw rfl (by simp [State.turn, hpc]) ?_
  intro t v pc hv hvpc hwait hgoes howner
  rw [hpc] at hgoes
  cases hgoes with
  | look hnext =>
      rcases hnext with rfl | hover
      · refine canEnd_looked hv hvpc ?_
        rw [howner, hwait, if_pos rfl]
        exact hfree
      · exact .of_over hv (by rw [hvpc, hover])

theorem canEnd_unlocked (hw : s.waiters[n]? = some w) (hpc : w.pc = .unlocked 0)
    (hfree : s.owner (p.cond w.wait) = none) : CanEnd p 8 s n := by
  refine CanEnd.turn (m := .lookAgain) hw rfl (by simp [State.turn, hpc]) ?_
  intro t v pc hv hvpc hwait hgoes howner
  rw [hpc] at hgoes
  cases hgoes with
  | lookAgain hnext =>
      rcases hnext with rfl | hover
      · refine canEnd_outside hv hvpc ?_
        rw [howner, hwait, if_pos rfl]
        exact hfree
      · exact .of_over hv (by rw [hvpc, hover])
  | giveUp hne => exact absurd rfl hne

theorem canEnd_relocked (hw : s.waiters[n]? = some w) (hpc : w.pc = .relocked 0) :
    CanEnd p 9 s n := by
  refine CanEnd.turn (m := .unlock) hw rfl (by simp [State.turn, hpc]) ?_
  intro t v pc hv hvpc hwait hgoes howner
  rw [hpc] at hgoes
  cases hgoes
  refine canEnd_unlocked hv hvpc ?_
  rw [howner, hwait, if_pos rfl]
  rfl

theorem canEnd_woken (hw : s.waiters[n]? = some w) (hpc : w.pc = .woken 0)
    (hfree : s.owner (p.cond w.wait) = none) : CanEnd p 10 s n := by
  refine CanEnd.turn (m := .relock) hw rfl (by simp [State.turn, hpc, hfree]) ?_
  intro t v pc hv hvpc _ hgoes _
  rw [hpc] at hgoes
  cases hgoes
  exact canEnd_relocked hv hvpc

/-- With its mutex free, a wait can end from wherever it stands; in its section it is the owner. -/
theorem canEnd_free (hw : s.waiters[n]? = some w)
    (hfree : w.pc.inside = false → s.owner (p.cond w.wait) = none) : CanEnd p 10 s n := by
  cases hpc : w.pc with
  | entry => exact (canEnd_entry hw hpc (hfree (by rw [hpc]; rfl))).mono (by omega)
  | looked => exact (canEnd_looked hw hpc (hfree (by rw [hpc]; rfl))).mono (by omega)
  | outside => exact (canEnd_outside hw hpc (hfree (by rw [hpc]; rfl))).mono (by omega)
  | locked => exact (canEnd_locked hw hpc).mono (by omega)
  | blocked => exact (canEnd_blocked hw hpc (hfree (by rw [hpc]; rfl))).mono (by omega)
  | woken err =>
      by_cases herr : err = 0
      · subst herr
        exact canEnd_woken hw hpc (hfree (by rw [hpc]; rfl))
      · exact (canEnd_woken_error hw hpc herr (hfree (by rw [hpc]; rfl))).mono (by omega)
  | relocked err =>
      by_cases herr : err = 0
      · subst herr
        exact (canEnd_relocked hw hpc).mono (by omega)
      · exact (canEnd_relocked_error hw hpc herr).mono (by omega)
  | unlocked err =>
      by_cases herr : err = 0
      · subst herr
        exact (canEnd_unlocked hw hpc (hfree (by rw [hpc]; rfl))).mono (by omega)
      · exact (canEnd_unlocked_error hw hpc herr).mono (by omega)
  | returned result => exact .of_over hw (by rw [hpc]; rfl)
  | threw => exact .of_over hw (by rw [hpc]; rfl)

/-- The owner of a mutex can leave it with its next move. -/
theorem Exclusive.leave (h : Exclusive p s) {c : ν} {m : Nat} (howner : s.owner c = some m) :
    ∃ move t, (Act.turn m move : Act σ κ γ).internal = true ∧
      TimedWait.step p s (.turn m move) = some t ∧ t.shared = s.shared ∧ t.owner c = none ∧
      ∀ k, k ≠ m → t.waiters[k]? = s.waiters[k]? := by
  obtain ⟨v, hv, hcond, hin⟩ := (h c m).mp howner
  have hleave : ∀ move, move = .block ∨ move = .unlock → (s.turn p m v move).isSome = true →
      ∃ move t, (Act.turn m move : Act σ κ γ).internal = true ∧
        TimedWait.step p s (.turn m move) = some t ∧ t.shared = s.shared ∧ t.owner c = none ∧
        ∀ k, k ≠ m → t.waiters[k]? = s.waiters[k]? := by
    intro move hmove hsome
    obtain ⟨t, ht⟩ := Option.isSome_iff_exists.mp hsome
    obtain ⟨pc, hmoved⟩ := turn_moved ht
    obtain ⟨u, hwaiters, _, _⟩ := hmoved.waiter
    refine ⟨move, t, ?_, Option.bind_eq_some_iff.mpr ⟨v, hv, ht⟩, hmoved.shared, ?_, ?_⟩
    · rcases hmove with rfl | rfl <;> rfl
    · rw [hmoved.owner, if_pos hcond.symm]
      rcases hmove with rfl | rfl <;> rfl
    · exact fun k hk => by rw [hwaiters, List.getElem?_set_ne hk.symm]
  cases hpc : v.pc with
  | locked => exact hleave .block (.inl rfl) (by simp [State.turn, hpc])
  | relocked err => exact hleave .unlock (.inr rfl) (by simp [State.turn, hpc])
  | _ => rw [hpc] at hin; cases hin

/-- **Every wait can end** by at most eleven steps of the waiters and the clock, whatever the state
it waits on. -/
theorem Exclusive.ends (h : Exclusive p s) (hw : s.waiters[n]? = some w) : CanEnd p 11 s n := by
  cases howner : s.owner (p.cond w.wait) with
  | none => exact (canEnd_free hw fun _ => howner).mono (by omega)
  | some m =>
      by_cases hm : n = m
      · subst hm
        -- the owner is in its section
        obtain ⟨v, hv, _, hin⟩ := (h _ n).mp howner
        rw [hw, Option.some.injEq] at hv
        refine (canEnd_free hw fun hout => ?_).mono (by omega)
        rw [hv, hin] at hout
        cases hout
      · obtain ⟨move, t, hinternal, ht, hshared, hfree, hothers⟩ := h.leave howner
        refine CanEnd.cons hinternal ht hshared (canEnd_free (w := w) ?_ fun _ => hfree)
        rw [hothers n hm, hw]

end CanEnd

end TimedWait

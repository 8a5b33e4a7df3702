import DirectMedia.Lib.Progress
import DirectMedia.Message.WakeUps

set_option autoImplicit false

/-! # How far the looper gets

The steps of the looper thread and of the destructor bring them nearer to the end of what there is
to do, but for those after a wake-up without a cause or after a handler that did not succeed: a rank
bounds them, so the thread does not spin (`moves_le`). Where it comes to rest, it has handed over
what was queued, once each and in order (`queueServed`), and has left its loop for a quit message
unless that was lost (`joinReturns_iff`).
-/

namespace DirectMedia

/-! ## What is left to do -/

/-- The entries that the thread has still to get through: the queue, but for a message whose handler
is going to succeed or has succeeded, which takes the front entry with it. -/
def Looper.left (l : Looper) : List Entry :=
  match l.pc with
  | .handling m ret => if ret = resultSuccess then some m :: l.queue.tail else l.queue
  | .popping _ => l.queue.tail
  | _ => l.queue

/-- There is a front entry that may be taken at the time `t`. -/
def frontDue (t : Int) : List Entry → Bool
  | [] => false
  | none :: _ => true
  | some m :: _ => m.due t

/-- What it costs to look at an entry that may not be taken yet, and to wait for it. -/
def lateness (t : Int) (q : List Entry) : Nat := if frontDue t q then 0 else 2

/-- How many steps the thread is away from its next look at the front entry, up to a constant. -/
def Looper.phase (l : Looper) : Nat :=
  match l.pc with
  | .top => 2 + lateness l.now l.queue
  | .waitState => 1 + lateness l.now l.queue
  | .waitQueue => 3
  | .waitUntil r => 3 + lateness r l.queue
  | .handling _ _ => 1
  | .popping _ => 5
  | .sleeping | .exited => 0

def Looper.rank (l : Looper) : Nat := 5 * l.left.length + l.phase

/-- How many steps the destructor is away from its end, and the thread on its account. -/
def DestructorPc.rank : DestructorPc → Nat
  | .notStarted => 11
  | .runningSet => 10
  | .runningNotified => 8
  | .quitPosted => 2
  | .joining => 0

theorem Message.due_mono {m : Message} {t u : Int} (h : m.due t = true) (htu : t ≤ u) :
    m.due u = true := by
  have := of_decide_eq_true h
  apply decide_eq_true
  omega

theorem lateness_le (t : Int) (q : List Entry) : lateness t q ≤ 2 := by
  unfold lateness
  split <;> omega

/-- Where what was due is still due, nothing more is to be waited for. -/
theorem lateness_mono {t u : Int} {q q' : List Entry}
    (h : frontDue t q = true → frontDue u q' = true) : lateness u q' ≤ lateness t q := by
  unfold lateness
  split
  case isTrue => omega
  case isFalse hlate =>
      rw [if_neg fun hdue => hlate (h hdue)]

theorem lateness_time {t u : Int} (q : List Entry) (htu : t ≤ u) : lateness u q ≤ lateness t q := by
  apply lateness_mono
  intro hdue
  match q with
  | [] => exact hdue
  | none :: _ => exact hdue
  | some _ :: _ => exact Message.due_mono hdue htu

/-- The quit message does not keep a due front entry waiting. -/
theorem lateness_insertQuit {q q' : List Entry} (t : Int) (h : insertEntry none q = some q') :
    lateness t q' ≤ lateness t q := by
  apply lateness_mono
  intro hdue
  match q with
  | [] => cases hdue
  | none :: _ => cases h
  | some m :: r =>
      rcases insertEntry_cons h with ⟨_, hhead⟩ | ⟨_, rfl⟩
      · obtain ⟨r', rfl⟩ := List.head?_eq_some_iff.mp hhead
        exact hdue
      · rfl

/-- The steps that have a cause: those of the looper thread and the destructor, but for a wake-up
without one. -/
def LooperAct.caused : LooperAct → Bool
  | .look _ | .handled | .popFront | .resume | .destroy => true
  | _ => false

/-- The calls of other threads, wake-ups without a cause, and the end of the pause after a handler
that did not succeed. -/
def LooperAct.setsBack : LooperAct → Bool
  | .post _ | .append _ | .clearAll | .setRunningState _ | .wake | .resume => true
  | _ => false

namespace Looper

variable {s t : Looper}

theorem left_length_queue (q : List Entry) (hq : q.length ≤ s.queue.length + 1) :
    (s.withQueue q).left.length ≤ s.left.length + 1 := by
  cases hpc : s.pc with
  | handling m ret =>
      simp only [left, withQueue, hpc]
      split
      · simp only [List.length_cons, List.length_tail]
        omega
      · exact hq
  | popping m =>
      simp only [left, withQueue, hpc, List.length_tail]
      omega
  | _ => simpa only [left, withQueue, hpc] using hq

theorem phase_queue (q : List Entry) : (s.withQueue q).phase ≤ s.phase + 2 := by
  have htop := lateness_le s.now q
  cases hpc : s.pc with
  | waitUntil r =>
      have htimed := lateness_le r q
      simp only [phase, withQueue, hpc]
      omega
  | _ => simp only [phase, withQueue, hpc]; omega

/-- A change of the queue alone costs at most one entry and two steps. -/
theorem rank_queue (q : List Entry) (hq : q.length ≤ s.queue.length + 1) :
    (s.withQueue q).rank ≤ s.rank + 7 := by
  have hleft := left_length_queue q hq
  have hphase := phase_queue (s := s) q
  unfold rank
  omega

theorem rank_top (hpc : s.pc = .top) :
    s.rank = 5 * s.queue.length + (2 + lateness s.now s.queue) := by
  simp only [rank, left, phase, hpc]

/-- The thread looks at the front entry, and has one step less to go. -/
theorem rank_look (hpc : s.pc = .top) (ret : Int) :
    (s.withPc (s.look ret)).rank + 1 ≤ s.rank := by
  rw [rank_top hpc]
  have hlook := s.looked ret
  generalize s.look ret = pc at hlook
  cases hlook with
  | waitState => simp only [rank, left, phase, withPc]; omega
  | waitQueue _ hq => simp [rank, left, phase, withPc, hq, lateness, frontDue]
  | exited => simp only [rank, left, phase, withPc]; omega
  | waitUntil m q _ hq hlate =>
      have hdue : m.due m.runAt = true := decide_eq_true (.inr (Int.le_refl _))
      simp [rank, left, phase, withPc, hq, lateness, frontDue, hlate, hdue]
  | handling m q _ hq hdue =>
      by_cases hret : ret = resultSuccess
      · simp [rank, left, phase, withPc, hq, lateness, frontDue, hdue, hret]
      · simp [rank, left, phase, withPc, hq, lateness, frontDue, hdue, hret]

/-- The thread is woken, and has to look again. -/
theorem rank_wake {pc : LoopPc} (h : wake s.pc = some pc) : (s.withPc pc).rank ≤ s.rank + 1 := by
  have hlate := lateness_le s.now s.queue
  cases hpc : s.pc <;> rw [hpc] at h <;> cases h
  all_goals
    simp only [rank, left, phase, withPc, hpc]
    omega

theorem rank_notify {pc : LoopPc} (h : pc = s.pc ∨ wake s.pc = some pc) :
    (s.withPc pc).rank ≤ s.rank + 1 := by
  rcases h with rfl | h
  · exact Nat.le_succ _
  · exact rank_wake h

/-- By the time a wait times out the front entry is due, if it was to be waited for. -/
theorem rank_timeOut {r : Int} (hpc : s.pc = .waitUntil r) (hr : r ≤ s.now) :
    (s.withPc .top).rank + 1 ≤ s.rank := by
  have hlate := lateness_time s.queue hr
  simp only [rank, left, phase, withPc, hpc]
  omega

/-- A handler that succeeds takes the front entry with it. -/
theorem rank_handled {m : Message} {ret : Int} (hpc : s.pc = .handling m ret) :
    (s.withPc (if ret = resultSuccess then .popping m else .sleeping)).rank + 1 ≤ s.rank := by
  by_cases hret : ret = resultSuccess
  · simp only [rank, left, phase, withPc, hpc, hret, if_true, List.length_cons]
    omega
  · simp only [rank, left, phase, withPc, hpc, hret, if_false]
    omega

theorem rank_postQuit {q : List Entry} (hq : insertEntry none s.queue = some q) :
    (s.withQueue q).rank ≤ s.rank + 5 := by
  have hleft := left_length_queue q (Nat.le_of_eq (insertEntry_perm hq).length_eq)
  have hphase : (s.withQueue q).phase ≤ s.phase := by
    have hnow := lateness_insertQuit s.now hq
    cases hpc : s.pc with
    | waitUntil r =>
        have htimed := lateness_insertQuit r hq
        simp only [phase, withQueue, hpc]
        omega
    | _ => simp only [phase, withQueue, hpc]; omega
  unfold rank
  omega

/-- Every caused step of the looper brings its thread, or its destructor, nearer to the end of what
there is to do, the end of a pause apart. -/
theorem rank_step {a : LooperAct} (h : s.step a = some t) :
    (if a.caused then 1 else 0) + (t.rank + t.destructor.rank) +
        2 * (a.queueNotes + a.stateNotes) ≤
      s.rank + s.destructor.rank + 9 * if a.setsBack then 1 else 0 := by
  cases a with
  | post r =>
      obtain ⟨q, hq, rfl⟩ := Option.map_eq_some_iff.mp h
      have hrank := rank_queue q (Nat.le_of_eq (insertEntry_perm hq).length_eq)
      show 0 + ((s.withQueue q).rank + s.destructor.rank) + 2 * 1 ≤ s.rank + s.destructor.rank + 9
      omega
  | append r =>
      obtain rfl := Option.some.inj h
      have hrank := rank_queue (s := s) (s.queue ++ [some ⟨s.calls, r⟩]) (by simp)
      show 0 + ((s.withQueue _).rank + s.destructor.rank) + 2 * 1 ≤ s.rank + s.destructor.rank + 9
      omega
  | clearAll =>
      obtain rfl := Option.some.inj h
      have hrank := rank_queue (s := s) [] (by simp)
      show 0 + ((s.withQueue []).rank + s.destructor.rank) + 2 * 0 ≤ s.rank + s.destructor.rank + 9
      omega
  | setRunningState run =>
      obtain rfl := Option.some.inj h
      show 0 + (s.rank + s.destructor.rank) + 2 * 1 ≤ s.rank + s.destructor.rank + 9
      omega
  | tick d =>
      obtain rfl := Option.some.inj h
      have hlate : lateness (s.now + d) s.queue ≤ lateness s.now s.queue :=
        lateness_time s.queue (by omega)
      have hrank : ({ s with now := s.now + d } : Looper).rank ≤ s.rank := by
        cases hpc : s.pc <;> simp only [rank, left, phase, hpc] <;> omega
      show 0 + (_ + s.destructor.rank) + 0 ≤ s.rank + s.destructor.rank + 0
      omega
  | look ret =>
      simp only [step, Option.ite_none_right_eq_some, Option.some.injEq] at h
      obtain ⟨hpc, rfl⟩ := h
      have hrank := rank_look hpc ret
      show 1 + ((s.withPc (s.look ret)).rank + s.destructor.rank) + 0 ≤
        s.rank + s.destructor.rank + 0
      omega
  | wake =>
      obtain ⟨pc, hpc, rfl⟩ := Option.map_eq_some_iff.mp h
      have hrank := rank_wake hpc
      show 0 + ((s.withPc pc).rank + s.destructor.rank) + 0 ≤ s.rank + s.destructor.rank + 9
      omega
  | handled =>
      simp only [step] at h
      split at h
      case h_1 m ret hpc =>
          obtain rfl := Option.some.inj h
          have hrank := rank_handled hpc
          show 1 + ((s.withPc (if ret = resultSuccess then .popping m else .sleeping)).rank +
            s.destructor.rank) + 0 ≤ s.rank + s.destructor.rank + 0
          omega
      case h_2 => cases h
  | popFront =>
      simp only [step] at h
      split at h
      case h_1 m hpc =>
          obtain rfl := Option.some.inj h
          have hlate := lateness_le s.now s.queue.tail
          have hrank :
              ({ s with queue := s.queue.tail, pc := .top } : Looper).rank + 1 ≤ s.rank := by
            simp only [rank, left, phase, hpc]
            omega
          show 1 + (_ + s.destructor.rank) + 0 ≤ s.rank + s.destructor.rank + 0
          omega
      case h_2 => cases h
  | resume =>
      simp only [step, Option.ite_none_right_eq_some, Option.some.injEq] at h
      obtain ⟨hpc, rfl⟩ := h
      have hlate := lateness_le s.now s.queue
      have hrank : (s.withPc .top).rank ≤ s.rank + 4 := by
        simp only [rank, left, phase, withPc, hpc]
        omega
      show 1 + ((s.withPc .top).rank + s.destructor.rank) + 0 ≤ s.rank + s.destructor.rank + 9
      omega
  | destroy =>
      show 1 + _ + 0 ≤ _ + 0
      cases destroys h with
      | setRunning hd =>
          rw [hd]
          show 1 + (s.rank + 10) + 0 ≤ s.rank + 11 + 0
          omega
      | notifyState hd =>
          have hrank := rank_notify (s := s) s.pc.notifyState_cases
          rw [hd]
          show 1 + ((s.withPc s.pc.notifyState).rank + 8) + 0 ≤ s.rank + 10 + 0
          omega
      | postQuit hd q hq =>
          have hrank := rank_postQuit hq
          rw [hd]
          show 1 + ((s.withQueue q).rank + 2) + 0 ≤ s.rank + 8 + 0
          omega
      | notifyQueue hd =>
          have hrank := rank_notify (s := s) s.pc.notifyQueue_cases
          rw [hd]
          show 1 + ((s.withPc s.pc.notifyQueue).rank + 0) + 0 ≤ s.rank + 2 + 0
          omega

/-! ## What the looper thread leaves alone -/

/-- Only the destructor changes its own place, and only two calls the running state. -/
theorem step_same {a : LooperAct} (h : s.step a = some t) (ha : a ≠ .destroy) :
    t.destructor = s.destructor ∧
      ((∀ run, a ≠ .setRunningState run) → t.running = s.running) := by
  cases a with
  | post r =>
      obtain ⟨q, _, rfl⟩ := Option.map_eq_some_iff.mp h
      exact ⟨rfl, fun _ => rfl⟩
  | append r =>
      obtain rfl := Option.some.inj h
      exact ⟨rfl, fun _ => rfl⟩
  | clearAll =>
      obtain rfl := Option.some.inj h
      exact ⟨rfl, fun _ => rfl⟩
  | setRunningState run =>
      obtain rfl := Option.some.inj h
      exact ⟨rfl, fun hrun => absurd rfl (hrun run)⟩
  | destroy => exact absurd rfl ha
  | tick d =>
      obtain rfl := Option.some.inj h
      exact ⟨rfl, fun _ => rfl⟩
  | look ret =>
      simp only [step, Option.ite_none_right_eq_some, Option.some.injEq] at h
      obtain ⟨_, rfl⟩ := h
      exact ⟨rfl, fun _ => rfl⟩
  | wake =>
      obtain ⟨pc, _, rfl⟩ := Option.map_eq_some_iff.mp h
      exact ⟨rfl, fun _ => rfl⟩
  | handled =>
      simp only [step] at h
      split at h <;> cases h
      exact ⟨rfl, fun _ => rfl⟩
  | popFront =>
      simp only [step] at h
      split at h <;> cases h
      exact ⟨rfl, fun _ => rfl⟩
  | resume =>
      simp only [step, Option.ite_none_right_eq_some, Option.some.injEq] at h
      obtain ⟨_, rfl⟩ := h
      exact ⟨rfl, fun _ => rfl⟩

/-- The destructor has posted the quit message. -/
def Posted (s : Looper) : Prop := s.destructor = .quitPosted ∨ s.destructor = .joining

theorem Posted.step {a : LooperAct} (hs : s.Posted) (h : s.step a = some t) : t.Posted := by
  by_cases ha : a = .destroy
  · subst ha
    rcases destroys h with hd | hd | ⟨_, _, _⟩ | _
    · simp [Posted, hd] at hs
    · simp [Posted, hd] at hs
    · exact .inl rfl
    · exact .inr rfl
  · have hsame := (step_same h ha).1
    unfold Posted at hs ⊢
    rwa [hsame]

/-- The thread leaves its loop for the quit message only. -/
theorem exited_step {a : LooperAct} (h : s.step a = some t) (hs : s.pc = .exited → s.Posted)
    (hquit : none ∈ s.queue → s.Posted) (ht : t.pc = .exited) : t.Posted := by
  have hposted : s.Posted → t.Posted := fun hs => hs.step h
  cases effect h with
  | call c label queue calls pc => exact hposted (hs (pc.symm.trans ht))
  | look ret label top eq =>
      subst eq
      have hlook := s.looked ret
      generalize s.look ret = pc at hlook ht
      cases hlook with
      | exited q _ hq => exact hposted (hquit (by simp [hq]))
      | _ => cases ht
  | handled m ret label handling eq =>
      subst eq
      simp only at ht
      split at ht <;> cases ht
  | popFront m label popping eq =>
      subst eq
      cases ht
  | other label look handled popFront queue calls pc =>
      rcases pc with hsame | ⟨_, htop⟩
      · exact hposted (hs (hsame.symm.trans ht))
      · rw [htop] at ht
        cases ht

theorem posted_of_exited {now : Int} (h : Lts.Reachable step (init now) s)
    (hpc : s.pc = .exited) : s.Posted := by
  refine (h.invariant (P := fun s => Lts.Reachable step (init now) s ∧ (s.pc = .exited → s.Posted))
    ⟨⟨[], rfl⟩, fun hexited => by cases hexited⟩ ?_).2 hpc
  rintro s a t ⟨⟨as, hreach⟩, hs⟩ hstep
  refine ⟨⟨as ++ [a], Lts.exec_append_iff.mpr ⟨s, hreach, Lts.exec_cons_iff.mpr ⟨t, hstep, rfl⟩⟩⟩,
    exited_step hstep hs fun hmem => ?_⟩
  by_contra hno
  rw [Posted, not_or] at hno
  exact noQuit_of_reachable ⟨as, hreach⟩ hno.1 hno.2 hmem

end Looper

def NotifiedAct.caused : NotifiedAct → Bool
  | .act a => a.caused
  | _ => true

def NotifiedAct.setsBack : NotifiedAct → Bool
  | .act a => a.setsBack
  | _ => false

/-- The steps of the looper thread and the clock, and the notifications. -/
def NotifiedAct.ofLooper : NotifiedAct → Bool
  | .act (.tick _) | .act (.look _) | .act .wake | .act .handled | .act .popFront | .act .resume =>
      true
  | .act _ => false
  | _ => true

/-- What the destructor, the looper thread and the clock do, and the notifications. -/
def NotifiedAct.internal : NotifiedAct → Bool
  | .act a => a.internal
  | _ => true

namespace NotifiedLooper

variable {x y : NotifiedLooper}

def rank (x : NotifiedLooper) : Nat :=
  x.looper.rank + x.looper.destructor.rank + 2 * (x.queueNotes + x.stateNotes)

theorem lowers : Lts.Lowers step (·.caused) (·.setsBack) 9 rank := by
  intro x a y hy
  cases effect hy with
  | @act a l hl =>
      have hrank := Looper.rank_step hl
      show (if a.caused then 1 else 0) + (l.rank + l.destructor.rank +
          2 * (x.queueNotes + a.queueNotes + (x.stateNotes + a.stateNotes))) ≤
        x.looper.rank + x.looper.destructor.rank + 2 * (x.queueNotes + x.stateNotes) +
          9 * if a.setsBack then 1 else 0
      omega
  | notifyQueue hpos =>
      have hrank := Looper.rank_notify x.looper.pc.notifyQueue_cases
      show 1 + ((x.looper.withPc x.looper.pc.notifyQueue).rank + x.looper.destructor.rank +
        2 * (x.queueNotes - 1 + x.stateNotes)) ≤
          x.looper.rank + x.looper.destructor.rank + 2 * (x.queueNotes + x.stateNotes) + 0
      omega
  | notifyState hpos =>
      have hrank := Looper.rank_notify x.looper.pc.notifyState_cases
      show 1 + ((x.looper.withPc x.looper.pc.notifyState).rank + x.looper.destructor.rank +
        2 * (x.queueNotes + (x.stateNotes - 1))) ≤
          x.looper.rank + x.looper.destructor.rank + 2 * (x.queueNotes + x.stateNotes) + 0
      omega
  | timeOut hpc hr =>
      have hrank := Looper.rank_timeOut hpc hr
      show 1 + ((x.looper.withPc .top).rank + x.looper.destructor.rank +
        2 * (x.queueNotes + x.stateNotes)) ≤
          x.looper.rank + x.looper.destructor.rank + 2 * (x.queueNotes + x.stateNotes) + 0
      omega

/-- **The looper thread does not spin.** In every run, the steps of the looper thread and of the
destructor and the notifications together are at most 15, and 9 for each call of another thread,
each wake-up without a cause and each handler that did not succeed. -/
theorem moves_le {now : Int} {as : List NotifiedAct} (h : Lts.exec step (init now) as = some y) :
    as.countP (·.caused) ≤ 15 + 9 * as.countP (·.setsBack) := by
  have hmoves := Lts.exec_rank lowers h
  have hinit : (init now).rank = 15 := rfl
  omega

/-- A message is handled, and then there is one wake-up without a cause. -/
def spuriousWakeUp : List NotifiedAct :=
  [.act (.post 0), .notifyQueue, .act (.look 0), .act .handled, .act .popFront, .act (.look 0),
    .act .wake, .act (.look 0)]

/-- After six steps the looper waits for an entry again. -/
theorem moves_le_spurious :
    ∃ y, Lts.exec step (init 0) spuriousWakeUp = some y ∧ y.looper.pc = .waitQueue ∧
      spuriousWakeUp.countP (·.caused) = 6 ∧ spuriousWakeUp.countP (·.setsBack) = 2 ∧
      spuriousWakeUp.countP (·.caused) ≤ 15 + 9 * spuriousWakeUp.countP (·.setsBack) := by
  have hrun : Lts.exec step (init 0) spuriousWakeUp =
      some ⟨⟨true, [], .waitQueue, .notStarted, 0, 1⟩, 0, 0⟩ := by rfl
  exact ⟨_, hrun, rfl, by decide, by decide, moves_le hrun⟩

/-! ## The looper at rest -/

/-- The same looper, `d` later. -/
def after (x : NotifiedLooper) (d : Nat) : NotifiedLooper :=
  { x with looper := { x.looper with now := x.looper.now + d } }

/-- Whatever time passes, no step has a cause any more. The first step of the destructor is a call,
and does not count. -/
def Resting (x : NotifiedLooper) : Prop :=
  ∀ (d : Nat) (a : NotifiedAct), a.caused = true →
    (a = .act .destroy → x.looper.destructor ≠ .notStarted) → (x.after d).step a = none

theorem Resting.notes (h : x.Resting) : x.queueNotes = 0 ∧ x.stateNotes = 0 := by
  have hqueue := h 0 .notifyQueue rfl (by simp)
  have hstate := h 0 .notifyState rfl (by simp)
  constructor
  · by_contra hpos
    simp [step, after, Nat.pos_of_ne_zero hpos] at hqueue
  · by_contra hpos
    simp [step, after, Nat.pos_of_ne_zero hpos] at hstate

theorem Resting.destructor (h : x.Resting) :
    x.looper.destructor ≠ .runningSet ∧ x.looper.destructor ≠ .quitPosted := by
  have hdestroy := h 0 (.act .destroy) rfl
  constructor
  · intro hd
    have := hdestroy (fun _ => by simp [hd])
    simp [step, after, Looper.step, Looper.destroy, hd] at this
  · intro hd
    have := hdestroy (fun _ => by simp [hd])
    simp [step, after, Looper.step, Looper.destroy, hd] at this

/-- At rest the thread is in a wait without a time-out, or out of its loop. -/
theorem Resting.pc (h : x.Resting) :
    x.looper.pc = .waitState ∨ x.looper.pc = .waitQueue ∨ x.looper.pc = .exited := by
  cases hpc : x.looper.pc with
  | waitState => exact .inl rfl
  | waitQueue => exact .inr (.inl rfl)
  | exited => exact .inr (.inr rfl)
  | top =>
      have := h 0 (.act (.look resultSuccess)) rfl (by simp)
      simp [step, after, Looper.step, hpc] at this
  | waitUntil r =>
      have := h (r - x.looper.now).toNat .timeOut rfl (by simp)
      have hlate : r ≤ x.looper.now + (r - x.looper.now).toNat := by omega
      simp [step, after, LoopPc.timeOut, hpc] at this
      omega
  | handling m ret =>
      have := h 0 (.act .handled) rfl (by simp)
      simp [step, after, Looper.step, hpc] at this
  | popping m =>
      have := h 0 (.act .popFront) rfl (by simp)
      simp [step, after, Looper.step, hpc] at this
  | sleeping =>
      have := h 0 (.act .resume) rfl (by simp)
      simp [step, after, Looper.step, hpc] at this

/-! ## The queue is served -/

/-- The entry of a handler that returns `NDL_ESP_RESULT_SUCCESS`. -/
def served (x : NotifiedLooper) : NotifiedAct → Option Entry
  | .act .handled =>
      match x.looper.pc with
      | .handling m ret => if ret = resultSuccess then some (some m) else none
      | _ => none
  | _ => none

theorem left_of_noFlight {l : Looper} (h : l.pc.inFlight = none) : l.left = l.queue := by
  unfold Looper.left
  cases hpc : l.pc <;> simp_all

/-- A wake-up concerns no entry. -/
theorem left_wake {l : Looper} {pc : LoopPc} (h : pc = l.pc ∨ Looper.wake l.pc = some pc) :
    (l.withPc pc).left = l.left := by
  rcases h with rfl | h
  · rfl
  · have hnone : l.pc.inFlight = none := by
      cases hpc : l.pc <;> rw [hpc] at h <;> first | rfl | cases h
    have htop : pc = .top := by
      cases hpc : l.pc <;> rw [hpc] at h <;> cases h <;> rfl
    rw [left_of_noFlight hnone, htop]
    rfl

/-- The steps of the looper thread get through the entries from the front. -/
theorem left_act {a : LooperAct} {l : Looper} (ha : (NotifiedAct.act a).ofLooper = true)
    (hl : x.looper.step a = some l) :
    x.looper.left = (served x (.act a)).toList ++ l.left := by
  cases a with
  | post r => cases ha
  | append r => cases ha
  | clearAll => cases ha
  | setRunningState run => cases ha
  | destroy => cases ha
  | tick d =>
      obtain rfl := Option.some.inj hl
      rfl
  | look ret =>
      simp only [Looper.step, Option.ite_none_right_eq_some, Option.some.injEq] at hl
      obtain ⟨hpc, rfl⟩ := hl
      show x.looper.left = [] ++ (x.looper.withPc (x.looper.look ret)).left
      rw [left_of_noFlight (by rw [hpc]; rfl), List.nil_append]
      have hlook := x.looper.looked ret
      generalize x.looper.look ret = pc at hlook
      cases hlook with
      | handling m q _ hq =>
          by_cases hret : ret = resultSuccess
          · simp [Looper.left, Looper.withPc, hq, hret]
          · simp [Looper.left, Looper.withPc, hret]
      | _ => rfl
  | wake =>
      obtain ⟨pc, hpc, rfl⟩ := Option.map_eq_some_iff.mp hl
      exact (left_wake (.inr hpc)).symm
  | handled =>
      simp only [Looper.step] at hl
      split at hl
      case h_1 m ret hpc =>
          obtain rfl := Option.some.inj hl
          by_cases hret : ret = resultSuccess
          · simp [served, Looper.left, hpc, hret]
          · simp [served, Looper.left, hpc, hret]
      case h_2 => cases hl
  | popFront =>
      simp only [Looper.step] at hl
      split at hl
      case h_1 m hpc =>
          obtain rfl := Option.some.inj hl
          simp [served, Looper.left, hpc]
      case h_2 => cases hl
  | resume =>
      simp only [Looper.step, Option.ite_none_right_eq_some, Option.some.injEq] at hl
      obtain ⟨hpc, rfl⟩ := hl
      simp [served, Looper.left, hpc]

theorem left_step {a : NotifiedAct} (ha : a.ofLooper = true) (hy : x.step a = some y) :
    x.looper.left = (served x a).toList ++ y.looper.left := by
  cases effect hy with
  | act hl => exact left_act ha hl
  | notifyQueue => exact (left_wake x.looper.pc.notifyQueue_cases).symm
  | notifyState => exact (left_wake x.looper.pc.notifyState_cases).symm
  | timeOut hpc => exact (left_wake (.inr (by rw [hpc]; rfl))).symm

/-- The looper's part of a reachable state is reachable. -/
theorem reachable_looper {now : Int} (hx : Lts.Reachable step (init now) x) :
    Lts.Reachable Looper.step (Looper.init now) x.looper := by
  obtain ⟨as, has⟩ := hx
  obtain ⟨bs, hbs, _⟩ := refines_run has
  exact ⟨bs, hbs⟩

/-- The looper thread does not touch the running state and the destructor. -/
theorem ofLooper_same {a : NotifiedAct} (ha : a.ofLooper = true)
    (hx : x.looper.running = true ∧ x.looper.destructor = .notStarted) (hy : x.step a = some y) :
    y.looper.running = true ∧ y.looper.destructor = .notStarted := by
  cases effect hy with
  | @act a l hl =>
      have hdestroy : a ≠ .destroy := by
        rintro rfl
        cases ha
      obtain ⟨hd, hr⟩ := Looper.step_same hl hdestroy
      refine ⟨(hr ?_).trans hx.1, hd.trans hx.2⟩
      rintro run rfl
      cases ha
  | _ => exact hx

/-- **What is queued is served.** From every state that a run of the looper leads to, with the
running state set and before the destructor: however the steps of its thread, the notifications and
the clock go on, and whatever the handlers return, the handlers that succeed are those of the queue,
in its order. Where the thread comes to rest, none is left, and it waits for the next entry. -/
theorem queueServed {now : Int} {as : List NotifiedAct} (hx : Lts.Reachable step (init now) x)
    (hrunning : x.looper.running = true) (hdestructor : x.looper.destructor = .notStarted)
    (has : ∀ a ∈ as, a.ofLooper = true) (hy : Lts.exec step x as = some y) :
    Lts.shown step served x as ++ y.looper.left = x.looper.left ∧
      (y.Resting → y.looper.left = [] ∧ y.looper.pc = .waitQueue) := by
  have hsame : y.looper.running = true ∧ y.looper.destructor = .notStarted :=
    Lts.exec_invariant
      (P := fun z : NotifiedLooper => z.looper.running = true ∧ z.looper.destructor = .notStarted)
      (fun z a z' ha hz hstep => ofLooper_same ha hz hstep) has ⟨hrunning, hdestructor⟩ hy
  have hleft : ∀ (z : NotifiedLooper) a z', a.ofLooper = true → True → step z a = some z' →
      z.looper.left = (served z a).toList ++ z'.looper.left ∧ True :=
    fun z a z' ha _ hstep => ⟨left_step ha hstep, trivial⟩
  refine ⟨Lts.shown_append hleft has trivial hy, fun hrest => ?_⟩
  have hreach : Lts.Reachable step (init now) y := by
    obtain ⟨bs, hbs⟩ := hx
    exact ⟨bs ++ as, Lts.exec_append_iff.mpr ⟨x, hbs, hy⟩⟩
  have hlost := noneLost_of_reachable hreach
  have hnotes := hrest.notes
  rcases hrest.pc with hpc | hpc | hpc
  · -- with the running state set, a notification of it is still to come
    rcases hlost.state hpc with hstopped | hnote | hset
    · simp [hsame.1] at hstopped
    · omega
    · exact absurd hset hrest.destructor.1
  · rcases hlost.queue hpc with hempty | hnote | hquit
    · exact ⟨by rw [left_of_noFlight (by rw [hpc]; rfl), hempty], hpc⟩
    · omega
    · exact absurd hquit hrest.destructor.2
  · rcases Looper.posted_of_exited (reachable_looper hreach) hpc with hquit | hquit
    · rw [hsame.2] at hquit
      cases hquit
    · rw [hsame.2] at hquit
      cases hquit

/-- The thread waits for an entry or has left its loop, and nobody has still to notify it. -/
theorem resting_of_noNotes (hpc : x.looper.pc = .waitQueue ∨ x.looper.pc = .exited)
    (hdestructor : x.looper.destructor = .notStarted ∨ x.looper.destructor = .joining)
    (hqueue : x.queueNotes = 0) (hstate : x.stateNotes = 0) : x.Resting := by
  intro d a ha hcall
  cases a with
  | notifyQueue => simp [step, after, hqueue]
  | notifyState => simp [step, after, hstate]
  | timeOut => rcases hpc with hpc | hpc <;> simp [step, after, LoopPc.timeOut, hpc]
  | act a =>
      cases a with
      | destroy =>
          have hjoin := hdestructor.resolve_left (hcall rfl)
          simp [step, after, Looper.step, Looper.destroy, hjoin]
      | look ret => rcases hpc with hpc | hpc <;> simp [step, after, Looper.step, hpc]
      | handled => rcases hpc with hpc | hpc <;> simp [step, after, Looper.step, hpc]
      | popFront => rcases hpc with hpc | hpc <;> simp [step, after, Looper.step, hpc]
      | resume => rcases hpc with hpc | hpc <;> simp [step, after, Looper.step, hpc]
      | _ => cases ha

/-- Two messages are posted, the second for the time 3; the first handler fails once. -/
theorem queueServed_retried :
    ∃ (x y : NotifiedLooper) (as : List NotifiedAct),
      Lts.exec step (init 0) [.act (.post 0), .act (.post 3)] = some x ∧
      (∀ a ∈ as, a.ofLooper = true) ∧ Lts.exec step x as = some y ∧ y.Resting ∧
      y.looper.pc = .waitQueue ∧ Lts.shown step served x as = [some ⟨0, 0⟩, some ⟨1, 3⟩] := by
  have hx : Lts.exec step (init 0) [.act (.post 0), .act (.post 3)] =
      some ⟨⟨true, [some ⟨0, 0⟩, some ⟨1, 3⟩], .top, .notStarted, 0, 2⟩, 2, 0⟩ := by rfl
  have hlabels : ∀ a ∈ ([.notifyQueue, .act (.look 1), .act .handled, .act .resume, .act (.look 0),
      .act .handled, .act .popFront, .act (.look 0), .notifyQueue, .act (.look 0), .act (.tick 3),
      .timeOut, .act (.look 0), .act .handled, .act .popFront, .act (.look 0)] :
        List NotifiedAct), a.ofLooper = true := by
    decide
  have hy : Lts.exec step
      ⟨⟨true, [some ⟨0, 0⟩, some ⟨1, 3⟩], .top, .notStarted, 0, 2⟩, 2, 0⟩
      [.notifyQueue, .act (.look 1), .act .handled, .act .resume, .act (.look 0),
        .act .handled, .act .popFront, .act (.look 0), .notifyQueue, .act (.look 0),
        .act (.tick 3), .timeOut, .act (.look 0), .act .handled, .act .popFront,
        .act (.look 0)] =
      some ⟨⟨true, [], .waitQueue, .notStarted, 3, 2⟩, 0, 0⟩ := by rfl
  have hrest := resting_of_noNotes (x := ⟨⟨true, [], .waitQueue, .notStarted, 3, 2⟩, 0, 0⟩)
    (.inl rfl) (.inl rfl) rfl rfl
  obtain ⟨hshown, hdone⟩ := queueServed ⟨_, hx⟩ rfl rfl hlabels hy
  obtain ⟨hleft, hpc⟩ := hdone hrest
  refine ⟨_, _, _, hx, hlabels, hy, hrest, hpc, ?_⟩
  rw [hleft, List.append_nil] at hshown
  exact hshown

/-! ## The destructor returns -/

/-- The destructor has run up to `post(quit)`; no other thread has called the looper since the
destructor began. -/
def QuitDue (now : Int) (x : NotifiedLooper) : Prop :=
  ∃ x₀ bs, Lts.Reachable step (init now) x₀ ∧ x₀.looper.destructor = .notStarted ∧
    (∀ b ∈ bs, b.internal = true) ∧ Lts.exec step x₀ bs = some x ∧
    x.looper.destructor = .runningNotified

theorem internal_of_refines {as : List NotifiedAct} {bs : List LooperAct}
    (has : ∀ a ∈ as, a.internal = true) (hbs : ∀ b ∈ bs, b = .wake ∨ .act b ∈ as) :
    ∀ b ∈ bs, b.internal = true := by
  intro b hb
  rcases hbs b hb with rfl | hb
  · rfl
  · exact has _ hb

theorem QuitDue.looper {now : Int} (h : QuitDue now x) : x.looper.QuitDue now := by
  obtain ⟨x₀, bs, hreach, hd₀, hbs, hx, hd⟩ := h
  obtain ⟨cs, hcs, hlabels⟩ := refines_run hx
  exact ⟨x₀.looper, cs, reachable_looper hreach, hd₀, internal_of_refines hbs hlabels, hcs, hd⟩

/-- With the quit message kept the thread does not come to rest in its loop. -/
theorem exited_of_quitting (hq : x.looper.Quitting) (hrest : x.Resting) :
    x.looper.pc = .exited ∧ x.looper.destructor = .joining := by
  have hjoin : x.looper.destructor = .joining := hq.posted.resolve_left hrest.destructor.2
  refine ⟨?_, hjoin⟩
  rcases hrest.pc with hpc | hpc | hpc
  · exact absurd hpc (hq.resumed.noStateWait (by simp [hjoin]) (by simp [hjoin]))
  · exact absurd hpc (hq.joined hjoin)
  · exact hpc

/-- The quit message has been posted and popped, and the handlers succeed. -/
structure QuitLost (x : NotifiedLooper) : Prop where
  posted : x.looper.Posted
  noQuit : none ∉ x.looper.queue
  inLoop : x.looper.pc ≠ .exited
  awake : x.looper.pc ≠ .sleeping
  succeeds : ∀ m ret, x.looper.pc = .handling m ret → ret = resultSuccess

theorem QuitLost.after (h : x.QuitLost) (d : Nat) : (x.after d).QuitLost :=
  ⟨h.posted, h.noQuit, h.inLoop, h.awake, h.succeeds⟩

/-- The thread is notified. -/
theorem QuitLost.notify (h : x.QuitLost) {pc : LoopPc}
    (hpc : pc = x.looper.pc ∨ Looper.wake x.looper.pc = some pc) (n k : Nat) :
    QuitLost ⟨x.looper.withPc pc, n, k⟩ := by
  rcases hpc with rfl | hwake
  · exact ⟨h.posted, h.noQuit, h.inLoop, h.awake, h.succeeds⟩
  · have htop : pc = .top := by
      cases hpc : x.looper.pc <;> rw [hpc] at hwake <;> cases hwake <;> rfl
    subst htop
    exact ⟨h.posted, h.noQuit, by simp, by simp, by simp⟩

theorem QuitLost.step {a : NotifiedAct} (h : x.QuitLost) (ha : a.caused = true)
    (hlook : ∀ ret, a = .act (.look ret) → ret = resultSuccess) (hy : x.step a = some y) :
    y.QuitLost := by
  cases effect hy with
  | notifyQueue => exact h.notify x.looper.pc.notifyQueue_cases _ _
  | notifyState => exact h.notify x.looper.pc.notifyState_cases _ _
  | timeOut hpc => exact h.notify (.inr (by rw [hpc]; rfl)) _ _
  | @act a l hl =>
      have hposted : l.Posted := h.posted.step hl
      cases a with
      | post r => cases ha
      | append r => cases ha
      | clearAll => cases ha
      | setRunningState run => cases ha
      | tick d => cases ha
      | wake => cases ha
      | look ret =>
          obtain rfl := hlook ret rfl
          simp only [Looper.step, Option.ite_none_right_eq_some, Option.some.injEq] at hl
          obtain ⟨_, rfl⟩ := hl
          have hfound := x.looper.looked resultSuccess
          refine ⟨hposted, h.noQuit, fun hpc => ?_, fun hpc => ?_, fun m ret hpc => ?_⟩
          · replace hpc : x.looper.look resultSuccess = .exited := hpc
            rw [hpc] at hfound
            cases hfound with
            | exited q _ hq => exact h.noQuit (by simp [hq])
          · replace hpc : x.looper.look resultSuccess = .sleeping := hpc
            rw [hpc] at hfound
            cases hfound
          · replace hpc : x.looper.look resultSuccess = .handling m ret := hpc
            rw [hpc] at hfound
            cases hfound
            rfl
      | handled =>
          simp only [Looper.step] at hl
          split at hl
          case h_1 m ret hpc =>
              obtain rfl := h.succeeds m ret hpc
              obtain rfl := Option.some.inj hl
              exact ⟨hposted, h.noQuit, by simp, by simp, by simp⟩
          case h_2 => cases hl
      | popFront =>
          simp only [Looper.step] at hl
          split at hl
          case h_1 m hpc =>
              obtain rfl := Option.some.inj hl
              have hnoQuit : none ∉ x.looper.queue.tail :=
                fun hmem => h.noQuit (List.mem_of_mem_tail hmem)
              exact ⟨hposted, hnoQuit, by simp, by simp, by simp⟩
          case h_2 => cases hl
      | resume =>
          simp only [Looper.step, Option.ite_none_right_eq_some, Option.some.injEq] at hl
          exact absurd hl.1 h.awake
      | destroy =>
          rcases Looper.destroys hl with hd | hd | ⟨hd, _, _⟩ | hd
          · simpa [Looper.Posted, hd] using h.posted
          · simpa [Looper.Posted, hd] using h.posted
          · simpa [Looper.Posted, hd] using h.posted
          · have hnotify := h.notify x.looper.pc.notifyQueue_cases 0 0
            exact ⟨hposted, hnotify.noQuit, hnotify.inLoop, hnotify.awake, hnotify.succeeds⟩

theorem internal_of_caused {a : NotifiedAct} (ha : a.caused = true) : a.internal = true := by
  cases a with
  | act a => cases a <;> first | rfl | cases ha
  | _ => rfl

/-- A state that is not at rest can go on by a caused step, with a handler that is going to
succeed. -/
theorem goesOn_of_not_resting (h : ¬ x.Resting) :
    ∃ d a y, a.caused = true ∧ (∀ ret, a = .act (.look ret) → ret = resultSuccess) ∧
      (x.after d).step a = some y := by
  simp only [Resting, not_forall] at h
  obtain ⟨d, a, ha, -, hsome⟩ := h
  obtain ⟨y, hy⟩ := Option.ne_none_iff_exists'.mp hsome
  by_cases hlook : ∃ ret, a = .act (.look ret)
  · obtain ⟨ret, rfl⟩ := hlook
    simp only [step, Looper.step, Option.map_eq_some_iff, Option.ite_none_right_eq_some] at hy
    obtain ⟨_, ⟨htop, _⟩, _⟩ := hy
    have hstep : ∃ z, (x.after d).step (.act (.look resultSuccess)) = some z := by
      simp only [step, Looper.step, if_pos htop]
      exact ⟨_, rfl⟩
    obtain ⟨z, hz⟩ := hstep
    refine ⟨d, .act (.look resultSuccess), z, rfl, fun ret hret => ?_, hz⟩
    cases hret
    rfl
  · refine ⟨d, a, y, ha, fun ret hret => absurd ⟨ret, hret⟩ hlook, hy⟩

/-- Without the quit message the thread goes on until it is at rest. -/
theorem QuitLost.lower (h : x.QuitLost) (hno : ¬ x.Resting) :
    ∃ as y, (∀ a ∈ as, NotifiedAct.internal a = true) ∧
      Lts.exec NotifiedLooper.step x as = some y ∧ y.QuitLost ∧ y.rank < x.rank := by
  obtain ⟨d, a, y, ha, hlook, hy⟩ := goesOn_of_not_resting hno
  refine ⟨[.act (.tick d), a], y, ?_, ?_, (h.after d).step ha hlook hy, ?_⟩
  · intro b hb
    rcases List.mem_cons.mp hb with rfl | hb
    · rfl
    · rw [List.mem_singleton.mp hb]
      exact internal_of_caused ha
  · exact Lts.exec_cons_iff.mpr ⟨x.after d, rfl, Lts.exec_cons_iff.mpr ⟨y, hy, rfl⟩⟩
  · have hafter : (x.after d).rank ≤ x.rank := by
      have := lowers x (.act (.tick d)) (x.after d) rfl
      simpa [NotifiedAct.caused, LooperAct.caused, NotifiedAct.setsBack, LooperAct.setsBack]
        using this
    have hforth : a.setsBack = false := by
      cases a with
      | act a =>
          cases a with
          | resume =>
              obtain ⟨l, hl, _⟩ := Option.map_eq_some_iff.mp hy
              simp only [Looper.step, Option.ite_none_right_eq_some] at hl
              exact absurd hl.1 h.awake
          | _ => first | rfl | cases ha
      | _ => rfl
    have hlower := lowers (x.after d) a y hy
    simp only [ha, hforth, if_true, Bool.false_eq_true, if_false] at hlower
    show y.rank < x.rank
    omega

theorem QuitLost.rests (h : x.QuitLost) :
    ∃ as y, (∀ a ∈ as, NotifiedAct.internal a = true) ∧
      Lts.exec NotifiedLooper.step x as = some y ∧ y.QuitLost ∧ y.Resting :=
  Lts.exists_rest (fun _ h hno => QuitLost.lower h hno) h

/-- The successful return of the handler in flight pops the front entry. -/
theorem popped_of_succeeding (h : x.looper.pc.succeeding) :
    ∃ as y, (∀ a ∈ as, NotifiedAct.internal a = true) ∧ Lts.exec step x as = some y ∧
      y.looper = { x.looper with queue := x.looper.queue.tail, pc := .top } := by
  cases hpc : x.looper.pc <;> simp only [hpc, LoopPc.succeeding] at h
  case handling m ret =>
      refine ⟨[.act .handled, .act .popFront], ⟨_, x.queueNotes, x.stateNotes⟩, by decide, ?_, rfl⟩
      simp [Lts.exec, step, Looper.step, hpc, h, LooperAct.queueNotes, LooperAct.stateNotes]
  case popping m =>
      refine ⟨[.act .popFront], ⟨_, x.queueNotes, x.stateNotes⟩, by decide, ?_, rfl⟩
      simp [Lts.exec, step, Looper.step, hpc, LooperAct.queueNotes, LooperAct.stateNotes]

/-- A quit message that overtakes is popped in some run. -/
theorem quitLost_of_overtakes {now : Int} (h : QuitDue now x) (ho : x.looper.QuitOvertakes) :
    ∃ as y, (∀ a ∈ as, NotifiedAct.internal a = true) ∧
      Lts.exec step x (.act .destroy :: as) = some y ∧ y.QuitLost := by
  obtain ⟨l, hl⟩ := h.looper.destroy_enabled
  obtain ⟨hqueue, hpc⟩ := Looper.insert_of_overtakes h.looper.due h.looper.noQuit ho hl
  have hz : x.step (.act .destroy) = some ⟨l, x.queueNotes, x.stateNotes⟩ := by
    simp [step, hl, LooperAct.queueNotes, LooperAct.stateNotes]
  have hsucceeding : l.pc.succeeding := hpc ▸ ho.1
  obtain ⟨as, y, has, hy, hlooper⟩ :=
    popped_of_succeeding (x := ⟨l, x.queueNotes, x.stateNotes⟩) hsucceeding
  refine ⟨as, y, has, Lts.exec_cons_iff.mpr ⟨_, hz, hy⟩, ?_⟩
  have hposted : l.Posted := by
    rcases Looper.destroys hl with hd | hd | ⟨_, _, _⟩ | _
    · simp [h.looper.due] at hd
    · simp [h.looper.due] at hd
    · exact .inl rfl
    · exact .inr rfl
  refine ⟨?_, ?_, ?_, ?_, ?_⟩
  · rw [hlooper]
    exact hposted
  · rw [hlooper]
    show none ∉ l.queue.tail
    rw [hqueue]
    exact h.looper.noQuit
  · rw [hlooper]
    simp
  · rw [hlooper]
    simp
  · rw [hlooper]
    simp

/-- **The destructor returns.** From the insertion of the quit message on, with the notifications,
the clock and the looper thread in any order: wherever they come to rest the thread has left its
loop and the destructor is in `join`, unless the quit message goes in front of the queue while a
handler is in flight that succeeds. Then there is a run to a rest in which the thread is still in
its loop. -/
theorem joinReturns_iff {now : Int} (h : QuitDue now x) :
    (∀ as y, (∀ a ∈ as, NotifiedAct.internal a = true) →
      Lts.exec step x (.act .destroy :: as) = some y → y.Resting →
        y.looper.pc = .exited ∧ y.looper.destructor = .joining) ↔
      ¬ x.looper.QuitOvertakes := by
  constructor
  · intro hall ho
    obtain ⟨as, y, has, hy, hlost⟩ := quitLost_of_overtakes h ho
    obtain ⟨bs, z, hbs, hz, hlost, hrest⟩ := hlost.rests
    have hinternal : ∀ a ∈ as ++ bs, NotifiedAct.internal a = true := by
      intro a ha
      rcases List.mem_append.mp ha with ha | ha
      · exact has a ha
      · exact hbs a ha
    have hrun : Lts.exec step x (.act .destroy :: (as ++ bs)) = some z := by
      rw [← List.cons_append]
      exact Lts.exec_append_iff.mpr ⟨y, hy, hz⟩
    exact hlost.inLoop (hall (as ++ bs) z hinternal hrun hrest).1
  · intro ho as y has hy hrest
    obtain ⟨z, hz, hy⟩ := Lts.exec_cons_iff.mp hy
    obtain ⟨l, hl, rfl⟩ := Option.map_eq_some_iff.mp hz
    have hinsert := Looper.quitting_of_insert h.looper.resumed h.looper.due ho hl
    obtain ⟨bs, hbs, hlabels⟩ := refines_run hy
    have hquitting : y.looper.Quitting :=
      Lts.exec_invariant (fun s a t ha hs ht => Looper.Quitting.step hs ha ht)
        (internal_of_refines has hlabels) hinsert hbs
    exact exited_of_quitting hquitting hrest

/-- A paused looper with a message for later is destroyed: its thread leaves the loop. -/
theorem joinReturns_paused :
    ∃ x y : NotifiedLooper, QuitDue 0 x ∧
      Lts.exec step x [.act .destroy, .act .destroy, .act (.look 0), .notifyQueue, .notifyState] =
        some y ∧
      y.Resting ∧ y.looper.pc = .exited ∧ y.looper.destructor = .joining := by
  have hx₀ : Lts.exec step (init 0) [.act (.setRunningState false), .act (.post 5),
      .act (.look 0)] = some ⟨⟨false, [some ⟨0, 5⟩], .waitState, .notStarted, 0, 1⟩, 1, 1⟩ := by rfl
  have hx : Lts.exec step ⟨⟨false, [some ⟨0, 5⟩], .waitState, .notStarted, 0, 1⟩, 1, 1⟩
      [.act .destroy, .act .destroy] =
        some ⟨⟨true, [some ⟨0, 5⟩], .top, .runningNotified, 0, 1⟩, 1, 1⟩ := by rfl
  have hdue : QuitDue 0 ⟨⟨true, [some ⟨0, 5⟩], .top, .runningNotified, 0, 1⟩, 1, 1⟩ :=
    ⟨_, [.act .destroy, .act .destroy], ⟨_, hx₀⟩, rfl, by decide, hx, rfl⟩
  have hy : Lts.exec step ⟨⟨true, [some ⟨0, 5⟩], .top, .runningNotified, 0, 1⟩, 1, 1⟩
      [.act .destroy, .act .destroy, .act (.look 0), .notifyQueue, .notifyState] =
        some ⟨⟨true, [none, some ⟨0, 5⟩], .exited, .joining, 0, 2⟩, 0, 0⟩ := by rfl
  have hrest : Resting ⟨⟨true, [none, some ⟨0, 5⟩], .exited, .joining, 0, 2⟩, 0, 0⟩ :=
    resting_of_noNotes (.inr rfl) (.inr rfl) rfl rfl
  exact ⟨_, _, hdue, hy, hrest,
    (joinReturns_iff hdue).mpr (fun ho => ho.1) _ _ (by decide) hy hrest⟩

end NotifiedLooper

end DirectMedia

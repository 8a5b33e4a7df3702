import DirectMedia.Message.Dispatch
import DirectMedia.Message.Quit

set_option autoImplicit false

/-! # What wakes the looper

`post`, `append` and `setRunningState` change what `loop` looks at under `message_queue_lock_` and
call `notify_one` after they have left it; `clearAll` notifies nobody. Here the notification is a
step of its own, so that the looper thread may look at the queue, and wait again, in between. A wait
ends by a notification, by its time-out, or without a cause.

The thread never waits for what is there already: what it waits for has not come, or somebody has
still to notify it (`NoneLost`, `noneLost_of_reachable`).
-/

namespace DirectMedia

/-- A looper, and how many threads in `post`, `append` or `setRunningState` have still to call
`notify_one`. -/
structure NotifiedLooper where
  looper : Looper
  /-- of `message_queue_changed_cond_` -/
  queueNotes : Nat
  /-- of `message_state_changed_cond_` -/
  stateNotes : Nat
  deriving DecidableEq, Repr

/-- The labels of its steps. -/
inductive NotifiedAct where
  /-- a step of the looper; `wake` is a wake-up without a cause -/
  | act (a : LooperAct)
  | notifyQueue
  | notifyState
  | timeOut
  deriving DecidableEq, Repr

/-- The calls of `notify_one` that a step leaves to be made. The destructor makes its own in steps
of their own. -/
def LooperAct.queueNotes : LooperAct → Nat
  | .post _ | .append _ => 1
  | _ => 0

def LooperAct.stateNotes : LooperAct → Nat
  | .setRunningState _ => 1
  | _ => 0

/-- `message_queue_changed_cond_.notify_one()`. -/
def LoopPc.notifyQueue : LoopPc → LoopPc
  | .waitQueue | .waitUntil _ => .top
  | pc => pc

/-- `message_state_changed_cond_.notify_one()`. -/
def LoopPc.notifyState : LoopPc → LoopPc
  | .waitState => .top
  | pc => pc

theorem LoopPc.notifyQueue_cases (pc : LoopPc) :
    pc.notifyQueue = pc ∨ Looper.wake pc = some pc.notifyQueue := by
  cases pc <;> simp [notifyQueue, Looper.wake]

theorem LoopPc.notifyState_cases (pc : LoopPc) :
    pc.notifyState = pc ∨ Looper.wake pc = some pc.notifyState := by
  cases pc <;> simp [notifyState, Looper.wake]

/-- Who is not woken stays where it is. -/
theorem LoopPc.of_notifyQueue {pc pc' : LoopPc} (h : pc.notifyQueue = pc') (hne : pc' ≠ .top) :
    pc = pc' ∧ pc' ≠ .waitQueue ∧ ∀ r, pc' ≠ .waitUntil r := by
  subst h
  cases pc <;> simp_all [notifyQueue]

theorem LoopPc.of_notifyState {pc pc' : LoopPc} (h : pc.notifyState = pc') (hne : pc' ≠ .top) :
    pc = pc' ∧ pc' ≠ .waitState := by
  subst h
  cases pc <;> simp_all [notifyState]

/-- The thread is in a wait. -/
def LoopPc.waiting : LoopPc → Bool
  | .waitState | .waitQueue | .waitUntil _ => true
  | _ => false

/-- `wait_for` has timed out, at the time `now` at the earliest. -/
def LoopPc.timeOut (now : Int) : LoopPc → Option LoopPc
  | .waitUntil r => if r ≤ now then some .top else none
  | _ => none

def Looper.withPc (l : Looper) (pc : LoopPc) : Looper := { l with pc := pc }

@[simp] theorem Looper.withPc_pc (l : Looper) (pc : LoopPc) : (l.withPc pc).pc = pc := rfl

def Looper.withQueue (l : Looper) (q : List Entry) : Looper :=
  { l with queue := q, calls := l.calls + 1 }

/-- The message may be handed over at the time `t`. -/
def Message.due (m : Message) (t : Int) : Bool := decide (m.runAt = 0 ∨ m.runAt ≤ t)

/-- What the section at the head of `loop` finds. -/
inductive Looper.Looked (l : Looper) (ret : Int) : LoopPc → Prop
  | waitState (h : l.running = false) : Looked l ret .waitState
  | waitQueue (h : l.running = true) (hq : l.queue = []) : Looked l ret .waitQueue
  | exited (q : List Entry) (h : l.running = true) (hq : l.queue = none :: q) :
      Looked l ret .exited
  | waitUntil (m : Message) (q : List Entry) (h : l.running = true) (hq : l.queue = some m :: q)
      (hdue : m.due l.now = false) : Looked l ret (.waitUntil m.runAt)
  | handling (m : Message) (q : List Entry) (h : l.running = true) (hq : l.queue = some m :: q)
      (hdue : m.due l.now = true) : Looked l ret (.handling m ret)

theorem Looper.looked (l : Looper) (ret : Int) : l.Looked ret (l.look ret) := by
  unfold Looper.look
  split
  case isTrue h => exact .waitState h
  case isFalse h =>
      have hrunning : l.running = true := by simpa using h
      split
      case h_1 hq => exact .waitQueue hrunning hq
      case h_2 q hq => exact .exited q hrunning hq
      case h_3 m q hq =>
          split
          case isTrue hlate =>
              refine .waitUntil m q hrunning hq (decide_eq_false ?_)
              omega
          case isFalse hdue =>
              refine .handling m q hrunning hq (decide_eq_true ?_)
              omega

/-- The four steps of the destructor. -/
inductive Looper.Destroys (s : Looper) : Looper → Prop
  | setRunning (h : s.destructor = .notStarted) :
      Destroys s { s with running := true, destructor := .runningSet }
  | notifyState (h : s.destructor = .runningSet) :
      Destroys s { s.withPc s.pc.notifyState with destructor := .runningNotified }
  | postQuit (h : s.destructor = .runningNotified) (q : List Entry)
      (hq : insertEntry none s.queue = some q) :
      Destroys s { s.withQueue q with destructor := .quitPosted }
  | notifyQueue (h : s.destructor = .quitPosted) :
      Destroys s { s.withPc s.pc.notifyQueue with destructor := .joining }

theorem Looper.destroys {s t : Looper} (h : s.destroy = some t) : s.Destroys t := by
  unfold Looper.destroy at h
  split at h
  case h_1 hd => exact Option.some.inj h ▸ .setRunning hd
  case h_2 hd =>
      have hpc : (if s.pc = .waitState then .top else s.pc) = s.pc.notifyState := by
        cases s.pc <;> simp [LoopPc.notifyState]
      rw [hpc] at h
      exact Option.some.inj h ▸ .notifyState hd
  case h_3 hd =>
      obtain ⟨_, hcall, rfl⟩ := Option.map_eq_some_iff.mp h
      obtain ⟨q, hq, rfl⟩ := Option.map_eq_some_iff.mp hcall
      exact .postQuit hd q hq
  case h_4 hd => exact Option.some.inj h ▸ .notifyQueue hd
  case h_5 => cases h

namespace NotifiedLooper

/-- A new looper at the time `now`. -/
def init (now : Int) : NotifiedLooper := ⟨Looper.init now, 0, 0⟩

/-- One step. -/
def step (x : NotifiedLooper) : NotifiedAct → Option NotifiedLooper
  | .act a =>
      (x.looper.step a).map (⟨·, x.queueNotes + a.queueNotes, x.stateNotes + a.stateNotes⟩)
  | .notifyQueue =>
      if 0 < x.queueNotes then
        some { x with
          looper := x.looper.withPc x.looper.pc.notifyQueue
          queueNotes := x.queueNotes - 1 }
      else none
  | .notifyState =>
      if 0 < x.stateNotes then
        some { x with
          looper := x.looper.withPc x.looper.pc.notifyState
          stateNotes := x.stateNotes - 1 }
      else none
  | .timeOut =>
      (x.looper.pc.timeOut x.looper.now).map fun pc => { x with looper := x.looper.withPc pc }

/-! ## What a step can do -/

/-- The steps of the looper, and the three kinds of ends of a wait. -/
inductive Effect (x : NotifiedLooper) : NotifiedAct → NotifiedLooper → Prop
  | act {a : LooperAct} {l : Looper} (h : x.looper.step a = some l) :
      Effect x (.act a) ⟨l, x.queueNotes + a.queueNotes, x.stateNotes + a.stateNotes⟩
  | notifyQueue (h : 0 < x.queueNotes) :
      Effect x .notifyQueue
        ⟨x.looper.withPc x.looper.pc.notifyQueue, x.queueNotes - 1, x.stateNotes⟩
  | notifyState (h : 0 < x.stateNotes) :
      Effect x .notifyState
        ⟨x.looper.withPc x.looper.pc.notifyState, x.queueNotes, x.stateNotes - 1⟩
  | timeOut {r : Int} (hpc : x.looper.pc = .waitUntil r) (hr : r ≤ x.looper.now) :
      Effect x .timeOut ⟨x.looper.withPc .top, x.queueNotes, x.stateNotes⟩

theorem effect {x y : NotifiedLooper} {a : NotifiedAct} (h : x.step a = some y) :
    Effect x a y := by
  cases a with
  | act a =>
      obtain ⟨l, hl, rfl⟩ := Option.map_eq_some_iff.mp h
      exact .act hl
  | notifyQueue =>
      simp only [step, Option.ite_none_right_eq_some, Option.some.injEq] at h
      obtain ⟨hpos, rfl⟩ := h
      exact .notifyQueue hpos
  | notifyState =>
      simp only [step, Option.ite_none_right_eq_some, Option.some.injEq] at h
      obtain ⟨hpos, rfl⟩ := h
      exact .notifyState hpos
  | timeOut =>
      obtain ⟨pc, hpc, rfl⟩ := Option.map_eq_some_iff.mp h
      unfold LoopPc.timeOut at hpc
      split at hpc
      case h_1 r hr =>
          simp only [Option.ite_none_right_eq_some, Option.some.injEq] at hpc
          obtain ⟨hle, rfl⟩ := hpc
          exact .timeOut hr hle
      case h_2 => cases hpc

/-- **The looper is the one of `Looper`**: an end of a wait is its `wake`, and a notification that
nobody waits for does nothing. -/
theorem refines {x y : NotifiedLooper} {a : NotifiedAct} (h : x.step a = some y) :
    ∃ bs : List LooperAct, Lts.exec Looper.step x.looper bs = some y.looper ∧
      ∀ b ∈ bs, b = .wake ∨ a = .act b := by
  have hwake : ∀ pc, pc = x.looper.pc ∨ Looper.wake x.looper.pc = some pc →
      ∃ bs : List LooperAct, Lts.exec Looper.step x.looper bs = some (x.looper.withPc pc) ∧
        ∀ b ∈ bs, b = .wake ∨ a = .act b := by
    rintro pc (rfl | hpc)
    · exact ⟨[], rfl, by simp⟩
    · refine ⟨[.wake], Lts.exec_cons_iff.mpr ⟨x.looper.withPc pc, ?_, rfl⟩, by simp⟩
      show (Looper.wake x.looper.pc).map _ = _
      rw [hpc]
      rfl
  cases effect h with
  | @act a l hl =>
      refine ⟨[a], Lts.exec_cons_iff.mpr ⟨l, hl, rfl⟩, fun b hb => .inr ?_⟩
      rw [List.mem_singleton.mp hb]
  | notifyQueue => exact hwake _ x.looper.pc.notifyQueue_cases
  | notifyState => exact hwake _ x.looper.pc.notifyState_cases
  | timeOut hpc =>
      apply hwake
      rw [hpc]
      exact .inr rfl

/-- The looper's part of a run. -/
theorem refines_run {as : List NotifiedAct} :
    ∀ {x y : NotifiedLooper}, Lts.exec step x as = some y →
      ∃ bs : List LooperAct, Lts.exec Looper.step x.looper bs = some y.looper ∧
        ∀ b ∈ bs, b = .wake ∨ .act b ∈ as := by
  induction as with
  | nil =>
      intro x y h
      obtain rfl := Option.some.inj h
      exact ⟨[], rfl, by simp⟩
  | cons a as ih =>
      intro x y h
      obtain ⟨z, hz, hy⟩ := Lts.exec_cons_iff.mp h
      obtain ⟨bs, hbs, hfirst⟩ := refines hz
      obtain ⟨cs, hcs, hrest⟩ := ih hy
      refine ⟨bs ++ cs, Lts.exec_append_iff.mpr ⟨z.looper, hbs, hcs⟩, ?_⟩
      intro b hb
      rcases List.mem_append.mp hb with hb | hb
      · exact (hfirst b hb).imp_right fun hab => by simp [hab]
      · exact (hrest b hb).imp_right (List.mem_cons_of_mem a)

/-! ## No wait is in vain -/

/-- The looper thread waits only for what has not come, or for what it has still to be notified of.
The destructor notifies it in its second and in its fourth step. -/
structure NoneLost (x : NotifiedLooper) : Prop where
  state : x.looper.pc = .waitState →
    x.looper.running = false ∨ 0 < x.stateNotes ∨ x.looper.destructor = .runningSet
  queue : x.looper.pc = .waitQueue →
    x.looper.queue = [] ∨ 0 < x.queueNotes ∨ x.looper.destructor = .quitPosted
  timed : ∀ r, x.looper.pc = .waitUntil r →
    (x.looper.queue = [] ∨ ∃ m q, x.looper.queue = some m :: q ∧ m.runAt = r) ∨
      0 < x.queueNotes ∨ x.looper.destructor = .quitPosted

/-- The thread waits for nothing. -/
theorem NoneLost.of_awake {x : NotifiedLooper} (h : x.looper.pc.waiting = false) : x.NoneLost := by
  refine ⟨fun hpc => ?_, fun hpc => ?_, fun r hpc => ?_⟩
  all_goals
    rw [hpc] at h
    cases h

/-- What the thread finds when it looks is what it waits for. -/
theorem NoneLost.of_look {l : Looper} (ret : Int) (n k : Nat) :
    NoneLost ⟨l.withPc (l.look ret), n, k⟩ := by
  have hlook := l.looked ret
  generalize l.look ret = pc at hlook
  cases hlook with
  | waitState hrunning =>
      exact ⟨fun _ => .inl hrunning, by simp, by simp⟩
  | waitQueue _ hq => exact ⟨by simp, fun _ => .inl hq, by simp⟩
  | waitUntil m q _ hq =>
      refine ⟨by simp, by simp, fun r hr => ?_⟩
      refine .inl (.inr ⟨m, q, hq, ?_⟩)
      cases hr
      rfl
  | exited => exact NoneLost.of_awake rfl
  | handling => exact NoneLost.of_awake rfl

/-- An entry comes with a notification that is still to be made, and so does a new running state. -/
theorem NoneLost.act {x : NotifiedLooper} {a : LooperAct} {l : Looper} (h : x.NoneLost)
    (hl : x.looper.step a = some l) :
    NoneLost ⟨l, x.queueNotes + a.queueNotes, x.stateNotes + a.stateNotes⟩ := by
  cases a with
  | post r =>
      obtain ⟨q, _, rfl⟩ := Option.map_eq_some_iff.mp hl
      have hnote : 0 < x.queueNotes + LooperAct.queueNotes (.post r) := Nat.succ_pos _
      exact ⟨h.state, fun _ => .inr (.inl hnote), fun _ _ => .inr (.inl hnote)⟩
  | append r =>
      obtain rfl := Option.some.inj hl
      have hnote : 0 < x.queueNotes + LooperAct.queueNotes (.append r) := Nat.succ_pos _
      exact ⟨h.state, fun _ => .inr (.inl hnote), fun _ _ => .inr (.inl hnote)⟩
  | clearAll =>
      obtain rfl := Option.some.inj hl
      exact ⟨h.state, fun _ => .inl rfl, fun _ _ => .inl (.inl rfl)⟩
  | setRunningState run =>
      obtain rfl := Option.some.inj hl
      have hnote : 0 < x.stateNotes + LooperAct.stateNotes (.setRunningState run) := Nat.succ_pos _
      exact ⟨fun _ => .inr (.inl hnote), h.queue, h.timed⟩
  | tick d =>
      obtain rfl := Option.some.inj hl
      exact ⟨h.state, h.queue, h.timed⟩
  | look ret =>
      simp only [Looper.step, Option.ite_none_right_eq_some, Option.some.injEq] at hl
      obtain ⟨_, rfl⟩ := hl
      exact NoneLost.of_look ret _ _
  | wake =>
      obtain ⟨pc, hpc, rfl⟩ := Option.map_eq_some_iff.mp hl
      have htop : pc = .top := by
        unfold Looper.wake at hpc
        split at hpc <;> simp_all
      subst htop
      exact NoneLost.of_awake rfl
  | handled =>
      simp only [Looper.step] at hl
      split at hl
      case h_1 m ret _ =>
          obtain rfl := Option.some.inj hl
          apply NoneLost.of_awake
          show (if ret = resultSuccess then LoopPc.popping m else LoopPc.sleeping).waiting = false
          split <;> rfl
      case h_2 => cases hl
  | popFront =>
      simp only [Looper.step] at hl
      split at hl
      case h_1 =>
          obtain rfl := Option.some.inj hl
          exact NoneLost.of_awake rfl
      case h_2 => cases hl
  | resume =>
      simp only [Looper.step, Option.ite_none_right_eq_some, Option.some.injEq] at hl
      obtain ⟨_, rfl⟩ := hl
      exact NoneLost.of_awake rfl
  | destroy =>
      cases Looper.destroys hl with
      | setRunning hd =>
          have hno : x.looper.destructor ≠ .quitPosted := by simp [hd]
          refine ⟨fun _ => .inr (.inr rfl), fun hpc => ?_, fun r hpc => ?_⟩
          · exact (h.queue hpc).imp_right fun hnote => .inl (hnote.resolve_right hno)
          · exact (h.timed r hpc).imp_right fun hnote => .inl (hnote.resolve_right hno)
      | notifyState hd =>
          have hno : x.looper.destructor ≠ .quitPosted := by simp [hd]
          refine ⟨fun hpc => ?_, fun hpc => ?_, fun r hpc => ?_⟩
          · exact absurd rfl (LoopPc.of_notifyState hpc (by simp)).2
          · have hpc := (LoopPc.of_notifyState hpc (by simp)).1
            exact (h.queue hpc).imp_right fun hnote => .inl (hnote.resolve_right hno)
          · have hpc := (LoopPc.of_notifyState hpc (by simp)).1
            exact (h.timed r hpc).imp_right fun hnote => .inl (hnote.resolve_right hno)
      | postQuit hd q hq =>
          have hno : x.looper.destructor ≠ .runningSet := by simp [hd]
          refine ⟨fun hpc => ?_, fun _ => .inr (.inr rfl), fun _ _ => .inr (.inr rfl)⟩
          exact (h.state hpc).imp_right fun hnote => .inl (hnote.resolve_right hno)
      | notifyQueue hd =>
          have hno : x.looper.destructor ≠ .runningSet := by simp [hd]
          refine ⟨fun hpc => ?_, fun hpc => ?_, fun r hpc => ?_⟩
          · have hpc := (LoopPc.of_notifyQueue hpc (by simp)).1
            exact (h.state hpc).imp_right fun hnote => .inl (hnote.resolve_right hno)
          · exact absurd rfl (LoopPc.of_notifyQueue hpc (by simp)).2.1
          · exact absurd rfl ((LoopPc.of_notifyQueue hpc (by simp)).2.2 r)

theorem NoneLost.step {x y : NotifiedLooper} {a : NotifiedAct} (h : x.NoneLost)
    (hy : x.step a = some y) : y.NoneLost := by
  cases effect hy with
  | act hl => exact h.act hl
  | notifyQueue =>
      refine ⟨fun hpc => ?_, fun hpc => ?_, fun r hpc => ?_⟩
      · exact h.state (LoopPc.of_notifyQueue hpc (by simp)).1
      · exact absurd rfl (LoopPc.of_notifyQueue hpc (by simp)).2.1
      · exact absurd rfl ((LoopPc.of_notifyQueue hpc (by simp)).2.2 r)
  | notifyState =>
      refine ⟨fun hpc => ?_, fun hpc => ?_, fun r hpc => ?_⟩
      · exact absurd rfl (LoopPc.of_notifyState hpc (by simp)).2
      · exact h.queue (LoopPc.of_notifyState hpc (by simp)).1
      · exact h.timed r (LoopPc.of_notifyState hpc (by simp)).1
  | timeOut => exact NoneLost.of_awake rfl

theorem noneLost_of_reachable {now : Int} {x : NotifiedLooper}
    (hx : Lts.Reachable step (init now) x) : x.NoneLost :=
  hx.invariant (NoneLost.of_awake rfl) fun _ _ _ h hy => h.step hy

/-- Nobody has still to notify the looper thread. -/
def Notified (x : NotifiedLooper) : Prop :=
  (x.queueNotes = 0 ∧ x.looper.destructor ≠ .quitPosted) ∧
    (x.stateNotes = 0 ∧ x.looper.destructor ≠ .runningSet)

/-- The queue of a run without `append` and the destructor is ordered. -/
theorem scheduled_of_run {now : Int} {as : List NotifiedAct} {x : NotifiedLooper}
    (hx : Lts.exec step (init now) as = some x) (htimed : ∀ a, .act a ∈ as → a.Timed) :
    ∃ ms, Scheduled x.looper ms := by
  obtain ⟨bs, hbs, hlabels⟩ := refines_run hx
  refine Lts.exec_invariant (P := fun s => ∃ ms, Scheduled s ms) (Q := LooperAct.Timed)
    (fun s a t ha hs ht => ?_) (fun b hb => ?_) ⟨[], Looper.scheduled_init now⟩ hbs
  · obtain ⟨ms, hs⟩ := hs
    exact Looper.scheduled_step ha hs ht
  · rcases hlabels b hb with rfl | hb
    · trivial
    · exact htimed b hb

/-- **No wait is in vain.** Whatever calls are made, wherever the threads stand between a change and
its notification, and with wake-ups at any time: where nobody has still to notify the looper thread,
it waits for the running state only while that is not set, for an entry only while there is none,
and until the run time of the front message, if there is one. With posted messages only, this is
the least of all run times in the queue. -/
theorem waits_justified {now : Int} {as : List NotifiedAct} {x : NotifiedLooper}
    (hx : Lts.exec step (init now) as = some x) (hnotified : x.Notified) :
    (x.looper.pc = .waitState → x.looper.running = false) ∧
    (x.looper.pc = .waitQueue → x.looper.queue = []) ∧
    ∀ r, x.looper.pc = .waitUntil r →
      (∀ e ∈ x.looper.queue.head?, ∃ m : Message, e = some m ∧ m.runAt = r) ∧
      ((∀ a, .act a ∈ as → a.Timed) → ∀ m : Message, some m ∈ x.looper.queue → r ≤ m.runAt) := by
  have hlost := noneLost_of_reachable ⟨as, hx⟩
  obtain ⟨⟨hqueue, hquit⟩, hstate, hset⟩ := hnotified
  have hno : ¬ (0 < x.queueNotes ∨ x.looper.destructor = .quitPosted) := by
    rintro (hpos | hd)
    · omega
    · exact hquit hd
  have hno' : ¬ (0 < x.stateNotes ∨ x.looper.destructor = .runningSet) := by
    rintro (hpos | hd)
    · omega
    · exact hset hd
  refine ⟨fun hpc => (hlost.state hpc).resolve_right hno',
    fun hpc => (hlost.queue hpc).resolve_right hno, fun r hpc => ?_⟩
  rcases (hlost.timed r hpc).resolve_right hno with hempty | ⟨m, q, hq, rfl⟩
  · simp [hempty]
  · constructor
    · intro e he
      rw [hq] at he
      exact ⟨m, (Option.some.inj he).symm, rfl⟩
    · intro htimed m' hm'
      obtain ⟨ms, hs⟩ := scheduled_of_run hx htimed
      -- the front message comes first in the order
      have hms : ms.map some = some m :: q := hs.queue.symm.trans hq
      obtain ⟨m₀, rest, rfl, hm₀, rfl⟩ := List.map_eq_cons_iff.mp hms
      obtain rfl := Option.some.inj hm₀
      rw [hq] at hm'
      rcases List.mem_cons.mp hm' with hsame | hmem
      · rw [Option.some.inj hsame]
      · obtain ⟨m₁, hm₁, heq⟩ := List.mem_map.mp hmem
        obtain rfl := Option.some.inj heq
        rcases (List.pairwise_cons.mp hs.ordered).1 m₁ hm₁ with hlt | ⟨heq, _⟩
        · exact Int.le_of_lt hlt
        · exact Int.le_of_eq heq

/-- A message for the time 9 is waited for; an earlier one has come, but only its notification makes
the thread look again. -/
theorem waits_justified_earlier :
    ∃ x y : NotifiedLooper,
      Lts.exec step (init 0) [.act (.post 9), .act (.look 0), .act (.post 5)] = some x ∧
      x.looper.pc = .waitUntil 9 ∧ some ⟨1, 5⟩ ∈ x.looper.queue ∧
      Lts.exec step (init 0) [.act (.post 9), .act (.look 0), .act (.post 5), .notifyQueue,
        .notifyQueue, .act (.look 0)] = some y ∧
      y.looper.pc = .waitUntil 5 ∧ ∀ m : Message, some m ∈ y.looper.queue → 5 ≤ m.runAt := by
  let y : NotifiedLooper :=
    ⟨⟨true, [some ⟨1, 5⟩, some ⟨0, 9⟩], .waitUntil 5, .notStarted, 0, 2⟩, 0, 0⟩
  refine ⟨⟨⟨true, [some ⟨1, 5⟩, some ⟨0, 9⟩], .waitUntil 9, .notStarted, 0, 2⟩, 2, 0⟩, y,
    rfl, rfl, by simp, rfl, rfl, ?_⟩
  have hwaits := @waits_justified 0 [.act (.post 9), .act (.look 0), .act (.post 5),
    .notifyQueue, .notifyQueue, .act (.look 0)] y rfl ⟨⟨rfl, by simp [y]⟩, rfl, by simp [y]⟩
  exact (hwaits.2.2 5 rfl).2 (by simp [LooperAct.Timed])

end NotifiedLooper

end DirectMedia

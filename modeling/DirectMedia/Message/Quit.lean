import DirectMedia.Message.Looper

set_option autoImplicit false

/-! # The quit message

`~MessageLooper` posts a null entry and joins the looper thread, which leaves `loop` when it finds
that entry in front. The entry is inserted with run time 0, so it is put in front of every message
that runs later, also of one whose handler is running; a successful return of that handler then
pops the quit message. This is the only way to lose it (`quitKept_iff`).
-/

namespace DirectMedia

/-- What the destructor, the looper thread and the clock do; no other thread moves. -/
def LooperAct.internal : LooperAct → Bool
  | .post _ | .append _ | .clearAll | .setRunningState _ => false
  | .destroy | .tick _ | .look _ | .wake | .handled | .popFront | .resume => true

/-- The handler in flight, if there is one, will return or has returned
`NDL_ESP_RESULT_SUCCESS`. -/
@[simp] def LoopPc.succeeding : LoopPc → Prop
  | .handling _ ret => ret = resultSuccess
  | .popping _ => True
  | _ => False

namespace Looper

/-- The destructor has run up to `post(quit)`; no other thread has used the looper since the
destructor began. -/
def QuitDue (now : Int) (s : Looper) : Prop :=
  ∃ s₀ bs, Lts.Reachable step (init now) s₀ ∧ s₀.destructor = .notStarted ∧
    (∀ b ∈ bs, b.internal = true) ∧ Lts.exec step s₀ bs = some s ∧
    s.destructor = .runningNotified

/-- A state after the quit message has been inserted in `s`. -/
def AfterQuit (s u : Looper) : Prop :=
  ∃ cs : List LooperAct, (∀ c ∈ cs, c.internal = true) ∧
    Lts.exec step s (.destroy :: cs) = some u

/-- The quit message is still there, and the looper thread is not in a wait that nothing ends:
none on an empty queue, and none without a time-out once the destructor is in `join`. -/
structure QuitKept (s : Looper) : Prop where
  queued : none ∈ s.queue
  noEmptyWait : ¬ (s.pc = .waitQueue ∧ s.queue = [])
  joinable : s.destructor = .joining → s.pc ≠ .waitState ∧ s.pc ≠ .waitQueue

/-- The quit message goes in front of the queue while a handler is in flight that succeeds. -/
def QuitOvertakes (s : Looper) : Prop :=
  s.pc.succeeding ∧ ∀ m q, s.queue = some m :: q → 0 < m.runAt

/-! ## Before the insertion -/

theorem call_noQuit {s t : Looper} {c : QueueCall} (h : s.call c = some t)
    (hc : c ≠ .post none ∧ c ≠ .append none) (hs : none ∉ s.queue) : none ∉ t.queue := by
  simp only [call, Option.map_eq_some_iff] at h
  obtain ⟨q, hq, rfl⟩ := h
  rcases QueueCall.apply_cases hq with ⟨_, rfl⟩ | ⟨e, he, hp⟩
  · simp
  · intro hmem
    rcases List.mem_cons.mp (hp.subset hmem) with rfl | hmem
    · rcases he with rfl | rfl
      · exact hc.1 rfl
      · exact hc.2 rfl
    · exact hs hmem

theorem call_destructor {s t : Looper} {c : QueueCall} (h : s.call c = some t) :
    t.destructor = s.destructor := by
  simp only [call, Option.map_eq_some_iff] at h
  obtain ⟨q, _, rfl⟩ := h
  rfl

/-- Only the destructor brings a quit message. -/
theorem noQuit_step {s t : Looper} {a : LooperAct} (h : step s a = some t)
    (hs : s.destructor ≠ .quitPosted → s.destructor ≠ .joining → none ∉ s.queue) :
    t.destructor ≠ .quitPosted → t.destructor ≠ .joining → none ∉ t.queue := by
  intro h1 h2
  cases a with
  | post r =>
      rw [call_destructor h] at h1 h2
      exact call_noQuit h (by simp) (hs h1 h2)
  | append r =>
      rw [call_destructor h] at h1 h2
      exact call_noQuit h (by simp) (hs h1 h2)
  | clearAll =>
      rw [call_destructor h] at h1 h2
      exact call_noQuit h (by simp) (hs h1 h2)
  | setRunningState run => cases h; exact hs h1 h2
  | tick d => cases h; exact hs h1 h2
  | look ret =>
      simp only [step, Option.ite_none_right_eq_some, Option.some.injEq] at h
      obtain ⟨_, rfl⟩ := h
      exact hs h1 h2
  | wake =>
      simp only [step, Option.map_eq_some_iff] at h
      obtain ⟨pc, _, rfl⟩ := h
      exact hs h1 h2
  | resume =>
      simp only [step, Option.ite_none_right_eq_some, Option.some.injEq] at h
      obtain ⟨_, rfl⟩ := h
      exact hs h1 h2
  | handled =>
      simp only [step] at h
      split at h <;> cases h
      exact hs h1 h2
  | popFront =>
      simp only [step] at h
      split at h <;> cases h
      -- what is left in the queue was there before
      exact fun hmem => hs h1 h2 (List.mem_of_mem_tail hmem)
  | destroy =>
      -- only the third step of the destructor posts the quit message
      simp only [step, destroy] at h
      split at h
      case h_1 hd => cases h; exact hs (by simp [hd]) (by simp [hd])
      case h_2 hd => cases h; exact hs (by simp [hd]) (by simp [hd])
      case h_3 hd =>
          simp only [Option.map_eq_some_iff] at h
          obtain ⟨u, _, rfl⟩ := h
          exact absurd rfl h1
      case h_4 => cases h; exact absurd rfl h2
      case h_5 => cases h

theorem noQuit_of_reachable {now : Int} {s : Looper} (h : Lts.Reachable step (init now) s) :
    s.destructor ≠ .quitPosted → s.destructor ≠ .joining → none ∉ s.queue :=
  h.invariant (P := fun s => s.destructor ≠ .quitPosted → s.destructor ≠ .joining → none ∉ s.queue)
    (by simp [init]) (fun _ _ _ hs ht => noQuit_step ht hs)

theorem look_ne_waitState {s : Looper} (ret : Int) (h : s.running = true) :
    s.look ret ≠ .waitState := by
  simp only [look, h, reduceCtorEq, if_false]
  split
  · simp
  · simp
  · split <;> simp

theorem look_ne_waitQueue {s : Looper} (ret : Int) (h : s.queue ≠ []) :
    s.look ret ≠ .waitQueue := by
  simp only [look]
  split
  · simp
  · split
    case h_1 hq => exact absurd hq h
    case h_2 => simp
    case h_3 => split <;> simp

/-- From its first step on the destructor keeps the looper running, and its notification ends a
wait for that. -/
structure Resumed (s : Looper) : Prop where
  running : s.destructor ≠ .notStarted → s.running = true
  noStateWait : s.destructor ≠ .notStarted → s.destructor ≠ .runningSet → s.pc ≠ .waitState

theorem Resumed.of_pc {s : Looper} {pc : LoopPc} (h : Resumed s)
    (hpc : s.running = true → pc = .waitState → s.pc = .waitState) :
    Resumed { s with pc := pc } :=
  ⟨h.running, fun h1 h2 hw => h.noStateWait h1 h2 (hpc (h.running h1) hw)⟩

theorem Resumed.step {s t : Looper} {a : LooperAct} (h : Resumed s) (ha : a.internal = true)
    (ht : step s a = some t) : Resumed t := by
  cases a with
  | post r => cases ha
  | append r => cases ha
  | clearAll => cases ha
  | setRunningState run => cases ha
  | tick d => cases ht; exact ⟨h.running, h.noStateWait⟩
  | look ret =>
      simp only [Looper.step, Option.ite_none_right_eq_some, Option.some.injEq] at ht
      obtain ⟨_, rfl⟩ := ht
      exact h.of_pc fun hrun hw => absurd hw (look_ne_waitState ret hrun)
  | wake =>
      simp only [Looper.step, Option.map_eq_some_iff] at ht
      obtain ⟨pc, hpc, rfl⟩ := ht
      refine h.of_pc fun _ hw => ?_
      cases hs : s.pc <;> simp [wake, hs, hw] at hpc
  | handled =>
      simp only [Looper.step] at ht
      split at ht <;> cases ht
      refine h.of_pc fun _ hw => ?_
      split at hw <;> cases hw
  | popFront =>
      simp only [Looper.step] at ht
      split at ht <;> cases ht
      exact ⟨h.running, fun _ _ hw => by cases hw⟩
  | resume =>
      simp only [Looper.step, Option.ite_none_right_eq_some, Option.some.injEq] at ht
      obtain ⟨_, rfl⟩ := ht
      exact h.of_pc fun _ hw => by cases hw
  | destroy =>
      -- one case for each step of the destructor
      simp only [Looper.step, destroy] at ht
      split at ht
      case h_1 => cases ht; exact ⟨fun _ => rfl, fun _ h2 => absurd rfl h2⟩
      case h_2 hd =>
          cases ht
          refine ⟨fun _ => h.running (by simp [hd]), fun _ _ hw => ?_⟩
          simp only at hw
          split at hw
          · cases hw
          · contradiction
      case h_3 hd =>
          simp only [Option.map_eq_some_iff, call] at ht
          obtain ⟨u, ⟨q, _, rfl⟩, rfl⟩ := ht
          exact ⟨fun _ => h.running (by simp [hd]),
            fun _ _ => h.noStateWait (by simp [hd]) (by simp [hd])⟩
      case h_4 hd =>
          cases ht
          refine ⟨fun _ => h.running (by simp [hd]), fun _ _ hw => ?_⟩
          refine h.noStateWait (by simp [hd]) (by simp [hd]) ?_
          simp only at hw
          split at hw
          · cases hw
          · cases hw
          · exact hw
      case h_5 => cases ht

/-! ## After the insertion -/

/-- The quit message is queued, and not in front of a handler in flight that succeeds. -/
structure Quitting (s : Looper) : Prop where
  resumed : Resumed s
  posted : s.destructor = .quitPosted ∨ s.destructor = .joining
  queued : none ∈ s.queue
  behind : s.pc.succeeding → ∃ m q, s.queue = some m :: q
  joined : s.destructor = .joining → s.pc ≠ .waitQueue

theorem Quitting.kept {s : Looper} (h : Quitting s) : QuitKept s where
  queued := h.queued
  noEmptyWait := by
    rintro ⟨_, hq⟩
    have := h.queued
    simp [hq] at this
  joinable := by
    intro hd
    exact ⟨h.resumed.noStateWait (by simp [hd]) (by simp [hd]), h.joined hd⟩

theorem Quitting.step {s t : Looper} {a : LooperAct} (h : Quitting s) (ha : a.internal = true)
    (ht : step s a = some t) : Quitting t := by
  have hres := h.resumed.step ha ht
  have hne : s.queue ≠ [] := fun hq => by have := h.queued; simp [hq] at this
  cases a with
  | post r => cases ha
  | append r => cases ha
  | clearAll => cases ha
  | setRunningState run => cases ha
  | tick d => cases ht; exact ⟨hres, h.posted, h.queued, h.behind, h.joined⟩
  | look ret =>
      simp only [Looper.step, Option.ite_none_right_eq_some, Option.some.injEq] at ht
      obtain ⟨_, rfl⟩ := ht
      refine ⟨hres, h.posted, h.queued, ?_, fun _ => look_ne_waitQueue ret hne⟩
      intro hsucc
      -- a handler is started for the front message only
      obtain ⟨m, hm⟩ : ∃ m, (s.look ret).inFlight = some m := by
        cases hpc : s.look ret <;> simp_all
      obtain ⟨_, ⟨q, hq⟩, _, _⟩ := look_inFlight hm
      exact ⟨m, q, hq⟩
  | wake =>
      simp only [Looper.step, Option.map_eq_some_iff] at ht
      obtain ⟨pc, hpc, rfl⟩ := ht
      -- a wake-up starts the loop again, with no handler in flight
      have : pc = .top := by cases hs : s.pc <;> simp_all [wake]
      subst this
      exact ⟨hres, h.posted, h.queued, fun hsucc => hsucc.elim, fun _ hw => by cases hw⟩
  | handled =>
      simp only [Looper.step] at ht
      split at ht <;> cases ht
      case h_1 m ret hs =>
          refine ⟨hres, h.posted, h.queued, ?_, ?_⟩
          · intro hsucc
            refine h.behind ?_
            by_cases hret : ret = resultSuccess
            · simp [hs, hret]
            · simp [hret] at hsucc
          · intro _ hw
            simp only at hw
            split at hw <;> cases hw
  | popFront =>
      simp only [Looper.step] at ht
      split at ht <;> cases ht
      case h_1 m hs =>
          -- it is not the quit message that is popped
          obtain ⟨m', q, hq⟩ := h.behind (by simp [hs])
          have hmem := h.queued
          rw [hq] at hmem
          refine ⟨hres, h.posted, ?_, fun hsucc => hsucc.elim, fun _ hw => by cases hw⟩
          simpa [hq] using hmem
  | resume =>
      simp only [Looper.step, Option.ite_none_right_eq_some, Option.some.injEq] at ht
      obtain ⟨_, rfl⟩ := ht
      exact ⟨hres, h.posted, h.queued, fun hsucc => hsucc.elim, fun _ hw => by cases hw⟩
  | destroy =>
      -- what is left is the notification after the insertion
      simp only [Looper.step, destroy] at ht
      rcases h.posted with hd | hd
      · simp only [hd, Option.some.injEq] at ht
        subst ht
        refine ⟨hres, .inr rfl, h.queued, ?_, ?_⟩
        · intro hsucc
          refine h.behind ?_
          cases hs : s.pc <;> simp_all
        · intro _ hw
          simp only at hw
          split at hw
          · cases hw
          · cases hw
          · exact absurd hw (by assumption)
      · simp [hd] at ht

/-- The insertion itself: the quit message goes behind the front entry unless it overtakes. -/
theorem quitting_of_insert {s t : Looper} (hr : Resumed s) (hd : s.destructor = .runningNotified)
    (ho : ¬ QuitOvertakes s) (ht : step s .destroy = some t) : Quitting t := by
  have hres := hr.step rfl ht
  simp only [Looper.step, destroy, hd, call, QueueCall.apply, Option.map_eq_some_iff] at ht
  obtain ⟨u, ⟨q, hq, rfl⟩, rfl⟩ := ht
  refine ⟨hres, .inl rfl, (insertEntry_perm hq).mem_iff.mpr (by simp), ?_, fun hj => by cases hj⟩
  intro hsucc
  simp only [QuitOvertakes, not_and, not_forall] at ho
  obtain ⟨m, r, hs, hm⟩ := ho hsucc
  rw [hs] at hq
  rcases insertEntry_cons hq with ⟨_, hhead⟩ | ⟨hlt, _⟩
  · obtain ⟨r', hr'⟩ := List.head?_eq_some_iff.mp hhead
    exact ⟨m, r', hr'⟩
  · exact absurd hlt hm

/-- A quit message that overtakes goes to the front. -/
theorem insert_of_overtakes {s t : Looper} (hd : s.destructor = .runningNotified)
    (hq : none ∉ s.queue) (ho : QuitOvertakes s) (ht : step s .destroy = some t) :
    t.queue = none :: s.queue ∧ t.pc = s.pc := by
  simp only [Looper.step, destroy, hd, call, QueueCall.apply, Option.map_eq_some_iff] at ht
  obtain ⟨u, ⟨q, hins, rfl⟩, rfl⟩ := ht
  refine ⟨?_, rfl⟩
  cases hs : s.queue with
  | nil =>
      rw [hs] at hins
      simpa [insertEntry] using hins.symm
  | cons e r =>
      cases e with
      | none => simp [hs] at hq
      | some m =>
          rw [hs] at hins
          rcases insertEntry_cons hins with ⟨hle, _⟩ | ⟨_, h⟩
          · have := ho.2 m r hs
            simp only [Entry.runAt] at hle
            omega
          · exact h

/-- The successful return of the handler in flight pops the front entry. -/
theorem popFront_of_succeeding {s : Looper} (h : s.pc.succeeding) :
    ∃ cs t, (∀ c ∈ cs, c.internal = true) ∧ Lts.exec step s cs = some t ∧
      t.queue = s.queue.tail := by
  cases hpc : s.pc <;> simp only [hpc, LoopPc.succeeding] at h
  case handling m ret =>
      refine ⟨[.handled, .popFront], { s with queue := s.queue.tail, pc := .top }, by decide, ?_,
        rfl⟩
      simp [Lts.exec, step, hpc, h]
  case popping m =>
      refine ⟨[.popFront], { s with queue := s.queue.tail, pc := .top }, by decide, ?_, rfl⟩
      simp [Lts.exec, step, hpc]

theorem QuitDue.due {now : Int} {s : Looper} (h : QuitDue now s) :
    s.destructor = .runningNotified := by
  obtain ⟨_, _, _, _, _, _, hd⟩ := h
  exact hd

theorem QuitDue.noQuit {now : Int} {s : Looper} (h : QuitDue now s) : none ∉ s.queue := by
  obtain ⟨s₀, bs, ⟨as, has⟩, _, _, hbs, hd⟩ := h
  exact noQuit_of_reachable ⟨as ++ bs, Lts.exec_append_iff.mpr ⟨s₀, has, hbs⟩⟩
    (by simp [hd]) (by simp [hd])

theorem QuitDue.resumed {now : Int} {s : Looper} (h : QuitDue now s) : Resumed s := by
  obtain ⟨s₀, bs, _, h₀, hin, hbs, _⟩ := h
  exact Lts.exec_invariant (fun s a t ha hs ht => hs.step ha ht) hin
    ⟨fun hd => absurd h₀ hd, fun hd => absurd h₀ hd⟩ hbs

theorem QuitDue.destroy_enabled {now : Int} {s : Looper} (h : QuitDue now s) :
    ∃ t, step s .destroy = some t := by
  obtain ⟨q, hq⟩ : ∃ q, insertEntry none s.queue = some q := insertEntry_of_noQuit _ h.noQuit
  simp [step, destroy, h.due, call, QueueCall.apply, hq]

/-- **The quit message is kept** in every run after its insertion, unless it goes in front of the
queue while a handler is in flight that succeeds; then a run loses it. -/
theorem quitKept_iff (now : Int) (s : Looper) (h : QuitDue now s) :
    (∀ u, AfterQuit s u → QuitKept u) ↔ ¬ QuitOvertakes s := by
  constructor
  · intro hall ho
    obtain ⟨t, ht⟩ := h.destroy_enabled
    obtain ⟨hqueue, hpc⟩ := insert_of_overtakes h.due h.noQuit ho ht
    obtain ⟨cs, u, hin, hu, htail⟩ := popFront_of_succeeding (s := t) (hpc ▸ ho.1)
    have hkept := hall u ⟨cs, hin, Lts.exec_cons_iff.mpr ⟨t, ht, hu⟩⟩
    have := hkept.queued
    rw [htail, hqueue] at this
    exact h.noQuit this
  · rintro ho u ⟨cs, hin, hu⟩
    obtain ⟨t, ht, hu⟩ := Lts.exec_cons_iff.mp hu
    have hq := quitting_of_insert h.resumed h.due ho ht
    exact (Lts.exec_invariant (fun s a t ha hs ht => Quitting.step hs ha ht) hin hq hu).kept

/-- A paused looper with a message that is not due yet is destroyed. -/
def pausedLooper : Looper := ⟨true, [some ⟨0, 5⟩], .top, .runningNotified, 0, 1⟩

theorem quitDue_pausedLooper : QuitDue 0 pausedLooper :=
  ⟨⟨false, [some ⟨0, 5⟩], .waitState, .notStarted, 0, 1⟩, [.destroy, .destroy],
    ⟨[.setRunningState false, .post 5, .look resultSuccess], by decide⟩, rfl, by decide, by decide,
    rfl⟩

theorem quitKept_pausedLooper :
    ¬ QuitOvertakes pausedLooper ∧ ∀ u, AfterQuit pausedLooper u → QuitKept u := by
  have h : ¬ QuitOvertakes pausedLooper := by simp [QuitOvertakes, pausedLooper]
  exact ⟨h, (quitKept_iff 0 pausedLooper quitDue_pausedLooper).mpr h⟩

/-- A looper destroyed while it handles its only message. -/
def busyLooper : Looper :=
  ⟨true, [some ⟨0, 5⟩], .handling ⟨0, 5⟩ resultSuccess, .runningNotified, 5, 1⟩

/-- The return of that handler pops the quit message; the message is handled again and the looper
thread then waits on an empty queue, with the destructor in `join`. -/
theorem quitKept_fails :
    ∃ s u, QuitDue 0 s ∧ AfterQuit s u ∧ u.destructor = .joining ∧ u.pc = .waitQueue ∧
      u.queue = [] ∧ ¬ QuitKept u := by
  refine ⟨busyLooper, ⟨true, [], .waitQueue, .joining, 5, 2⟩, ?_, ?_, rfl, rfl, rfl, ?_⟩
  · exact ⟨⟨true, [some ⟨0, 5⟩], .handling ⟨0, 5⟩ resultSuccess, .notStarted, 5, 1⟩,
      [.destroy, .destroy], ⟨[.post 5, .tick 5, .look resultSuccess], by decide⟩, rfl, by decide,
      by decide, rfl⟩
  · exact ⟨[.destroy, .handled, .popFront, .look resultSuccess, .handled, .popFront,
      .look resultSuccess], by decide, by decide⟩
  · intro h
    exact h.noEmptyWait ⟨rfl, rfl⟩

end Looper

end DirectMedia

import DirectMedia.Basic.Types
import DirectMedia.Lib.Lts

set_option autoImplicit false

/-! # The message looper

`MessageLooper` of `message.cpp`. One step is one section under `message_queue_lock_`, or what
the looper thread does between two of them. The looper thread selects the front entry without
removing it, runs its handler with the lock released and pops the front entry afterwards if the
handler returned `NDL_ESP_RESULT_SUCCESS`.

A message is named by the number of the queue call that brought it. The value a handler returns is
part of the label of the step that starts it. A wait ends by `wake`, whatever the cause: a
notification, a time-out or a spurious wake-up; only the two notifications of the destructor are
steps of their own.
-/

namespace DirectMedia

/-- `Message`, as far as the looper reads it. -/
structure Message where
  id : Nat
  runAt : Int
  deriving DecidableEq, Repr

/-- An entry of `message_queue_`; the null pointer is the quit message. -/
abbrev Entry := Option Message

/-- The `run_at` that `post` inserts an entry by. -/
def Entry.runAt : Entry → Int
  | none => 0
  | some m => m.runAt

/-- Where the looper thread is in `loop`. -/
inductive LoopPc where
  | top
  | waitState
  | waitQueue
  | waitUntil (runAt : Int)
  | handling (message : Message) (ret : Int)
  | popping (message : Message)
  | sleeping
  | exited
  deriving DecidableEq, Repr

/-- The message whose handler runs or has just returned successfully. -/
@[simp] def LoopPc.inFlight : LoopPc → Option Message
  | .handling m _ | .popping m => some m
  | _ => none

/-- Where the thread that runs `~MessageLooper` is. -/
inductive DestructorPc where
  | notStarted
  | runningSet
  | runningNotified
  | quitPosted
  | joining
  deriving DecidableEq, Repr

/-- A looper, its thread, its destructor and the monotonic clock. -/
structure Looper where
  running : Bool
  queue : List Entry
  pc : LoopPc
  destructor : DestructorPc
  now : Int
  calls : Nat
  deriving DecidableEq, Repr

/-- A new looper at the time `now`. -/
def Looper.init (now : Int) : Looper := ⟨true, [], .top, .notStarted, now, 0⟩

/-- A change of `message_queue_` by another thread. -/
inductive QueueCall where
  | post (e : Entry)
  | append (e : Entry)
  | clearAll
  deriving DecidableEq, Repr

/-- The insertion of `post`: after every leading entry that runs no later. Reading the `run_at`
of a quit message on the way dereferences null. -/
def insertEntry (e : Entry) : List Entry → Option (List Entry)
  | [] => some [e]
  | none :: _ => none
  | some m :: q =>
      if m.runAt ≤ e.runAt then (insertEntry e q).map (some m :: ·) else some (e :: some m :: q)

/-- The section of `post`, `append` or `clearAll` under the lock. -/
def QueueCall.apply : QueueCall → List Entry → Option (List Entry)
  | .post e, q => insertEntry e q
  | .append e, q => some (q ++ [e])
  | .clearAll, _ => some []

theorem insertEntry_perm {e : Entry} {q q' : List Entry} (h : insertEntry e q = some q') :
    q'.Perm (e :: q) := by
  induction q generalizing q' with
  | nil =>
      simp only [insertEntry, Option.some.injEq] at h
      rw [← h]
  | cons x q ih =>
      cases x with
      | none => cases h
      | some m =>
          simp only [insertEntry] at h
          split at h
          · simp only [Option.map_eq_some_iff] at h
            obtain ⟨r, hr, rfl⟩ := h
            exact ((ih hr).cons _).trans (List.Perm.swap _ _ _)
          · simp only [Option.some.injEq] at h
            rw [← h]

/-- Without a quit message in the queue nothing is dereferenced in vain. -/
theorem insertEntry_of_noQuit (e : Entry) {q : List Entry} (hq : none ∉ q) :
    ∃ q', insertEntry e q = some q' := by
  induction q with
  | nil => exact ⟨[e], rfl⟩
  | cons x q ih =>
      cases x with
      | none => simp at hq
      | some m =>
          obtain ⟨q', hq'⟩ := ih (fun hmem => hq (by simp [hmem]))
          simp only [insertEntry]
          split
          · exact ⟨some m :: q', by rw [hq']; rfl⟩
          · exact ⟨_, rfl⟩

/-- Behind a leading entry that runs no later, or in front of it. -/
theorem insertEntry_cons {e x : Entry} {q q' : List Entry}
    (h : insertEntry e (x :: q) = some q') :
    (x.runAt ≤ e.runAt ∧ q'.head? = some x) ∨ (e.runAt < x.runAt ∧ q' = e :: x :: q) := by
  cases x with
  | none => cases h
  | some m =>
      simp only [insertEntry] at h
      split at h
      case isTrue hle =>
          simp only [Option.map_eq_some_iff] at h
          obtain ⟨r, _, rfl⟩ := h
          exact .inl ⟨hle, rfl⟩
      case isFalse hle =>
          simp only [Option.some.injEq] at h
          exact .inr ⟨by simpa [Entry.runAt] using hle, h.symm⟩

/-- A queue call empties the queue or adds one entry to it. -/
theorem QueueCall.apply_cases {c : QueueCall} {q q' : List Entry} (h : c.apply q = some q') :
    (c = .clearAll ∧ q' = []) ∨ ∃ e, (c = .post e ∨ c = .append e) ∧ q'.Perm (e :: q) := by
  cases c with
  | post e => exact .inr ⟨e, .inl rfl, insertEntry_perm h⟩
  | append e =>
      simp only [QueueCall.apply, Option.some.injEq] at h
      refine .inr ⟨e, .inr rfl, ?_⟩
      rw [← h]
      exact List.perm_append_singleton e q
  | clearAll =>
      simp only [QueueCall.apply, Option.some.injEq] at h
      exact .inl ⟨rfl, h.symm⟩

/-- The labels of the looper's steps. -/
inductive LooperAct where
  | post (runAt : Int)
  | append (runAt : Int)
  | clearAll
  | setRunningState (run : Bool)
  | destroy
  | tick (d : Nat)
  | look (ret : Int)
  | wake
  | handled
  | popFront
  | resume
  deriving DecidableEq, Repr

/-- The queue call that a label makes in the state `s`. -/
def LooperAct.queueCall (s : Looper) : LooperAct → Option QueueCall
  | .post runAt => some (.post (some ⟨s.calls, runAt⟩))
  | .append runAt => some (.append (some ⟨s.calls, runAt⟩))
  | .clearAll => some .clearAll
  | .destroy => if s.destructor = .runningNotified then some (.post none) else none
  | _ => none

/-- A message that a label brings is named by the number of the call. -/
theorem LooperAct.queueCall_fresh {s : Looper} {a : LooperAct} {e : Entry}
    (h : a.queueCall s = some (.post e) ∨ a.queueCall s = some (.append e)) {m : Message}
    (he : e = some m) : m.id = s.calls := by
  subst he
  cases a <;> simp only [queueCall] at h <;> simp_all
  case post r => rw [← h]
  case append r => rw [← h]

namespace Looper

/-- One of the queue calls above, with the lock held. -/
def call (s : Looper) (c : QueueCall) : Option Looper :=
  (c.apply s.queue).map fun q => { s with queue := q, calls := s.calls + 1 }

/-- The section at the head of `loop`. A non-null front message that is due is handed to its
handler, which will return `ret`. -/
def look (s : Looper) (ret : Int) : LoopPc :=
  if s.running = false then .waitState
  else
    match s.queue with
    | [] => .waitQueue
    | none :: _ => .exited
    | some m :: _ =>
        -- `run_at` 0 stands for no delay, whatever the clock says
        if m.runAt ≠ 0 ∧ m.runAt > s.now then .waitUntil m.runAt else .handling m ret

/-- The end of a `wait` or `wait_for`, and of nothing else. -/
def wake : LoopPc → Option LoopPc
  | .waitState | .waitQueue | .waitUntil _ => some .top
  | _ => none

/-- `~MessageLooper`: `setRunningState(true)`, the insertion of the quit message, each followed
by its notification, and the join. -/
def destroy (s : Looper) : Option Looper :=
  match s.destructor with
  | .notStarted => some { s with running := true, destructor := .runningSet }
  | .runningSet =>
      some { s with
        pc := if s.pc = .waitState then .top else s.pc
        destructor := .runningNotified }
  | .runningNotified => (s.call (.post none)).map ({ · with destructor := .quitPosted })
  | .quitPosted =>
      some { s with
        pc := match s.pc with
          | .waitQueue | .waitUntil _ => .top
          | pc => pc
        destructor := .joining }
  | .joining => none

/-- One step of the looper. -/
def step (s : Looper) : LooperAct → Option Looper
  | .post runAt => s.call (.post (some ⟨s.calls, runAt⟩))
  | .append runAt => s.call (.append (some ⟨s.calls, runAt⟩))
  | .clearAll => s.call .clearAll
  | .setRunningState run => some { s with running := run }
  | .destroy => s.destroy
  | .tick d => some { s with now := s.now + d }
  | .look ret => if s.pc = .top then some { s with pc := s.look ret } else none
  | .wake => (wake s.pc).map fun pc => { s with pc := pc }
  | .handled =>
      match s.pc with
      | .handling m ret =>
          some { s with pc := if ret = resultSuccess then .popping m else .sleeping }
      | _ => none
  | .popFront =>
      match s.pc with
      -- `clearAll` may have left nothing to pop
      | .popping _ => some { s with queue := s.queue.tail, pc := .top }
      | _ => none
  | .resume => if s.pc = .sleeping then some { s with pc := .top } else none

/-! ## What a step can do -/

/-- The looper hands over the front message only, and only when it is due. -/
theorem look_inFlight {s : Looper} {ret : Int} {m : Message}
    (h : (s.look ret).inFlight = some m) :
    s.look ret = .handling m ret ∧ (∃ q, s.queue = some m :: q) ∧ s.running = true ∧
      (m.runAt = 0 ∨ m.runAt ≤ s.now) := by
  unfold look at h ⊢
  split at h
  case isTrue => cases h
  case isFalse hrun =>
      rw [if_neg hrun]
      split at h
      case h_1 => cases h
      case h_2 => cases h
      case h_3 m' q hq =>
          split at h
          case isTrue => cases h
          case isFalse hdue =>
              cases h
              simp only [if_neg hdue]
              exact ⟨trivial, ⟨q, hq⟩, by simpa using hrun, by omega⟩

/-- The five kinds of steps, as far as the queue and the looper thread are concerned. -/
inductive Effect (s : Looper) (a : LooperAct) (t : Looper) : Prop
  | call (c : QueueCall) (label : a.queueCall s = some c) (queue : c.apply s.queue = some t.queue)
      (calls : t.calls = s.calls + 1) (pc : t.pc = s.pc)
  | look (ret : Int) (label : a = .look ret) (top : s.pc = .top)
      (eq : t = { s with pc := s.look ret })
  | handled (m : Message) (ret : Int) (label : a = .handled) (handling : s.pc = .handling m ret)
      (eq : t = { s with pc := if ret = resultSuccess then .popping m else .sleeping })
  | popFront (m : Message) (label : a = .popFront) (popping : s.pc = .popping m)
      (eq : t = { s with queue := s.queue.tail, pc := .top })
  | other (label : a.queueCall s = none) (look : ∀ ret, a ≠ .look ret) (handled : a ≠ .handled)
      (popFront : a ≠ .popFront) (queue : t.queue = s.queue) (calls : t.calls = s.calls)
      (pc : t.pc = s.pc ∨ s.pc.inFlight = none ∧ t.pc = .top)

theorem effect_call {s t : Looper} {a : LooperAct} {c : QueueCall} (ha : a.queueCall s = some c)
    (h : s.call c = some t) : Effect s a t := by
  simp only [call, Option.map_eq_some_iff] at h
  obtain ⟨q, hq, rfl⟩ := h
  exact .call c ha hq rfl rfl

theorem effect {s t : Looper} {a : LooperAct} (h : step s a = some t) : Effect s a t := by
  cases a with
  | post r => exact effect_call rfl h
  | append r => exact effect_call rfl h
  | clearAll => exact effect_call rfl h
  | setRunningState run =>
      cases h
      exact .other rfl (by simp) (by simp) (by simp) rfl rfl (.inl rfl)
  | tick d =>
      cases h
      exact .other rfl (by simp) (by simp) (by simp) rfl rfl (.inl rfl)
  | look ret =>
      simp only [step, Option.ite_none_right_eq_some, Option.some.injEq] at h
      exact .look ret rfl h.1 h.2.symm
  | wake =>
      simp only [step, Option.map_eq_some_iff] at h
      obtain ⟨pc, hpc, rfl⟩ := h
      refine .other rfl (by simp) (by simp) (by simp) rfl rfl (.inr ?_)
      cases hs : s.pc <;> simp_all [wake, LoopPc.inFlight]
  | handled =>
      simp only [step] at h
      split at h
      case h_1 m ret hs => cases h; exact .handled m ret rfl hs rfl
      case h_2 => cases h
  | popFront =>
      simp only [step] at h
      split at h
      case h_1 m hs => cases h; exact .popFront m rfl hs rfl
      case h_2 => cases h
  | resume =>
      simp only [step, Option.ite_none_right_eq_some, Option.some.injEq] at h
      obtain ⟨hs, rfl⟩ := h
      exact .other rfl (by simp) (by simp) (by simp) rfl rfl
        (.inr ⟨by simp [LoopPc.inFlight, hs], rfl⟩)
  | destroy =>
      simp only [step, destroy] at h
      split at h
      case h_1 hd =>
        cases h
        exact .other (by simp [LooperAct.queueCall, hd]) (by simp) (by simp) (by simp) rfl rfl
          (.inl rfl)
      case h_2 hd =>
        cases h
        refine .other (by simp [LooperAct.queueCall, hd]) (by simp) (by simp) (by simp) rfl rfl ?_
        by_cases hs : s.pc = .waitState <;> simp [hs, LoopPc.inFlight]
      case h_3 hd =>
        simp only [Option.map_eq_some_iff] at h
        obtain ⟨u, hu, rfl⟩ := h
        have hlabel : LooperAct.destroy.queueCall s = some (.post none) := by
          simp [LooperAct.queueCall, hd]
        simp only [call, Option.map_eq_some_iff] at hu
        obtain ⟨q, hq, rfl⟩ := hu
        exact .call _ hlabel hq rfl rfl
      case h_4 hd =>
        cases h
        refine .other (by simp [LooperAct.queueCall, hd]) (by simp) (by simp) (by simp) rfl rfl ?_
        cases s.pc <;> simp [LoopPc.inFlight]
      case h_5 => cases h

end Looper

end DirectMedia

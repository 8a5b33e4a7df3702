import DirectMedia.Lib.TimedWait
import DirectMedia.Omx.Client
import DirectMedia.Player.State

set_option autoImplicit false

/-! # The waits of a client

`waitForState`, `waitForFlushing`, `waitForPortEnable` and `waitForBufferState` are one loop with
four conditions. The first three wait on `state_cond_`, the last on `buffer_cond_`. What they wait
for comes about in `eventHandler` and the done callbacks, which signal without the mutex.

Nothing ties the first look of a wait to its sleep: a signal between the two is lost, and a wait
that times out does not look again. So a wait may report a time-out for what has long been done
(`waits_lost`). It does not as long as every signal comes in time and finds its waiter asleep
(`waits_truthful`).
-/

namespace DirectMedia

open TimedWait

/-- What the waits look at: the buffers and ports, the state of the component, and `flushing_`. -/
structure OmxShared where
  client : OmxClient := {}
  state : OmxState := .loaded
  flushing : List Int := []

/-- The conditions; `waitForBufferState` is given the address of a buffer. -/
inductive WaitCall where
  | waitForState (state : OmxState)
  | waitForFlushing
  | waitForPortEnable (port : Int) (enable : Bool)
  | waitForBufferState (buf : Nat) (status : BufferStatus)
  deriving DecidableEq, Repr

inductive CondVar where
  | stateCond
  | bufferCond
  deriving DecidableEq, Repr

/-- A look at the condition. `getPortMapState` throws for a port that is not in the map. -/
def WaitCall.look : WaitCall → OmxShared → Option Bool
  | .waitForState state, x => some (decide (x.state = state))
  | .waitForFlushing, x => some x.flushing.isEmpty
  | .waitForPortEnable port enable, x => (x.client.enabledPorts port).map fun on => enable == on
  | .waitForBufferState buf status, x =>
      (x.client.getBufferStatus buf).map fun current => decide (current = status)

def WaitCall.cond : WaitCall → CondVar
  | .waitForState _ | .waitForFlushing | .waitForPortEnable _ _ => .stateCond
  | .waitForBufferState _ _ => .bufferCond

/-! ## The callbacks -/

/-- The events of `OMX_EventCmdComplete` and the done callbacks. The component is in its new state
before it sends the event. -/
inductive OmxCallback where
  | stateSet (state : OmxState)
  | flushDone (port : Int)
  | portSet (port : Int) (enable : Bool)
  | emptyBufferDone (buf : Nat)
  | fillBufferDone (buf : Nat)
  deriving DecidableEq, Repr

/-- The signals of the callbacks. After a flush there is one only if no port is left. -/
inductive OmxSignal where
  | state
  | stateIfFlushed
  | buffer
  deriving DecidableEq, Repr

/-- `setPortMapState`. -/
def OmxClient.setPortMapState (c : OmxClient) (port : Int) (state : Bool) : OmxClient :=
  match c.enabledPorts port with
  | some _ => { c with enabledPorts := Function.update c.enabledPorts port (some state) }
  | none => c

/-- A done callback; one for a buffer that the client owns leaves at once. -/
def OmxShared.done (x : OmxShared) (signals : List OmxSignal) :
    Option Outcome → Option (OmxShared × List OmxSignal)
  | some (ret, client, _) => if ret = 0 then some ({ x with client := client }, signals) else none
  | none => none

def OmxCallback.react : OmxCallback → OmxShared → Option (OmxShared × List OmxSignal)
  | .stateSet state, x => some ({ x with state := state }, [.state])
  | .flushDone port, x => some ({ x with flushing := x.flushing.erase port }, [.stateIfFlushed])
  | .portSet port enable, x =>
      some ({ x with client := x.client.setPortMapState port enable }, [.state])
  | .emptyBufferDone buf, x => x.done [.buffer] (x.client.emptyBufferDone buf)
  | .fillBufferDone buf, x => x.done [.buffer, .buffer] (x.client.fillBufferDone buf)

def OmxSignal.emits : OmxSignal → OmxShared → Option CondVar
  | .state, _ => some .stateCond
  | .stateIfFlushed, x => if x.flushing.isEmpty then some .stateCond else none
  | .buffer, _ => some .bufferCond

/-! Each callback signals what it brings about. -/

theorem setPortMapState_getBufferStatus (c : OmxClient) (port : Int) (state : Bool) (buf : Nat) :
    (c.setPortMapState port state).getBufferStatus buf = c.getBufferStatus buf := by
  unfold OmxClient.setPortMapState
  split
  · rfl
  · rfl

theorem done_eq {x y : OmxShared} {signals ds : List OmxSignal} {buf : Nat}
    {events : BufferHeader → Bool → List BufferEvent}
    (h : x.done signals (x.client.bufferDone buf events) = some (y, ds)) :
    ds = signals ∧ y = { x with client := x.client.setBufferStatus buf .ownedByClient } := by
  cases hdone : x.client.bufferDone buf events with
  | none => simp [OmxShared.done, hdone] at h
  | some r =>
      obtain ⟨ret, client, shown⟩ := r
      simp only [OmxShared.done, hdone, Option.ite_none_right_eq_some, Option.some.injEq,
        Prod.mk.injEq] at h
      obtain ⟨hret, rfl, rfl⟩ := h
      unfold OmxClient.bufferDone at hdone
      obtain ⟨head, -, hdone⟩ := Option.bind_eq_some_iff.mp hdone
      obtain ⟨free, -, hdone⟩ := Option.bind_eq_some_iff.mp hdone
      split at hdone
      case isTrue =>
        have herror : omxErrorUndefined = ret := congrArg Prod.fst (Option.some.inj hdone)
        exact absurd (herror.trans hret) (by decide)
      case isFalse =>
        obtain ⟨enabled, -, hdone⟩ := Option.bind_eq_some_iff.mp hdone
        obtain ⟨-, rfl, -⟩ := Prod.mk.inj (Option.some.inj hdone)
        exact ⟨rfl, rfl⟩

/-- A done callback is not waited for on `state_cond_`. -/
theorem done_announces {x y : OmxShared} {signals ds : List OmxSignal} {buf : Nat}
    {events : BufferHeader → Bool → List BufferEvent} {k : WaitCall}
    (h : x.done signals (x.client.bufferDone buf events) = some (y, ds))
    (hsignals : .buffer ∈ signals) (hbefore : k.look x ≠ some true)
    (hafter : k.look y = some true) :
    ∃ d ∈ ds, ∀ z, k.look z = some true → d.emits z = some k.cond := by
  obtain ⟨rfl, rfl⟩ := done_eq h
  cases k with
  | waitForState state => exact absurd hafter hbefore
  | waitForFlushing => exact absurd hafter hbefore
  | waitForPortEnable port enable => exact absurd hafter hbefore
  | waitForBufferState buf status => exact ⟨.buffer, hsignals, fun _ _ => rfl⟩

theorem react_announces {g : OmxCallback} {x y : OmxShared} {ds : List OmxSignal} {k : WaitCall}
    (h : g.react x = some (y, ds)) (hbefore : k.look x ≠ some true)
    (hafter : k.look y = some true) :
    ∃ d ∈ ds, ∀ z, k.look z = some true → d.emits z = some k.cond := by
  cases g with
  | stateSet state =>
      obtain ⟨rfl, rfl⟩ := Prod.mk.inj (Option.some.inj h)
      cases k with
      | waitForBufferState buf status => exact absurd hafter hbefore
      | _ => exact ⟨.state, by simp, fun _ _ => rfl⟩
  | flushDone port =>
      obtain ⟨rfl, rfl⟩ := Prod.mk.inj (Option.some.inj h)
      cases k with
      | waitForFlushing =>
          exact ⟨.stateIfFlushed, by simp, fun z hz => if_pos (Option.some.inj hz)⟩
      | _ => exact absurd hafter hbefore
  | portSet port enable =>
      obtain ⟨rfl, rfl⟩ := Prod.mk.inj (Option.some.inj h)
      cases k with
      | waitForBufferState buf status =>
          rw [WaitCall.look, setPortMapState_getBufferStatus] at hafter
          exact absurd hafter hbefore
      | _ => exact ⟨.state, by simp, fun _ _ => rfl⟩
  | emptyBufferDone buf => exact done_announces h (by simp) hbefore hafter
  | fillBufferDone buf => exact done_announces h (by simp) hbefore hafter

/-- The waits and the callbacks. -/
def omxWaits : WaitSpec OmxShared WaitCall OmxCallback OmxSignal CondVar where
  look := WaitCall.look
  cond := WaitCall.cond
  react := OmxCallback.react
  emits := OmxSignal.emits
  announces := react_announces

/-! ## Runs

Times are in the unit of the clock. -/

/-- The waits of a client, before the first one. -/
abbrev OmxWaiting := State OmxShared WaitCall OmxSignal CondVar

abbrev WaitAct := Act OmxShared WaitCall OmxCallback

/-- Every wait that has returned 0 has found its condition, and every wait that has returned
`ETIMEDOUT` did not have it when the deadline passed. -/
def OmxWaiting.NoneMissed (s : OmxWaiting) : Prop := ∀ w ∈ s.waiters, w.Truthful

/-- **No completion is missed.** In a run in which the last signal for a condition finds every wait
for it asleep that has not seen it, and wakes it, no deadline passes while the signal is still to
come, only callbacks bring conditions about, and no condition is withdrawn from a wait that was
woken in time, every result is truthful. -/
theorem waits_truthful {s t : OmxWaiting} {acts : List WaitAct} (hs : s.waiters = [])
    (hacts : Lts.Along (step omxWaits) (Prompt omxWaits) s acts)
    (ht : Lts.exec (step omxWaits) s acts = some t) : t.NoneMissed :=
  truthful_of_prompt hs hacts ht

/-- A wait for `OMX_StateIdle` that is woken by the event. -/
def wokenWait : List WaitAct :=
  [.call (.waitForState .idle) 1, .turn 0 .look, .turn 0 (.readClock true), .turn 0 .lock,
    .turn 0 .block, .react (.stateSet .idle), .signal 0 [0], .turn 0 .relock, .turn 0 .unlock,
    .turn 0 .lookAgain]

theorem waits_truthful_woken :
    ∃ t : OmxWaiting, Lts.exec (step omxWaits) { shared := {} } wokenWait = some t ∧
      t.NoneMissed := by
  have hprompt : Lts.Along (step omxWaits) (Prompt omxWaits) { shared := {} } wokenWait := by
    refine Lts.Along.cons trivial rfl (Lts.Along.cons trivial rfl ?_)
    refine Lts.Along.cons ?_ rfl (Lts.Along.cons trivial rfl (Lts.Along.cons trivial rfl ?_))
    · -- the deadline had not passed when the wait read the clock
      intro w hw hpast
      obtain rfl := Option.some.inj hw
      exact absurd hpast (by decide)
    refine Lts.Along.cons ?_ rfl (Lts.Along.cons ?_ rfl ?_)
    · intro y ds _ w hw herr
      obtain rfl := List.mem_singleton.mp hw
      cases herr
    · -- the only wait is asleep, and is the one that is woken
      rintro n w hw hpc -
      cases n with
      | zero => exact .inl (by simp)
      | succ n => cases hw
    exact Lts.Along.cons trivial rfl
      (Lts.Along.cons trivial rfl (Lts.Along.cons trivial rfl trivial))
  exact ⟨_, rfl, waits_truthful rfl hprompt rfl⟩

/-- The component is idle, and says so, before the wait for it is asleep. -/
def lostSignal : List WaitAct :=
  [.call (.waitForState .idle) 1, .turn 0 .look, .turn 0 (.readClock true),
    .react (.stateSet .idle), .signal 0 [], .turn 0 .lock, .turn 0 .block, .tick 1,
    .turn 0 .timeOut, .turn 0 .relock, .turn 0 .unlock, .turn 0 .lookAgain]

/-- The wait reports a time-out. -/
theorem waits_lost :
    ∃ t : OmxWaiting, Lts.exec (step omxWaits) { shared := {} } lostSignal = some t ∧
      ¬ t.NoneMissed := by
  refine ⟨_, rfl, fun h => ?_⟩
  have hlate := (h _ List.mem_cons_self).late rfl
  cases hlate

end DirectMedia

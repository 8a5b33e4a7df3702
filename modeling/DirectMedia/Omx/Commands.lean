import DirectMedia.Omx.Waits
import Mathlib.Data.List.Chain
import Mathlib.Data.List.Nodup

set_option autoImplicit false

/-! # Commands to a component

`setState` and `flush` send a command to the component and may wait for its completion. A client is
given such calls one after the other, while the component completes commands early, late or not at
all, its state and the ports change, and time goes by.

A call that is over is kept with what it was asked for, what it found and what it left:
`current_state_`, on which the done callbacks rely, and `flushing_`, which no later flush gets past
unless it is empty. `setState_iff` and `flush_iff` say in which calls these come out right.
-/

namespace DirectMedia

open TimedWait

/-- The keys of `enabled_port_map_`. -/
structure PortKeys where
  keys : List Int := []
  nodup : keys.Nodup := by decide

/-- A call of `setState`: what it was asked for, `current_state_` before, what `getState` found, and
the result with `current_state_` after. -/
structure StateCall where
  requested : OmxState
  previous : OmxState
  found : OmxState
  result : Int := 0
  cached : OmxState := .invalid
  deriving DecidableEq, Repr

/-- A call of `flush`: the ports it covers, the time-out, and what OMX answered, if the command was
sent; then the ports that reported completion in the meantime, the result and what it left in
`flushing_`. -/
structure FlushCall where
  covers : List Int
  timeout : Int
  answer : Option Int
  completed : List Int := []
  result : Int := 0
  left : List Int := []
  deriving DecidableEq, Repr

/-- A call that waits. -/
inductive PendingCall where
  | setState (call : StateCall)
  | flush (call : FlushCall)
  deriving DecidableEq, Repr

/-- A client with the call that waits, if any, and the calls that are over. `covers` and `completed`
are about the last flush that OMX has accepted. -/
structure Commands where
  waits : OmxWaiting
  ports : PortKeys := {}
  cached : OmxState := .invalid
  pending : Option PendingCall := none
  covers : List Int := []
  completed : List Int := []
  stateCalls : List StateCall := []
  flushCalls : List FlushCall := []

/-- `OMX_ALL`. -/
def omxAll : Int := 0xFFFFFFFF

/-- In this state the done callbacks notify the player. -/
def OmxState.notifies (state : OmxState) : Bool := state = .executing ∨ state = .pause

namespace Commands

abbrev shared (s : Commands) : OmxShared := s.waits.shared

def onShared (s : Commands) (f : OmxShared → OmxShared) : Commands :=
  { s with waits := { s.waits with shared := f s.waits.shared } }

/-- `current_state_ = state`. -/
def setCached (s : Commands) (state : OmxState) : Commands :=
  { s.onShared fun x => { x with client := { x.client with running := state.notifies } } with
    cached := state }

def setFlushing (s : Commands) (flushing : List Int) : Commands :=
  s.onShared fun x => { x with flushing := flushing }

/-- The ports that are enabled in `enabled_port_map_`. -/
def enabledPorts (s : Commands) : List Int :=
  s.ports.keys.filter fun port => s.shared.client.enabledPorts port = some true

/-- The call begins to wait. -/
def await (s : Commands) (call : PendingCall) (wait : WaitCall) (timeout : Int) : Commands :=
  { s with
    pending := some call
    waits := { s.waits with waiters := [{ wait := wait, timeout := timeout }] } }

/-- A call of `setState` returns. -/
def endState (s : Commands) (call : StateCall) (result : Int) : Commands :=
  { s with
    pending := none
    stateCalls := s.stateCalls ++ [{ call with result := result, cached := s.cached }] }

/-- A call of `flush` returns. -/
def endFlush (s : Commands) (call : FlushCall) (result : Int) : Commands :=
  { s with
    pending := none
    flushCalls := s.flushCalls ++
      [{ call with completed := s.completed, result := result, left := s.shared.flushing }] }

/-- `setState`, until it waits; `answer` is what `OMX_SendCommand` returns. -/
def setState (s : Commands) (state : OmxState) (timeout answer : Int) : Commands :=
  let previous := s.cached
  let call : StateCall := { requested := state, previous := previous, found := s.shared.state }
  -- `current_state_` stays what it is
  if s.shared.state = state then s.endState call 0
  else
    let s := s.setCached state
    if answer = 0 then
      if timeout ≠ 0 then s.await (.setState call) (.waitForState state) timeout
      else s.endState call 0
    else (s.setCached previous).endState call answer

/-- The ports that `flush` pushes. -/
def flushPorts (s : Commands) (port : Int) : List Int :=
  if port % 2 ^ 32 = omxAll then s.enabledPorts else [port]

/-- `flush`, until it waits. -/
def flush (s : Commands) (port timeout answer : Int) : Commands :=
  let covers := s.flushPorts port
  if s.shared.flushing ≠ [] then
    s.endFlush { covers := covers, timeout := timeout, answer := none } (-1)
  else
    let call : FlushCall := { covers := covers, timeout := timeout, answer := some answer }
    let sent := { s.setFlushing (s.shared.flushing ++ covers) with
      covers := covers, completed := [] }
    if answer ≠ 0 then ({ sent.setFlushing [] with covers := [] }).endFlush call answer
    else if timeout ≠ 0 then sent.await (.flush call) .waitForFlushing timeout
    else sent.endFlush call 0

/-- The wait is over with this value, and the call returns it. -/
def endCall (s : Commands) (result : Int) : PendingCall → Commands
  | .setState call => s.endState call result
  | .flush call => s.endFlush call result

end Commands

/-- The steps: calls, with the answer of OMX, the waiting of the one that waits, and what happens
outside. The component may be in a new state some time before it sends the event. -/
inductive CommandAct where
  | setState (state : OmxState) (timeout answer : Int)
  | flush (port timeout answer : Int)
  | turn (move : Move)
  | returned
  | callback (g : OmxCallback)
  | signal (k : Nat) (woken : List Nat)
  | stateChanged (state : OmxState)
  | clientChanged (client : OmxClient)
  | tick (d : Nat)

/-- The port that has flushed. -/
def OmxCallback.flushed : OmxCallback → Option Int
  | .flushDone port => some port
  | _ => none

namespace Commands

/-- The waits take a step. -/
def waitStep (s : Commands) (a : WaitAct) : Option Commands :=
  (step omxWaits s.waits a).map fun waits => { s with waits := waits }

/-- A port that has flushed is noted. -/
def note (s : Commands) (g : OmxCallback) : Commands :=
  { s with completed := s.completed ++ g.flushed.toList }

def step (s : Commands) : CommandAct → Option Commands
  | .setState state timeout answer =>
      if s.pending = none then some (s.setState state timeout answer) else none
  | .flush port timeout answer =>
      if s.pending = none then some (s.flush port timeout answer) else none
  | .turn move => if s.pending = none then none else s.waitStep (.turn 0 move)
  | .returned => do
      let call ← s.pending
      let waiter ← s.waits.waiters[0]?
      match waiter.pc with
      | .returned result => return s.endCall result call
      | _ => none
  | .callback g => (s.note g).waitStep (.react g)
  | .signal k woken => s.waitStep (.signal k woken)
  | .stateChanged state => s.waitStep (.change fun x => { x with state := state })
  | .clientChanged client =>
      s.waitStep (.change fun x =>
        { x with client := { client with running := x.client.running } })
  | .tick d => s.waitStep (.tick d)

/-- A client that has just been created: `flushing_` is empty, and there have been no calls. -/
def start (ports : PortKeys) (client : OmxClient) (state : OmxState) : Commands :=
  { waits := { shared := { client := { client with running := false }, state := state } }
    ports := ports }

end Commands

/-! ## What is expected of the calls -/

/-- If the call returns 0, `current_state_` is the state it was asked for. -/
def StateCall.Truthful (c : StateCall) : Prop := c.result = 0 → c.cached = c.requested

/-- The component was in the state asked for, and `current_state_` was not. -/
def StateCall.Skips (c : StateCall) : Prop := c.found = c.requested ∧ c.previous ≠ c.requested

/-- The call has failed, and not because of a flush before it. -/
def FlushCall.Fails (c : FlushCall) : Prop := c.answer.isSome ∧ c.result ≠ 0

/-- All ports that the flush covers have reported completion. -/
def FlushCall.Completed (c : FlushCall) : Prop := ∀ port ∈ c.covers, port ∈ c.completed

/-- A flush that fails leaves `flushing_` empty, so that the next is sent, and one that has waited
returns 0 only when it is complete. -/
structure Recovers (calls : List FlushCall) : Prop where
  cleared : ∀ c ∈ calls, c.Fails → c.left = []
  next : calls.IsChain fun c d => c.Fails → d.answer.isSome
  complete : ∀ c ∈ calls, c.timeout ≠ 0 → c.result = 0 → c.Completed

/-! ## What is known of the calls -/

/-- What is known of a flush that is over. -/
structure FlushCall.Sound (c : FlushCall) : Prop where
  nodup : c.covers.Nodup
  accepted : c.answer = some 0 → c.left = c.covers.diff c.completed
  refused : ∀ answer, c.answer = some answer → answer ≠ 0 → c.left = []
  failed : c.answer ≠ some 0 → c.result ≠ 0
  unwaited : c.answer = some 0 → c.timeout = 0 → c.result = 0
  found : c.answer = some 0 → c.timeout ≠ 0 → c.result = 0 → c.left = []

/-- `flushing_` has what is covered and not completed, and the calls that are over are as they
should be. -/
structure Sane (s : Commands) : Prop where
  nodup : s.covers.Nodup
  flushing : s.shared.flushing = s.covers.diff s.completed
  running : s.shared.client.running = s.cached.notifies
  states : ∀ c ∈ s.stateCalls, c.Truthful ↔ ¬ c.Skips
  flushes : ∀ c ∈ s.flushCalls, c.Sound
  chain : s.flushCalls.IsChain fun c d => c.left = [] → d.answer.isSome

/-- What is known while a call waits. -/
def Commands.Waits (s : Commands) : PendingCall → Prop
  | .setState call => s.cached = call.requested ∧ call.found ≠ call.requested
  | .flush call => s.covers = call.covers ∧ call.answer = some 0 ∧ call.timeout ≠ 0 ∧
      ∀ w, s.waits.waiters[0]? = some w →
        w.wait = .waitForFlushing ∧ (w.pc = .returned 0 → s.shared.flushing = [])

/-- No flush waits. -/
def Commands.NotFlushing (s : Commands) : Prop := ∀ call, s.pending ≠ some (.flush call)

structure Consistent (s : Commands) : Prop extends Sane s where
  waits : ∀ call ∈ s.pending, s.Waits call
  last : s.NotFlushing → ∀ c ∈ s.flushCalls.getLast?, c.left = [] → s.shared.flushing = []

theorem diff_eq_nil_iff {covers completed : List Int} (h : covers.Nodup) :
    covers.diff completed = [] ↔ ∀ port ∈ covers, port ∈ completed := by
  rw [List.eq_nil_iff_forall_not_mem]
  constructor
  · intro hnone port hport
    by_contra hmissing
    exact hnone port (h.mem_sdiff_iff.mpr ⟨hport, hmissing⟩)
  · intro hall port hport
    obtain ⟨hcovers, hmissing⟩ := h.mem_sdiff_iff.mp hport
    exact hmissing (hall port hcovers)

theorem Commands.flushPorts_nodup (s : Commands) (port : Int) : (s.flushPorts port).Nodup := by
  unfold flushPorts
  split
  · exact s.ports.nodup.filter _
  · exact List.nodup_singleton port

/-! ## Calls that return -/

section Ends

variable {s : Commands}

theorem NotFlushing.of_none (h : s.pending = none) : s.NotFlushing := by
  intro call hcall
  rw [h] at hcall
  cases hcall

theorem Consistent.endState (h : Consistent s) (hpending : s.NotFlushing) {call : StateCall}
    {result : Int}
    (hcall : StateCall.Truthful { call with result := result, cached := s.cached } ↔
      ¬ StateCall.Skips { call with result := result, cached := s.cached }) :
    Consistent (s.endState call result) where
  nodup := h.nodup
  flushing := h.flushing
  running := h.running
  states c hc := by
    obtain hc | hc := List.mem_append.mp hc
    · exact h.states c hc
    · obtain rfl := List.mem_singleton.mp hc
      exact hcall
  flushes := h.flushes
  chain := h.chain
  waits _ hcall := by cases hcall
  last _ := h.last hpending

theorem Sane.endFlush (h : Sane s) {call : FlushCall} {result : Int}
    (hcall : FlushCall.Sound
      { call with completed := s.completed, result := result, left := s.shared.flushing })
    (hnext : ∀ c ∈ s.flushCalls.getLast?, c.left = [] → call.answer.isSome) :
    Consistent (s.endFlush call result) where
  nodup := h.nodup
  flushing := h.flushing
  running := h.running
  states := h.states
  flushes c hc := by
    obtain hc | hc := List.mem_append.mp hc
    · exact h.flushes c hc
    · obtain rfl := List.mem_singleton.mp hc
      exact hcall
  chain := by
    refine List.isChain_append.mpr ⟨h.chain, List.isChain_singleton _, fun c hc d hd => ?_⟩
    obtain rfl := Option.some.inj hd
    exact hnext c hc
  waits _ hcall := by cases hcall
  last _ c hc hleft := by
    obtain rfl : _ = c := by simpa [Commands.endFlush] using hc
    exact hleft

theorem setCached_setCached (h : s.shared.client.running = s.cached.notifies) (state : OmxState) :
    (s.setCached state).setCached s.cached = s := by
  unfold Commands.setCached Commands.onShared
  simp only [← h]

/-- What `setState` returns without a wait, or leaves to one. -/
theorem consistent_setState (h : Consistent s) (hpending : s.pending = none) (state : OmxState)
    (timeout answer : Int) : Consistent (s.setState state timeout answer) := by
  have hnone := NotFlushing.of_none hpending
  have hcached : Consistent (s.setCached state) :=
    { nodup := h.nodup, flushing := h.flushing, running := rfl, states := h.states
      flushes := h.flushes, chain := h.chain
      waits := fun call hcall => by
        rw [show (s.setCached state).pending = none from hpending] at hcall
        cases hcall
      last := h.last }
  unfold Commands.setState
  by_cases hsame : s.shared.state = state
  · -- whatever `current_state_` is
    rw [if_pos hsame]
    refine h.endState hnone ?_
    simp [StateCall.Truthful, StateCall.Skips, hsame]
  · rw [if_neg hsame]
    by_cases hanswer : answer = 0
    · simp only [if_pos hanswer]
      split
      · exact
          { nodup := h.nodup, flushing := h.flushing, running := rfl, states := h.states
            flushes := h.flushes, chain := h.chain
            waits := fun call hcall => by
              obtain rfl := Option.some.inj hcall
              exact ⟨rfl, hsame⟩
            last := fun _ => h.last hnone }
      · refine hcached.endState hnone ?_
        simp [StateCall.Truthful, StateCall.Skips, hsame, Commands.setCached]
    · simp only [if_neg hanswer]
      rw [setCached_setCached h.running]
      refine h.endState hnone ?_
      simp [StateCall.Truthful, StateCall.Skips, hsame, hanswer]

/-- What `flush` returns without a wait, or leaves to one. -/
theorem consistent_flush (h : Consistent s) (hpending : s.pending = none)
    (port timeout answer : Int) : Consistent (s.flush port timeout answer) := by
  have hnodup := s.flushPorts_nodup port
  have hlast := h.last (NotFlushing.of_none hpending)
  unfold Commands.flush
  by_cases hflushing : s.shared.flushing = []
  · have hsent : Sane
        { s.setFlushing (s.shared.flushing ++ s.flushPorts port) with
          covers := s.flushPorts port, completed := [] } :=
      { nodup := hnodup
        flushing := by
          show s.shared.flushing ++ s.flushPorts port = (s.flushPorts port).diff []
          rw [hflushing, List.nil_append, List.diff_nil]
        running := h.running, states := h.states, flushes := h.flushes, chain := h.chain }
    rw [if_neg (not_not.mpr hflushing)]
    simp only
    by_cases hanswer : answer = 0
    · rw [if_neg (not_not.mpr hanswer)]
      subst hanswer
      by_cases htimeout : timeout = 0
      · rw [if_neg (not_not.mpr htimeout)]
        refine hsent.endFlush ⟨hnodup, fun _ => hsent.flushing, ?_, ?_, fun _ _ => rfl, ?_⟩ ?_
        · rintro answer hanswer hne
          exact absurd (Option.some.inj hanswer).symm hne
        · exact fun hne => absurd rfl hne
        · exact fun _ hne => absurd htimeout hne
        · exact fun _ _ _ => rfl
      · rw [if_pos htimeout]
        exact
          { toSane := ⟨hsent.nodup, hsent.flushing, hsent.running, hsent.states, hsent.flushes,
              hsent.chain⟩
            waits := fun call hcall => by
              obtain rfl := Option.some.inj hcall
              refine ⟨rfl, rfl, htimeout, fun w hw => ?_⟩
              obtain rfl := Option.some.inj hw
              exact ⟨rfl, fun hpc => by cases hpc⟩
            last := fun hnot => absurd rfl (hnot _) }
    · rw [if_pos hanswer]
      have hrefused : Sane { ({ s.setFlushing (s.shared.flushing ++ s.flushPorts port) with
          covers := s.flushPorts port, completed := [] } : Commands).setFlushing [] with
            covers := [] } :=
        { nodup := List.nodup_nil, flushing := by simp [Commands.setFlushing, Commands.onShared]
          running := h.running, states := h.states, flushes := h.flushes, chain := h.chain }
      refine hrefused.endFlush ⟨hnodup, ?_, fun _ _ _ => rfl, fun _ => hanswer, ?_, ?_⟩
        fun _ _ _ => rfl
      · exact fun hzero => absurd (Option.some.inj hzero) hanswer
      · exact fun hzero => absurd (Option.some.inj hzero) hanswer
      · exact fun hzero => absurd (Option.some.inj hzero) hanswer
  · rw [if_pos hflushing]
    refine h.toSane.endFlush ⟨hnodup, ?_, ?_, fun _ => show (-1 : Int) ≠ 0 by decide, ?_, ?_⟩ ?_
    · rintro ⟨⟩
    · rintro _ ⟨⟩
    · rintro ⟨⟩
    · rintro ⟨⟩
    · exact fun c hc hleft => absurd (hlast c hc hleft) hflushing

/-- The call returns what its wait has returned. -/
theorem consistent_endCall (h : Consistent s) {call : PendingCall} (hcall : s.pending = some call)
    {w : Waiter WaitCall} (hw : s.waits.waiters[0]? = some w) {result : Int}
    (hpc : w.pc = .returned result) : Consistent (s.endCall result call) := by
  have hwaits := h.waits call hcall
  cases call with
  | setState call =>
      obtain ⟨hcached, hfound⟩ := hwaits
      refine h.endState (fun flush hflush => ?_) ?_
      · rw [hcall] at hflush
        cases hflush
      · simp [StateCall.Truthful, StateCall.Skips, hcached, hfound]
  | flush call =>
      obtain ⟨hcovers, hanswer, htimeout, hwaiter⟩ := hwaits
      refine h.toSane.endFlush ⟨?_, fun _ => ?_, ?_, ?_, ?_, fun _ _ hzero => ?_⟩ ?_
      · rw [← hcovers]
        exact h.nodup
      · rw [← hcovers]
        exact h.flushing
      · rintro answer hsome hne
        exact absurd (Option.some.inj (hanswer.symm.trans hsome)).symm hne
      · exact fun hne => absurd hanswer hne
      · exact fun _ hzero => absurd hzero htimeout
      · obtain rfl : result = 0 := hzero
        exact (hwaiter w hw).2 hpc
      · exact fun _ _ _ => by rw [hanswer]; rfl

end Ends

/-! ## Steps in between -/

/-- What happens while no call begins or returns: a callback may take a port from `flushing_`, and
is noted. -/
structure Between (s t : Commands) : Prop where
  cached : t.cached = s.cached
  pending : t.pending = s.pending
  covers : t.covers = s.covers
  stateCalls : t.stateCalls = s.stateCalls
  flushCalls : t.flushCalls = s.flushCalls
  running : t.shared.client.running = s.shared.client.running
  flushing : (t.shared.flushing = s.shared.flushing ∧ t.completed = s.completed) ∨
    ∃ port, t.shared.flushing = s.shared.flushing.erase port ∧ t.completed = s.completed ++ [port]
  waiter : ∀ v, t.waits.waiters[0]? = some v →
    ∃ w, s.waits.waiters[0]? = some w ∧ Follows omxWaits s.shared w v

theorem Between.still_flushed {s t : Commands} (h : Between s t) (hs : s.shared.flushing = []) :
    t.shared.flushing = [] := by
  obtain ⟨hsame, -⟩ | ⟨port, herased, -⟩ := h.flushing
  · rw [hsame, hs]
  · rw [herased, hs, List.erase_nil]

theorem Between.consistent {s t : Commands} (h : Between s t) (hs : Consistent s) :
    Consistent t where
  nodup := by rw [h.covers]; exact hs.nodup
  flushing := by
    rw [h.covers]
    obtain ⟨hflushing, hcompleted⟩ | ⟨port, hflushing, hcompleted⟩ := h.flushing
    · rw [hflushing, hcompleted, hs.flushing]
    · rw [hflushing, hcompleted, hs.flushing, List.diff_append, List.diff_cons, List.diff_nil]
  running := by rw [h.running, h.cached, hs.running]
  states := by rw [h.stateCalls]; exact hs.states
  flushes := by rw [h.flushCalls]; exact hs.flushes
  chain := by rw [h.flushCalls]; exact hs.chain
  waits call hcall := by
    rw [h.pending] at hcall
    have hwaits := hs.waits call hcall
    cases call with
    | setState call => exact ⟨h.cached.trans hwaits.1, hwaits.2⟩
    | flush call =>
        obtain ⟨hcovers, hanswer, htimeout, hwaiter⟩ := hwaits
        refine ⟨h.covers.trans hcovers, hanswer, htimeout, fun v hv => ?_⟩
        obtain ⟨w, hw, hwait, hfound⟩ := h.waiter v hv
        obtain ⟨hflush, hreturned⟩ := hwaiter w hw
        refine ⟨hwait.trans hflush, fun hpc => h.still_flushed ?_⟩
        obtain hbefore | hnow := hfound hpc
        · exact hreturned hbefore
        · rw [hflush] at hnow
          exact List.isEmpty_iff.mp (Option.some.inj hnow)
  last hnot c hc hleft := by
    rw [h.flushCalls] at hc
    refine h.still_flushed (hs.last (fun call hcall => ?_) c hc hleft)
    exact hnot call (h.pending.trans hcall)

/-- A step of the waits that is no call and leaves `flushing_` and `current_state_` alone. -/
theorem between_waitStep {s t : Commands} {a : WaitAct}
    (hcall : ∀ wait timeout, a ≠ .call wait timeout) (ht : s.waitStep a = some t)
    (hshared : ∀ waits, TimedWait.step omxWaits s.waits a = some waits →
      waits.shared.flushing = s.shared.flushing ∧
        waits.shared.client.running = s.shared.client.running) : Between s t := by
  obtain ⟨waits, hwaits, rfl⟩ := Option.map_eq_some_iff.mp ht
  obtain ⟨hflushing, hrunning⟩ := hshared waits hwaits
  exact
    { cached := rfl, pending := rfl, covers := rfl, stateCalls := rfl, flushCalls := rfl
      running := hrunning, flushing := .inl ⟨hflushing, rfl⟩
      waiter := fun v hv => follows_step hcall hwaits hv }

theorem between_turn {s t : Commands} {move : Move} (ht : s.waitStep (.turn 0 move) = some t) :
    Between s t := by
  refine between_waitStep (by simp) ht fun waits hwaits => ?_
  obtain ⟨w, -, hturn⟩ := Option.bind_eq_some_iff.mp hwaits
  rw [(follows_turn hturn).1]
  exact ⟨rfl, rfl⟩

theorem between_signal {s t : Commands} {k : Nat} {woken : List Nat}
    (ht : s.waitStep (.signal k woken) = some t) : Between s t := by
  refine between_waitStep (by simp) ht fun waits hwaits => ?_
  obtain ⟨rfl, -⟩ := give_eq hwaits
  exact ⟨rfl, rfl⟩

theorem between_change {s t : Commands} {f : OmxShared → OmxShared}
    (hf : ∀ x, (f x).flushing = x.flushing ∧ (f x).client.running = x.client.running)
    (ht : s.waitStep (.change f) = some t) : Between s t := by
  refine between_waitStep (by simp) ht fun waits hwaits => ?_
  obtain rfl := Option.some.inj hwaits
  exact hf s.shared

theorem between_tick {s t : Commands} {d : Nat} (ht : s.waitStep (.tick d) = some t) :
    Between s t := by
  refine between_waitStep (by simp) ht fun waits hwaits => ?_
  obtain rfl := Option.some.inj hwaits
  exact ⟨rfl, rfl⟩

/-- Of what matters here a callback changes `flushing_` at most. -/
theorem react_keeps {g : OmxCallback} {x y : OmxShared} {ds : List OmxSignal}
    (h : g.react x = some (y, ds)) :
    y.client.running = x.client.running ∧ y.flushing = x.flushing.diff g.flushed.toList := by
  cases g with
  | stateSet state =>
      obtain ⟨rfl, rfl⟩ := Prod.mk.inj (Option.some.inj h)
      exact ⟨rfl, rfl⟩
  | flushDone port =>
      obtain ⟨rfl, rfl⟩ := Prod.mk.inj (Option.some.inj h)
      refine ⟨rfl, ?_⟩
      show x.flushing.erase port = x.flushing.diff [port]
      rw [List.diff_cons, List.diff_nil]
  | portSet port enable =>
      obtain ⟨rfl, rfl⟩ := Prod.mk.inj (Option.some.inj h)
      refine ⟨?_, rfl⟩
      show (x.client.setPortMapState port enable).running = x.client.running
      unfold OmxClient.setPortMapState
      split
      · rfl
      · rfl
  | emptyBufferDone buf =>
      obtain ⟨-, rfl⟩ := done_eq h
      exact ⟨rfl, rfl⟩
  | fillBufferDone buf =>
      obtain ⟨-, rfl⟩ := done_eq h
      exact ⟨rfl, rfl⟩

theorem flushed_of_react_none {g : OmxCallback} {x : OmxShared} (h : g.react x = none) :
    g.flushed = none := by
  cases g with
  | flushDone port => cases h
  | _ => rfl

theorem between_callback {s t : Commands} {g : OmxCallback}
    (ht : (s.note g).waitStep (.react g) = some t) : Between s t := by
  obtain ⟨waits, hwaits, rfl⟩ := Option.map_eq_some_iff.mp ht
  have hwaiter : ∀ v, waits.waiters[0]? = some v →
      ∃ w, s.waits.waiters[0]? = some w ∧ Follows omxWaits s.shared w v :=
    fun v hv => follows_step (by simp) hwaits hv
  have hshared : waits.shared.client.running = s.shared.client.running ∧
      waits.shared.flushing = s.shared.flushing.diff g.flushed.toList := by
    simp only [TimedWait.step] at hwaits
    cases hreact : omxWaits.react g s.shared with
    | none =>
        rw [show (s.note g).waits.shared = s.shared from rfl, hreact] at hwaits
        obtain rfl := Option.some.inj hwaits
        rw [flushed_of_react_none hreact]
        exact ⟨rfl, rfl⟩
    | some r =>
        obtain ⟨y, ds⟩ := r
        rw [show (s.note g).waits.shared = s.shared from rfl, hreact] at hwaits
        obtain rfl := Option.some.inj hwaits
        exact react_keeps hreact
  refine
    { cached := rfl, pending := rfl, covers := rfl, stateCalls := rfl, flushCalls := rfl
      running := hshared.1, flushing := ?_, waiter := hwaiter }
  cases hflushed : g.flushed with
  | none =>
      rw [hflushed] at hshared
      refine .inl ⟨hshared.2, ?_⟩
      simp [Commands.note, hflushed]
  | some port =>
      rw [hflushed] at hshared
      refine .inr ⟨port, ?_, ?_⟩
      · show waits.shared.flushing = s.shared.flushing.erase port
        rw [hshared.2, Option.toList_some, List.diff_cons, List.diff_nil]
      · simp [Commands.note, hflushed]

theorem consistent_step {s t : Commands} {a : CommandAct} (hs : Consistent s)
    (ht : s.step a = some t) : Consistent t := by
  cases a with
  | setState state timeout answer =>
      obtain ⟨hpending, rfl⟩ := by simpa [Commands.step] using ht
      exact consistent_setState hs hpending state timeout answer
  | flush port timeout answer =>
      obtain ⟨hpending, rfl⟩ := by simpa [Commands.step] using ht
      exact consistent_flush hs hpending port timeout answer
  | turn move =>
      obtain ⟨-, ht⟩ := by simpa [Commands.step] using ht
      exact (between_turn ht).consistent hs
  | returned =>
      obtain ⟨call, hcall, ht⟩ := Option.bind_eq_some_iff.mp ht
      obtain ⟨w, hw, ht⟩ := Option.bind_eq_some_iff.mp ht
      cases hpc : w.pc with
      | returned result =>
          simp only [hpc] at ht
          obtain rfl := Option.some.inj ht
          exact consistent_endCall hs hcall hw hpc
      | _ => simp [hpc] at ht
  | callback g => exact (between_callback ht).consistent hs
  | signal k woken => exact (between_signal ht).consistent hs
  | stateChanged state =>
      refine (between_change ?_ ht).consistent hs
      exact fun _ => ⟨rfl, rfl⟩
  | clientChanged client =>
      refine (between_change ?_ ht).consistent hs
      exact fun _ => ⟨rfl, rfl⟩
  | tick d => exact (between_tick ht).consistent hs

theorem consistent_start (ports : PortKeys) (client : OmxClient) (state : OmxState) :
    Consistent (Commands.start ports client state) where
  nodup := List.nodup_nil
  flushing := rfl
  running := rfl
  states _ h := absurd h List.not_mem_nil
  flushes _ h := absurd h List.not_mem_nil
  chain := .nil
  waits _ h := by cases h
  last _ _ h := by cases h

/-- Whatever the calls and whatever the component does. -/
theorem consistent_exec {ports : PortKeys} {client : OmxClient} {state : OmxState}
    {acts : List CommandAct} {t : Commands}
    (ht : Lts.exec Commands.step (.start ports client state) acts = some t) : Consistent t :=
  Lts.exec_invariant (Q := fun _ => True) (fun _ _ _ _ hs ht => consistent_step hs ht)
    (fun _ _ => trivial) (consistent_start ports client state) ht

/-! ## When the calls come out right -/

/-- **`current_state_`.** In every run the calls of `setState` that return 0 leave the state they
were asked for in `current_state_` exactly if none finds the component in that state already while
`current_state_` is another. -/
theorem setState_iff (ports : PortKeys) (client : OmxClient) (state : OmxState)
    (acts : List CommandAct) (t : Commands)
    (ht : Lts.exec Commands.step (.start ports client state) acts = some t) :
    (∀ c ∈ t.stateCalls, c.Truthful) ↔ ∀ c ∈ t.stateCalls, ¬ c.Skips := by
  have hstates := (consistent_exec ht).states
  exact ⟨fun h c hc => (hstates c hc).mp (h c hc), fun h c hc => (hstates c hc).mpr (h c hc)⟩

/-- The wait of a call times out after a unit of time. -/
def timesOut : List CommandAct :=
  [.turn .look, .turn (.readClock true), .turn .lock, .turn .block, .tick 1, .turn .timeOut,
    .turn .relock, .turn .unlock, .turn .lookAgain, .returned]

/-- The component is idle in time for `setState`, and then asked to be idle again. -/
def idleTwice : List CommandAct :=
  [.setState .idle 1 0, .stateChanged .idle, .turn .look, .returned, .setState .idle 1 0]

theorem setState_iff_twice :
    ∃ t, Lts.exec Commands.step (.start {} {} .loaded) idleTwice = some t ∧
      t.stateCalls.length = 2 ∧
      ((∀ c ∈ t.stateCalls, c.Truthful) ↔ ∀ c ∈ t.stateCalls, ¬ c.Skips) :=
  ⟨_, rfl, rfl, setState_iff {} {} .loaded idleTwice _ rfl⟩

/-- The component stays loaded: `setState` times out, and the next call is for the state it has. -/
def backToLoaded : List CommandAct :=
  .setState .executing 1 0 :: timesOut ++ [.setState .loaded 1 0]

/-- The second call returns 0, and the done callbacks still notify. -/
theorem setState_stale :
    ∃ t, Lts.exec Commands.step (.start {} {} .loaded) backToLoaded = some t ∧
      t.stateCalls.map (fun c => (c.requested, c.result, c.cached)) =
        [(.executing, etimedout, .executing), (.loaded, 0, .executing)] ∧
      t.shared.client.running = true ∧
      ¬ ∀ c ∈ t.stateCalls, c.Truthful := by
  refine ⟨_, rfl, rfl, rfl, fun h => ?_⟩
  have hlast := h ⟨.loaded, .executing, .loaded, 0, .executing⟩ (by decide) rfl
  cases hlast

/-- **`flushing_`.** In every run the calls of `flush` that fail do not stand in the way of later
ones, and those that wait and return 0 are complete, exactly if every flush that OMX has accepted
and that waits has completed on all its ports when it returns. -/
theorem flush_iff (ports : PortKeys) (client : OmxClient) (state : OmxState)
    (acts : List CommandAct) (t : Commands)
    (ht : Lts.exec Commands.step (.start ports client state) acts = some t) :
    Recovers t.flushCalls ↔
      ∀ c ∈ t.flushCalls, c.answer = some 0 → c.timeout ≠ 0 → c.Completed := by
  have hconsistent := consistent_exec ht
  constructor
  · intro h c hc hanswer htimeout
    have hsound := hconsistent.flushes c hc
    by_cases hresult : c.result = 0
    · exact h.complete c hc htimeout hresult
    · have hleft := h.cleared c hc ⟨by rw [hanswer]; rfl, hresult⟩
      rw [hsound.accepted hanswer] at hleft
      exact (diff_eq_nil_iff hsound.nodup).mp hleft
  · intro h
    have hcleared : ∀ c ∈ t.flushCalls, c.Fails → c.left = [] := by
      rintro c hc ⟨hsent, hresult⟩
      have hsound := hconsistent.flushes c hc
      obtain ⟨answer, hanswer⟩ := Option.isSome_iff_exists.mp hsent
      by_cases haccepted : answer = 0
      · subst haccepted
        by_cases htimeout : c.timeout = 0
        · exact absurd (hsound.unwaited hanswer htimeout) hresult
        · rw [hsound.accepted hanswer]
          exact (diff_eq_nil_iff hsound.nodup).mpr (h c hc hanswer htimeout)
      · exact hsound.refused answer hanswer haccepted
    refine ⟨hcleared, ?_, fun c hc htimeout hresult => ?_⟩
    · exact hconsistent.chain.imp_of_mem_imp fun c d hc _ hnext hfails =>
        hnext (hcleared c hc hfails)
    · have hsound := hconsistent.flushes c hc
      by_cases hanswer : c.answer = some 0
      · exact h c hc hanswer htimeout
      · exact absurd hresult (hsound.failed hanswer)

/-- Both ports complete their flush while it waits. -/
def flushBoth : List CommandAct :=
  [.flush omxAll 1 0, .callback (.flushDone 1), .turn .look, .turn (.readClock true), .turn .lock,
    .turn .block, .callback (.flushDone 0), .signal 1 [0], .turn .relock, .turn .unlock,
    .turn .lookAgain, .returned, .flush 0 0 0]

/-- A client whose ports 0 and 1 are enabled. -/
def twoPorts : OmxClient := { enabledPorts := fun port => some (decide (port = 0 ∨ port = 1)) }

theorem flush_iff_both :
    ∃ t, Lts.exec Commands.step (.start { keys := [0, 1] } twoPorts .idle) flushBoth = some t ∧
      t.flushCalls.length = 2 ∧
      (Recovers t.flushCalls ↔
        ∀ c ∈ t.flushCalls, c.answer = some 0 → c.timeout ≠ 0 → c.Completed) :=
  ⟨_, rfl, rfl, flush_iff { keys := [0, 1] } twoPorts .idle flushBoth _ rfl⟩

/-- A port does not complete: the flush times out, and the next one is refused. -/
def flushAgain : List CommandAct := .flush 0 1 0 :: timesOut ++ [.flush 0 1 0]

theorem flush_stuck :
    ∃ t, Lts.exec Commands.step (.start { keys := [0] } twoPorts .idle) flushAgain = some t ∧
      t.flushCalls.map (fun c => (c.answer, c.result, c.left)) =
        [(some 0, etimedout, [0]), (none, -1, [0])] ∧
      ¬ Recovers t.flushCalls := by
  refine ⟨_, rfl, rfl, fun h => ?_⟩
  have hleft := h.cleared ⟨[0], 1, some 0, [], etimedout, [0]⟩ (by decide) ⟨rfl, by decide⟩
  cases hleft

end DirectMedia

import DirectMedia.Lib.Amid
import DirectMedia.Lib.History
import DirectMedia.Lib.Lts
import DirectMedia.Player.State

set_option autoImplicit false

/-! # The clock

`OmxClock` configures the OMX clock: its state, its scale and its reference clock. A request takes
effect if it is answered with zero. The OMX clock also moves by itself: once it has the start times
it waits for it starts to run, at any moment between two actions of `OmxClock`.

A clock is asked to wait only while it is stopped, and for its reference clock only once
(`clock_requests`). What the calls have answered tells what is configured (`clock_follows`), and
the player's own account of its calls to the clock agrees with that.
-/

namespace DirectMedia

open Prog

/-! ## The OMX clock -/

/-- `OMX_TIME_CLOCKSTATE`. -/
inductive ClockState where
  | running
  | waitingForStartTime
  | stopped
  deriving DecidableEq, Repr

/-- `OMX_TIME_REFCLOCKTYPE`. -/
inductive RefClock where
  | none
  | audio
  | video
  deriving DecidableEq, Repr

/-- `OMX_TIME_CONFIG_CLOCKSTATETYPE`, with the times in microseconds. -/
structure ClockConfig where
  state : ClockState
  startTime : Int := 0
  offset : Int := 0
  waitMask : Nat := 0
  deriving DecidableEq, Repr

/-- What is configured in the OMX clock. -/
structure ClockComponent where
  config : ClockConfig := { state := .stopped }
  scale : Int := 0x10000
  refClock : RefClock := .none
  deriving DecidableEq, Repr

/-- What `OmxClock` asks of it with `setConfig`. -/
inductive ClockRequest where
  | clockState (config : ClockConfig)
  | scale (x : Int)
  | refClock (r : RefClock)
  deriving DecidableEq, Repr

def ClockRequest.effect : ClockRequest → ClockComponent → ClockComponent
  | .clockState config, c => { c with config := config }
  | .scale x, c => { c with scale := x }
  | .refClock r, c => { c with refClock := r }

/-- The start times have come. -/
def ClockConfig.started (c : ClockConfig) : ClockConfig :=
  if c.state = .waitingForStartTime then { c with state := .running } else c

/-! ## `OmxClock` -/

/-- `OmxClock`: whether `clock_` is set, the members that it reads, and the OMX clock. -/
structure OmxClock where
  held : Bool := true
  targetClockScale : Int := 0
  eClock : RefClock := .none
  component : ClockComponent := {}
  deriving DecidableEq, Repr

/-- A program of the clock. -/
abbrev ClockOp (α : Type) := Prog OmxClock ClockRequest α

/-- What the OMX clock answers to the requests of a call. -/
structure ClockAnswers where
  refClock : Int := 0
  getState : Int := 0
  stop : Int := 0
  wait : Int := 0
  scale : Int := 0
  deriving DecidableEq, Repr

/-- `clock_->setConfig`. -/
def configureClock (request : ClockRequest) (answer : Int) : ClockOp Int :=
  act (fun s =>
    (some request,
      if answer = 0 then { s with component := request.effect s.component } else s))
    fun _ => ret answer

/-- `OmxClock::setStopped`. -/
def OmxClock.setStopped (a : ClockAnswers) : ClockOp Int := do
  let held ← read (·.held)
  if held then
    if a.getState ≠ 0 then return resultClockStateError
    else
      let config ← read (·.component.config)
      if config.state ≠ .stopped then
        let ret ← configureClock (.clockState { config with state := .stopped }) a.stop
        if ret ≠ 0 then return resultClockStateError else return resultSuccess
      else return resultSuccess
  else return resultFail

/-- `OmxClock::OMXSetReferenceClock`. The member is set even if the request is refused. -/
def OmxClock.setReferenceClock (a : ClockAnswers) (hasAudio : Bool) : ClockOp Bool := do
  let refClock : RefClock := if hasAudio then .audio else .video
  let eClock ← read (·.eClock)
  if refClock ≠ eClock then
    let omxErr ← configureClock (.refClock refClock) a.refClock
    write fun s => { s with eClock := refClock }
    return decide (omxErr = 0)
  else return true

/-- The configuration that `setWaitingForStartTime` asks for; `OMX_PRE_ROLL` is 200 ms. -/
def waitingConfig (portIndex : Nat) : ClockConfig :=
  { state := .waitingForStartTime, startTime := 0, offset := -1000 * 200, waitMask := portIndex }

/-- `OmxClock::setWaitingForStartTime`. -/
def OmxClock.setWaitingForStartTime (a : ClockAnswers) (portIndex : Nat) : ClockOp Int := do
  let held ← read (·.held)
  if held then
    let _ ← setReferenceClock a true
    -- this state is only printed
    let _ ← read (·.component.config)
    let ret ← setStopped a
    if ret < 0 then return resultFail
    else configureClock (.clockState (waitingConfig portIndex)) a.wait
  else return resultFail

/-- `OmxClock::setScaleImpl`. -/
def OmxClock.setScaleImpl (a : ClockAnswers) (scale : Int) : ClockOp Int := do
  let held ← read (·.held)
  if held then
    let ret ← configureClock (.scale scale) a.scale
    if ret ≠ 0 then return resultClockStateError else return resultSuccess
  else return resultFail

/-- `OmxClock::setPlaybackRate`. -/
def OmxClock.setPlaybackRate (a : ClockAnswers) (rate : Int) : ClockOp Int := do
  write fun s => { s with targetClockScale := clockScale rate }
  let scale ← read (·.targetClockScale)
  setScaleImpl a scale

/-- `OmxClock::destroy`. -/
def OmxClock.destroy : ClockOp Int := do
  write fun s => { s with held := false }
  return resultSuccess

/-! ## Sessions -/

/-- The calls of the player. -/
inductive ClockCall where
  | setWaitingForStartTime (portIndex : Nat)
  | setStopped
  | setPlaybackRate (rate : Int)
  | destroy
  deriving DecidableEq, Repr

def ClockCall.prog (a : ClockAnswers) : ClockCall → ClockOp Int
  | .setWaitingForStartTime portIndex => OmxClock.setWaitingForStartTime a portIndex
  | .setStopped => OmxClock.setStopped a
  | .setPlaybackRate rate => OmxClock.setPlaybackRate a rate
  | .destroy => OmxClock.destroy

/-- The OMX clock may have started. -/
def OmxClock.startsIf (s : OmxClock) (b : Bool) : OmxClock :=
  if b then { s with component := { s.component with config := s.component.config.started } } else s

/-- The clock, all its requests with the states in which they were made, and the calls so far with
what they returned, the latest first. -/
structure ClockSession where
  clock : OmxClock
  history : List (OmxClock × Option ClockRequest) := []
  calls : List (ClockCall × Int) := []

/-- One call, with the answers it gets and the actions before which the OMX clock may start. -/
def ClockSession.step (x : ClockSession) (c : ClockCall × ClockAnswers × (Nat → Bool)) :
    Option ClockSession :=
  let r := (c.1.prog c.2.1).amid (fun n s => s.startsIf (c.2.2 n)) 0 x.clock
  some
    { clock := r.state
      history := x.history ++ r.history
      calls := (c.1, r.result) :: x.calls }

/-! ## What is asked of the OMX clock -/

/-- A step of a run of the clock: the state it is taken in, and the request, if there is one. -/
abbrev ClockStep := OmxClock × Option ClockRequest

/-- The request is about the reference clock. -/
def ClockRequest.isRefClock : ClockRequest → Bool
  | .refClock _ => true
  | _ => false

/-- The requests about the reference clock. -/
def refClocksOf (d : List ClockStep) : List ClockRequest :=
  (d.filterMap (·.2)).filter (·.isRefClock)

/-- The step asks the OMX clock to wait. -/
def ClockStep.waits (e : ClockStep) : Prop :=
  ∃ config, e.2 = some (.clockState config) ∧ config.state = .waitingForStartTime

/-- A step that asks the clock to wait finds it stopped, and comes after a request for the audio as
reference clock. -/
def WaitsInOrder (d : List ClockStep) : Prop :=
  History.Each (fun past e => e.waits →
    e.1.component.config.state = .stopped ∧ refClocksOf past = [.refClock .audio]) d

@[simp] theorem refClocksOf_concat (d : List ClockStep) (s : OmxClock) (o : Option ClockRequest) :
    refClocksOf (d ++ [(s, o)]) = refClocksOf d ++ o.toList.filter (·.isRefClock) := by
  cases o <;> simp [refClocksOf]

/-- What holds between the requests. -/
structure OmxClockInv (d : List ClockStep) (s : OmxClock) : Prop where
  order : WaitsInOrder d
  once : (s.eClock = .none ∧ refClocksOf d = []) ∨
    (s.eClock = .audio ∧ refClocksOf d = [.refClock .audio])

theorem OmxClockInv.congr {d : List ClockStep} {s t : OmxClock} (h : OmxClockInv d s)
    (ht : t.eClock = s.eClock) : OmxClockInv d t :=
  ⟨h.order, by rw [ht]; exact h.once⟩

/-- A step that asks for no reference clock. -/
theorem OmxClockInv.concat {d : List ClockStep} {s : OmxClock} (h : OmxClockInv d s)
    {o : Option ClockRequest} (ho : ∀ r ∈ o, r.isRefClock = false)
    (hwaits : ClockStep.waits (s, o) → s.component.config.state = .stopped ∧ s.eClock = .audio) :
    OmxClockInv (d ++ [(s, o)]) s := by
  refine ⟨h.order.concat fun hw => ?_, ?_⟩
  · obtain ⟨hstopped, haudio⟩ := hwaits hw
    rcases h.once with ⟨hnone, -⟩ | ⟨-, honce⟩
    · rw [haudio] at hnone
      cases hnone
    · exact ⟨hstopped, honce⟩
  · have hsame : o.toList.filter (·.isRefClock) = [] := by
      cases o with
      | none => rfl
      | some r => simp [ho r rfl]
    rw [refClocksOf_concat, hsame, List.append_nil]
    exact h.once

/-! ## Assertions -/

/-- The state of the OMX clock is as `P` says, and the rest as given. -/
structure ClockAt (P : ClockConfig → Prop) (E : RefClock → Prop) (scale target : Int)
    (d : List ClockStep) (s : OmxClock) : Prop where
  inv : OmxClockInv d s
  config : P s.component.config
  eClock : E s.eClock
  scale : s.component.scale = scale
  target : s.targetClockScale = target

/-- It stays so when the clock starts. -/
def MayStart (P : ClockConfig → Prop) : Prop := ∀ c, P c → P c.started

/-- The OMX clock is stopped. -/
def ClockConfig.IsStopped (c : ClockConfig) : Prop := c.state = .stopped

theorem mayStart_isStopped : MayStart ClockConfig.IsStopped := by
  intro c hc
  rw [ClockConfig.started, if_neg (by rw [hc]; decide)]
  exact hc

section Assertions

variable {P : ClockConfig → Prop} {E : RefClock → Prop} {x t : Int} {b : Nat → Bool}
  {d : List ClockStep} {s : OmxClock}

theorem ClockAt.startsIf (h : ClockAt P E x t d s) (hP : MayStart P) (b : Bool) :
    ClockAt P E x t d (s.startsIf b) := by
  cases b with
  | false => exact h
  | true => exact ⟨h.inv.congr rfl, hP _ h.config, h.eClock, h.scale, h.target⟩

/-- The clock is asked nothing. -/
theorem ClockAt.look (h : ClockAt P E x t d s) : ClockAt P E x t (d ++ [(s, none)]) s := by
  refine ⟨h.inv.concat (fun r hr => by cases hr) fun hw => ?_, h.config, h.eClock, h.scale,
    h.target⟩
  obtain ⟨config, hno, -⟩ := hw
  cases hno

theorem amidst_look (hP : MayStart P) {α : Type} {g : OmxClock → α}
    {C : α → List ClockStep → OmxClock → Prop}
    (h : ∀ d s, ClockAt P E x t d s → C (g s) d s) :
    Amidst (fun n s => s.startsIf (b n)) (ClockAt P E x t) (read g) C :=
  amidst_step fun _ _ _ hs => h _ _ (hs.startsIf hP _).look

/-- The state is configured. -/
theorem amidst_configureState (hP : MayStart P) {config : ClockConfig} {a : Int}
    (hwaits : config.state = .waitingForStartTime →
      (∀ c, P c → c.state = .stopped) ∧ ∀ r, E r → r = .audio) :
    Amidst (fun n s => s.startsIf (b n)) (ClockAt P E x t)
      (configureClock (.clockState config) a) fun r d s =>
        r = a ∧ ClockAt (fun c => if a = 0 then c = config else P c) E x t d s := by
  refine amidst_step fun d n s hs => ⟨rfl, ?_⟩
  have h := hs.startsIf hP (b n)
  have hinv := h.inv.concat (o := some (.clockState config)) (fun r hr => by cases hr; rfl) (by
    rintro ⟨c, hc, hw⟩
    cases hc
    exact ⟨(hwaits hw).1 _ h.config, (hwaits hw).2 _ h.eClock⟩)
  by_cases ha : a = 0
  · simp only [if_pos ha]
    exact ⟨hinv.congr rfl, rfl, h.eClock, h.scale, h.target⟩
  · simp only [if_neg ha]
    exact ⟨hinv, h.config, h.eClock, h.scale, h.target⟩

/-- `setStopped` leaves the clock stopped, or its state as it was. -/
theorem amidst_setStopped (hP : MayStart P) (a : ClockAnswers) :
    Amidst (fun n s => s.startsIf (b n)) (ClockAt P E x t) (OmxClock.setStopped a) fun r d s =>
      (r = 0 ∧ ClockAt ClockConfig.IsStopped E x t d s) ∨ (r < 0 ∧ ClockAt P E x t d s) := by
  refine Amidst.bind (amidst_look (C := fun _ => ClockAt P E x t) hP fun _ _ h => h) fun held => ?_
  refine Amidst.ite (fun _ => ?_) fun _ => amidst_pure fun d s h => .inr ⟨by decide, h⟩
  refine Amidst.ite (fun _ => amidst_pure fun d s h => .inr ⟨by decide, h⟩) fun _ => ?_
  refine Amidst.bind (C := fun config d s => ClockAt P E x t d s ∧
    (config.state = .stopped → s.component.config.IsStopped)) (amidst_look hP fun d s h => ⟨h, id⟩)
    fun config => ?_
  refine Amidst.ite (fun _ => ?_) fun hstopped => amidst_pure fun d s h => .inl ⟨rfl, ?_⟩
  · refine Amidst.bind (Amidst.mono (amidst_configureState hP (a := a.stop) fun hw => by cases hw)
      (fun d s h => h.1) fun r d s h => h) fun ret => ?_
    refine Amidst.ite (fun hret => ?_) fun hret => ?_
    · refine amidst_pure fun d s h => .inr ⟨by decide, ?_⟩
      simpa only [if_neg (h.1 ▸ hret)] using h.2
    · refine amidst_pure fun d s h => .inl ⟨rfl, ?_⟩
      have hat := h.2
      simp only [if_pos (h.1 ▸ not_not.mp hret)] at hat
      exact ⟨hat.inv, by rw [hat.config]; rfl, hat.eClock, hat.scale, hat.target⟩
  · exact ⟨h.1.inv, h.2 (not_not.mp hstopped), h.1.eClock, h.1.scale, h.1.target⟩

/-- The first call asks for the audio as reference clock. -/
theorem amidst_setReferenceClock (hP : MayStart P) (a : ClockAnswers) :
    Amidst (fun n s => s.startsIf (b n)) (ClockAt P (fun _ => True) x t)
      (OmxClock.setReferenceClock a true) fun _ => ClockAt P (· = .audio) x t := by
  refine Amidst.bind (C := fun eClock d s => ClockAt P (· = eClock) x t d s)
    (amidst_look hP fun d s h => ⟨h.inv, h.config, rfl, h.scale, h.target⟩) fun eClock => ?_
  refine Amidst.ite (fun hne => ?_) fun heq => ?_
  · -- no reference clock has been asked for
    have hask : Amidst (fun n s => s.startsIf (b n)) (ClockAt P (· = eClock) x t)
        (configureClock (.refClock .audio) a.refClock) fun _ d s => WaitsInOrder d ∧
          refClocksOf d = [.refClock .audio] ∧ P s.component.config ∧ s.component.scale = x ∧
          s.targetClockScale = t := by
      refine amidst_step fun d n s hs => ?_
      have h := hs.startsIf hP (b n)
      have hnone : refClocksOf d = [] := by
        rcases h.inv.once with ⟨-, hnone⟩ | ⟨haudio, -⟩
        · exact hnone
        · exact absurd (haudio.symm.trans h.eClock) hne
      refine ⟨h.inv.order.concat fun hw => ?_, ?_, ?_⟩
      · obtain ⟨config, hno, -⟩ := hw
        cases hno
      · rw [refClocksOf_concat, hnone]
        rfl
      · split
        · exact ⟨h.config, h.scale, h.target⟩
        · exact ⟨h.config, h.scale, h.target⟩
    refine Amidst.bind hask fun omxErr => Amidst.bind (C := fun _ => ClockAt P (· = .audio) x t) ?_
      fun _ => amidst_pure fun d s h => h
    refine amidst_step fun d n s ⟨horder, hrefClocks, hconfig, hscale, htarget⟩ => ?_
    refine ⟨⟨horder.concat fun hw => ?_, .inr ⟨rfl, ?_⟩⟩, ?_, rfl, ?_, ?_⟩
    · obtain ⟨config, hno, -⟩ := hw
      cases hno
    · rw [refClocksOf_concat, hrefClocks]
      rfl
    · cases b n with
      | false => exact hconfig
      | true => exact hP _ hconfig
    · cases b n <;> exact hscale
    · cases b n <;> exact htarget
  · refine amidst_pure fun d s h => ⟨h.inv, h.config, ?_, h.scale, h.target⟩
    exact h.eClock.trans (not_not.mp heq).symm

/-- Waiting for the start time, or running since. -/
def ClockConfig.IsArmed (portIndex : Nat) (c : ClockConfig) : Prop :=
  c = waitingConfig portIndex ∨ c = (waitingConfig portIndex).started

theorem mayStart_isArmed (portIndex : Nat) : MayStart (ClockConfig.IsArmed portIndex) := by
  rintro c (rfl | rfl)
  · exact .inr rfl
  · exact .inr rfl

/-- `setWaitingForStartTime` leaves the clock as it was, or stopped if it fails. -/
theorem amidst_setWaitingForStartTime (hP : MayStart P) (a : ClockAnswers) (portIndex : Nat) :
    Amidst (fun n s => s.startsIf (b n)) (ClockAt P (fun _ => True) x t)
      (OmxClock.setWaitingForStartTime a portIndex) fun r =>
        ClockAt (fun c => if r = 0 then c.IsArmed portIndex else P c ∨ c.IsStopped)
          (fun _ => True) x t := by
  have hfail : ∀ {E : RefClock → Prop} {d s}, ClockAt P E x t d s →
      ClockAt (fun c => if resultFail = 0 then c.IsArmed portIndex else P c ∨ c.IsStopped)
        (fun _ => True) x t d s := fun h => ⟨h.inv, .inl h.config, trivial, h.scale, h.target⟩
  refine Amidst.bind (amidst_look (C := fun _ => ClockAt P (fun _ => True) x t) hP fun _ _ h => h)
    fun held => ?_
  refine Amidst.ite (fun _ => ?_) fun _ => amidst_pure fun d s h => hfail h
  refine Amidst.bind (amidst_setReferenceClock hP a) fun _ => ?_
  refine Amidst.bind (amidst_look (C := fun _ => ClockAt P (· = .audio) x t) hP fun _ _ h => h)
    fun _ => ?_
  refine Amidst.bind (amidst_setStopped hP a) fun ret => ?_
  refine Amidst.ite (fun hret => ?_) fun hret => ?_
  · refine amidst_pure fun d s h => ?_
    rcases h with ⟨h0, -⟩ | ⟨-, h⟩
    · omega
    · exact hfail h
  · have hstopped : ∀ d s, ((ret = 0 ∧ ClockAt ClockConfig.IsStopped (· = .audio) x t d s) ∨
        (ret < 0 ∧ ClockAt P (· = .audio) x t d s)) →
        ClockAt ClockConfig.IsStopped (· = .audio) x t d s := by
      rintro d s (⟨-, h⟩ | ⟨hneg, -⟩)
      · exact h
      · exact absurd hneg hret
    have hask : Amidst (fun n s => s.startsIf (b n))
        (ClockAt ClockConfig.IsStopped (· = .audio) x t)
        (configureClock (.clockState (waitingConfig portIndex)) a.wait) _ :=
      amidst_configureState mayStart_isStopped fun _ => ⟨fun c hc => hc, fun r hr => hr⟩
    refine hask.mono hstopped fun r d s h => ?_
    obtain ⟨rfl, h⟩ := h
    refine ⟨h.inv, ?_, trivial, h.scale, h.target⟩
    have hconfig := h.config
    by_cases ha : a.wait = 0
    · simp only [if_pos ha] at hconfig ⊢
      exact .inl hconfig
    · simp only [if_neg ha] at hconfig ⊢
      exact .inr hconfig

/-- `setPlaybackRate` sets the scale of the rate, or leaves it as it was. -/
theorem amidst_setPlaybackRate (hP : MayStart P) (a : ClockAnswers) (rate : Int) :
    Amidst (fun n s => s.startsIf (b n)) (ClockAt P (fun _ => True) x t)
      (OmxClock.setPlaybackRate a rate) fun r => ClockAt P (fun _ => True)
        (if r = 0 then clockScale rate else x) (clockScale rate) := by
  refine Amidst.bind (C := fun _ => ClockAt P (fun _ => True) x (clockScale rate)) ?_ fun _ => ?_
  · refine amidst_step fun d n s hs => ?_
    have h := hs.startsIf hP (b n)
    have hl := h.look
    exact ⟨hl.inv.congr rfl, h.config, trivial, h.scale, rfl⟩
  refine Amidst.bind (C := fun scale d s => scale = clockScale rate ∧
    ClockAt P (fun _ => True) x (clockScale rate) d s)
    (amidst_look hP fun d s h => ⟨h.target, h⟩) fun scale => ?_
  refine amidst_of_start (fun _ _ h => h.1) fun hscale => ?_
  subst hscale
  refine Amidst.bind (C := fun _ => ClockAt P (fun _ => True) x (clockScale rate))
    ((amidst_look (C := fun _ => ClockAt P (fun _ => True) x (clockScale rate)) hP
      fun _ _ h => h).mono (fun _ _ h => h.2) fun _ _ _ h => h) fun held => ?_
  refine Amidst.ite (fun _ => ?_) fun _ => amidst_pure fun d s h => h
  have hset : Amidst (fun n s => s.startsIf (b n)) (ClockAt P (fun _ => True) x (clockScale rate))
      (configureClock (.scale (clockScale rate)) a.scale) fun r d s => r = a.scale ∧
        ClockAt P (fun _ => True) (if a.scale = 0 then clockScale rate else x) (clockScale rate)
          d s := by
    refine amidst_step fun d n s hs => ⟨rfl, ?_⟩
    have h := hs.startsIf hP (b n)
    have hinv := h.inv.concat (o := some (.scale (clockScale rate))) (fun r hr => by cases hr; rfl)
      (by rintro ⟨c, hc, -⟩; cases hc)
    by_cases ha : a.scale = 0
    · simp only [if_pos ha]
      exact ⟨hinv.congr rfl, h.config, trivial, rfl, h.target⟩
    · simp only [if_neg ha]
      exact ⟨hinv, h.config, trivial, h.scale, h.target⟩
  refine Amidst.bind hset fun ret => amidst_of_start (fun _ _ h => h.1) fun hret => ?_
  refine Amidst.ite (fun hne => ?_) fun hzero => ?_
  · refine amidst_pure fun d s h => ?_
    rw [if_neg (by decide)]
    simpa only [if_neg (hret ▸ hne)] using h.2
  · refine amidst_pure fun d s h => ?_
    rw [if_pos (show resultSuccess = 0 from rfl)]
    simpa only [if_pos (hret ▸ not_not.mp hzero)] using h.2

theorem amidst_destroy (hP : MayStart P) :
    Amidst (fun n s => s.startsIf (b n)) (ClockAt P (fun _ => True) x t) OmxClock.destroy
      fun _ => ClockAt P (fun _ => True) x t := by
  refine Amidst.bind (C := fun _ => ClockAt P (fun _ => True) x t) ?_ fun _ =>
    amidst_pure fun _ _ h => h
  refine amidst_step fun d n s hs => ?_
  have h := hs.startsIf hP (b n)
  exact ⟨h.look.inv.congr rfl, h.config, trivial, h.scale, h.target⟩

end Assertions

/-! ## Sessions of calls -/

/-- What the calls so far, the latest first, tell of the state of the OMX clock. -/
def Told (initial : ClockConfig → Prop) : List (ClockCall × Int) → ClockConfig → Prop
  | [], c => initial c
  | (.setWaitingForStartTime portIndex, r) :: calls, c =>
      if r = 0 then c.IsArmed portIndex else Told initial calls c ∨ c.IsStopped
  | (.setStopped, r) :: calls, c => if r = 0 then c.IsStopped else Told initial calls c
  | _ :: calls, c => Told initial calls c

/-- The call as the operations of the player make it. -/
def ClockCall.toCall : ClockCall → Option Call
  | .setWaitingForStartTime portIndex => some (.setWaitingForStartTime portIndex)
  | .setStopped => some .setStopped
  | .setPlaybackRate rate => some (.setPlaybackRate rate)
  | .destroy => none

/-- What the player makes of a call and its result. -/
def playerCall (c : ClockCall × Int) (p : Esplayer) : Esplayer :=
  c.1.toCall.elim p fun call => (performAction (fun _ => c.2) call p).2

/-- The scale after a call. -/
def ClockCall.scaleAfter (r x : Int) : ClockCall → Int
  | .setPlaybackRate rate => if r = 0 then clockScale rate else x
  | _ => x

theorem playerCall_scale (call : ClockCall) (r : Int) (p : Esplayer) (x : Int) :
    (playerCall (call, r) p).scale.getD x = call.scaleAfter r (p.scale.getD x) := by
  cases call <;> simp only [playerCall, ClockCall.toCall, Option.elim, performAction,
    ClockCall.scaleAfter] <;> split <;> rfl

theorem mayStart_told {initial : ClockConfig → Prop} (h : MayStart initial)
    (calls : List (ClockCall × Int)) : MayStart (Told initial calls) := by
  induction calls with
  | nil => exact h
  | cons a calls ih =>
      obtain ⟨call, r⟩ := a
      intro c hc
      cases call with
      | setWaitingForStartTime portIndex =>
          by_cases hr : r = 0
          · simp only [Told, if_pos hr] at hc ⊢
            exact mayStart_isArmed portIndex c hc
          · simp only [Told, if_neg hr] at hc ⊢
            exact hc.imp (ih c) (mayStart_isStopped c)
      | setStopped =>
          by_cases hr : r = 0
          · simp only [Told, if_pos hr] at hc ⊢
            exact mayStart_isStopped c hc
          · simp only [Told, if_neg hr] at hc ⊢
            exact ih c hc
      | setPlaybackRate rate => exact ih c hc
      | destroy => exact ih c hc

/-- What a call does to the OMX clock is what its result tells. -/
theorem amidst_call {initial : ClockConfig → Prop} {calls : List (ClockCall × Int)} {x t : Int}
    {b : Nat → Bool} (hP : MayStart (Told initial calls)) (a : ClockAnswers) (call : ClockCall) :
    Amidst (fun n s => s.startsIf (b n)) (ClockAt (Told initial calls) (fun _ => True) x t)
      (call.prog a) fun r d s => OmxClockInv d s ∧
        Told initial ((call, r) :: calls) s.component.config ∧
        s.component.scale = call.scaleAfter r x := by
  cases call with
  | setWaitingForStartTime portIndex =>
      exact (amidst_setWaitingForStartTime hP a portIndex).mono (fun _ _ h => h)
        fun r d s h => ⟨h.inv, h.config, h.scale⟩
  | setStopped =>
      refine (amidst_setStopped hP a).mono (fun _ _ h => h) fun r d s h => ?_
      rcases h with ⟨hr, h⟩ | ⟨hr, h⟩
      · refine ⟨h.inv, ?_, h.scale⟩
        rw [Told, if_pos hr]
        exact h.config
      · refine ⟨h.inv, ?_, h.scale⟩
        rw [Told, if_neg (Int.ne_of_lt hr)]
        exact h.config
  | setPlaybackRate rate =>
      exact (amidst_setPlaybackRate hP a rate).mono (fun _ _ h => h)
        fun r d s h => ⟨h.inv, h.config, h.scale⟩
  | destroy =>
      exact (amidst_destroy hP).mono (fun _ _ h => h) fun r d s h => ⟨h.inv, h.config, h.scale⟩

/-- As configured at first, or running since. -/
def ClockComponent.First (c : ClockComponent) (k : ClockConfig) : Prop :=
  k = c.config ∨ k = c.config.started

theorem mayStart_first (c : ClockComponent) : MayStart c.First := by
  rintro k (rfl | rfl)
  · exact .inr rfl
  · refine .inr ?_
    cases hstate : c.config.state <;> simp [ClockConfig.started, hstate]

/-- The OMX clock is as the calls tell, and its scale as the player takes it to be. -/
structure SessionInv (c : ClockComponent) (x : ClockSession) : Prop where
  inv : OmxClockInv x.history x.clock
  config : Told c.First x.calls x.clock.component.config
  scale : x.clock.component.scale = ((x.calls.foldr playerCall {}).scale).getD c.scale

/-- The step lemma. -/
theorem SessionInv.step {c : ClockComponent} {x y : ClockSession}
    {a : ClockCall × ClockAnswers × (Nat → Bool)} (h : SessionInv c x) (hy : x.step a = some y) :
    SessionInv c y := by
  obtain ⟨call, answers, b⟩ := a
  obtain rfl := Option.some.inj hy
  have hstart := mayStart_told (mayStart_first c) x.calls
  obtain ⟨hinv, hconfig, hscale⟩ := amidst_call (b := b) hstart answers call x.history 0 x.clock
    ⟨h.inv, h.config, trivial, rfl, rfl⟩
  refine ⟨hinv, hconfig, hscale.trans ?_⟩
  rw [h.scale, List.foldr_cons, playerCall_scale]

theorem sessionInv_init (c : ClockComponent) :
    SessionInv c { clock := { component := c } } where
  inv := ⟨History.each_nil, .inl ⟨rfl, rfl⟩⟩
  config := .inl rfl
  scale := rfl

theorem sessionInv {c : ClockComponent} {x : ClockSession}
    {calls : List (ClockCall × ClockAnswers × (Nat → Bool))}
    (hx : Lts.exec ClockSession.step { clock := { component := c } } calls = some x) :
    SessionInv c x :=
  Lts.exec_invariant (Q := fun _ => True) (fun _ _ _ _ h hstep => h.step hstep) (fun _ _ => trivial)
    (sessionInv_init c) hx

/-- **What is asked of the OMX clock.** Whatever calls are made and however they are answered, and
whenever the OMX clock starts by itself: it is asked to wait for its start times only while it is
stopped, and once it has been asked to take the audio as reference clock. This it is asked at most
once, even if it has refused, and it is never asked to take the video. -/
theorem clock_requests {c : ClockComponent} {x : ClockSession}
    {calls : List (ClockCall × ClockAnswers × (Nat → Bool))}
    (hx : Lts.exec ClockSession.step { clock := { component := c } } calls = some x) :
    WaitsInOrder x.history ∧
      (refClocksOf x.history = [] ∨ refClocksOf x.history = [.refClock .audio]) := by
  have hinv := (sessionInv hx).inv
  exact ⟨hinv.order, hinv.once.imp (·.2) (·.2)⟩

/-- A load, a rate, and a flush whose second request the OMX clock refuses. The clock has started
when the rate is set. -/
def flushedClock : List (ClockCall × ClockAnswers × (Nat → Bool)) :=
  [(.setWaitingForStartTime 3, {}, fun _ => false),
    (.setPlaybackRate 500, {}, fun n => n == 0),
    (.setStopped, {}, fun _ => false),
    (.setWaitingForStartTime 1, { wait := 1 }, fun _ => false)]

/-- Both requests to wait find the clock stopped. -/
theorem clock_requests_flushed :
    ∃ x, Lts.exec ClockSession.step { clock := { component := {} } } flushedClock = some x ∧
      (x.history.filterMap (·.2)).length = 5 ∧ WaitsInOrder x.history ∧
      (refClocksOf x.history = [] ∨ refClocksOf x.history = [.refClock .audio]) := by
  have hrun : Lts.exec ClockSession.step { clock := { component := {} } } flushedClock =
      some _ := rfl
  exact ⟨_, hrun, by decide, clock_requests hrun⟩

/-- **What the results tell.** In the same runs: a `setWaitingForStartTime` that returned zero has
left the OMX clock waiting with its mask, or running since; a `setStopped` that returned zero has
left it stopped; the scale is the one the player takes it to be after its calls and their results.
A `setWaitingForStartTime` that failed may have stopped the clock, every other call that failed has
changed nothing. -/
theorem clock_follows {c : ClockComponent} {x : ClockSession}
    {calls : List (ClockCall × ClockAnswers × (Nat → Bool))}
    (hx : Lts.exec ClockSession.step { clock := { component := c } } calls = some x) :
    Told c.First x.calls x.clock.component.config ∧
      x.clock.component.scale = ((x.calls.foldr playerCall {}).scale).getD c.scale := by
  have hinv := sessionInv hx
  exact ⟨hinv.config, hinv.scale⟩

/-- The clock stays stopped, with half the scale. -/
theorem clock_follows_flushed :
    ∃ x, Lts.exec ClockSession.step { clock := { component := {} } } flushedClock = some x ∧
      x.clock.component.config.state = .stopped ∧ x.clock.component.scale = 0x8000 ∧
      Told (ClockComponent.First {}) x.calls x.clock.component.config ∧
      x.clock.component.scale = ((x.calls.foldr playerCall {}).scale).getD 0x10000 := by
  have hrun : Lts.exec ClockSession.step { clock := { component := {} } } flushedClock =
      some _ := rfl
  exact ⟨_, hrun, by decide, by decide, clock_follows hrun⟩

end DirectMedia

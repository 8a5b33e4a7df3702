import DirectMedia.Lib.Lts
import DirectMedia.Lib.Pool
import DirectMedia.Omx.Client

set_option autoImplicit false

/-! # Callbacks while a port is freed

`freeBuffer` waits at most a second for each buffer, then takes the `BufferInfo` away from its
header and deletes it, and in the end erases the port from `port_buffers_`. Meanwhile threads of the
component may run the done callbacks, for buffers that were returned late. Here every access is a
step of its own: a `BufferInfo` lives at an address, and a header points to it or to nothing.

A callback shows which accesses it makes and whether what it uses is still there. They are all
sound as long as `emptyBufferDone` is not entered for a buffer without info, and `freeBuffer` does
not clear a buffer that a callback still uses (`freeBuffer_harmless`).
-/

namespace DirectMedia

open Prog

/-- What `OmxClient` and its callbacks share: the `pAppPrivate` of each header, the infos that are
not deleted, `port_buffers_` with the headers of each port, `enabled_port_map_`, and whether
`current_state_` is `OMX_StateExecuting` or `OMX_StatePause`. -/
structure ClientHeap where
  appPrivate : Nat → Option Nat := fun _ => none
  infos : Nat → Option BufferInfo := fun _ => none
  portBuffers : Int → Option (List Nat) := fun _ => none
  enabledPorts : Int → Option Bool := fun _ => none
  running : Bool := false

/-- What a callback for the buffer `buf`, or `freeBuffer`, does with the heap. -/
inductive HeapAccess where
  /-- the callback reads `pAppPrivate`, which is null or not -/
  | entered (buf : Nat) (cleared : Bool)
  /-- it uses a field of a `BufferInfo`, of a live info of a buffer that is not cleared or not -/
  | info (buf : Nat) (sound : Bool)
  /-- it looks up a port with `port_buffers_.at` -/
  | lookup (buf : Nat) (port : Int) (found : Bool)
  /-- it takes the branch for a buffer without info -/
  | noBufferInfo (buf : Nat)
  /-- `freeBuffer` sets `pAppPrivate` to null -/
  | cleared (buf : Nat)
  /-- `freeBuffer` erases the port -/
  | erased (port : Int)
  deriving DecidableEq, Repr

/-- A part of the code, one access at a time. -/
abbrev HeapOp := Prog ClientHeap HeapAccess

namespace ClientHeap

/-- The info a pointer points to, unless it is null or the info deleted. -/
def deref (s : ClientHeap) (info : Option Nat) : Option BufferInfo := info.bind s.infos

/-- What a read through a pointer gives. Through a null or dangling pointer it could be anything. -/
def load (s : ClientHeap) (info : Option Nat) : BufferInfo :=
  (s.deref info).getD ⟨.ownedByClient, 0, 0⟩

/-- The buffer is not cleared, and the info lives. -/
def sound (s : ClientHeap) (buf : Nat) (info : Option Nat) : Bool :=
  (s.appPrivate buf).isSome && (s.deref info).isSome

def withStatus (s : ClientHeap) (info : Option Nat) (status : BufferStatus) : ClientHeap :=
  match info with
  | none => s
  | some ptr =>
      { s with
        infos := Function.update s.infos ptr
          ((s.infos ptr).map fun i => { i with status := status }) }

/-! ## The callbacks -/

/-- The callback for `buf` reads a field through the pointer. -/
def infoField {α : Type} (buf : Nat) (info : Option Nat) (g : BufferInfo → α) : HeapOp α :=
  act (fun s => (some (.info buf (s.sound buf info)), s)) fun s => ret (g (s.load info))

/-- The two fields in the arguments of `NDLLOG`, which `printLog` gets whatever the level. -/
def logInfo (buf : Nat) (info : Option Nat) : HeapOp Unit := do
  let _ ← infoField buf info (·.portIndex)
  let _ ← infoField buf info (·.bufferIndex)

/-- `isFreeBufferIndex(info->port_index, info->buffer_index)`. Here and below, `none` is an
exception that `at` throws. -/
def isFreeBufferIndex (buf : Nat) (info : Option Nat) : HeapOp (Option Bool) := do
  let port ← infoField buf info (·.portIndex)
  let index ← infoField buf info (·.bufferIndex)
  let buffers ← act (fun s => (some (.lookup buf port (s.portBuffers port).isSome), s))
    fun s => ret (s.portBuffers port)
  match buffers.bind fun bufs => if index < 0 then none else bufs[index.toNat]? with
  | none => return none
  | some header =>
      let info ← read (·.appPrivate header)
      let status ← infoField buf info (·.status)
      return some (decide (status = .ownedByClient))

/-- The condition for a notification: `getPortMapState(info->port_index)` and the state. -/
def notifies (buf : Nat) (info : Option Nat) : HeapOp (Option Bool) := do
  let port ← infoField buf info (·.portIndex)
  let enabled ← read (·.enabledPorts port)
  match enabled with
  | none => return none
  | some false => return some false
  | some true =>
      let running ← read (·.running)
      return some running

/-- `setBufferStatus(buf, …)`, which reads `pAppPrivate` again. -/
def setBufferStatus (buf : Nat) (status : BufferStatus) : HeapOp Unit := do
  let info ← read (·.appPrivate buf)
  act (fun s => (some (.info buf (s.sound buf info)), s.withStatus info status)) fun _ => ret ()

/-- The branch without info. -/
def noInfo (buf : Nat) : HeapOp (Option Int) :=
  act (fun s => (some (.noBufferInfo buf), s)) fun _ => ret (some 0)

/-- `emptyBufferDone` with the info found: the first log does not wait for the check. -/
def emptyBufferDoneWith (buf : Nat) (info : Option Nat) : HeapOp (Option Int) := do
  logInfo buf info
  if info.isSome then
    let free ← isFreeBufferIndex buf info
    match free with
    | none => return none
    | some true =>
        logInfo buf info
        return some omxErrorUndefined
    | some false =>
        let notify ← notifies buf info
        match notify with
        | none => return none
        | some notify =>
            onlyIf notify do
              logInfo buf info
              let _ ← infoField buf info (·.portIndex)
            setBufferStatus buf .ownedByClient
            return some 0
  else noInfo buf

/-- `fillBufferDone` with the info found. -/
def fillBufferDoneWith (buf : Nat) (info : Option Nat) : HeapOp (Option Int) :=
  if info.isSome then do
    let free ← isFreeBufferIndex buf info
    match free with
    | none => return none
    | some true =>
        logInfo buf info
        return some omxErrorUndefined
    | some false =>
        setBufferStatus buf .ownedByClient
        let notify ← notifies buf info
        match notify with
        | none => return none
        | some notify =>
            onlyIf notify do
              logInfo buf info
              logInfo buf info
            return some 0
  else noInfo buf

/-- The rest of a callback, with the `pAppPrivate` it has read. -/
def callbackWith : ClientEvent → Nat → Option Nat → HeapOp (Option Int)
  | .emptyBufferDone => emptyBufferDoneWith
  | .fillBufferDone => fillBufferDoneWith

/-- `emptyBufferDone` or `fillBufferDone`. -/
def callback (kind : ClientEvent) (buf : Nat) : HeapOp (Option Int) :=
  act (fun s => (some (.entered buf (s.appPrivate buf).isNone), s)) fun s =>
    callbackWith kind buf (s.appPrivate buf)

/-! ## Freeing -/

/-- `waitForBufferState(buf, BUFFER_STATUS_OWNED_BY_CLIENT, 1)`: `wakeUps` is the number of times
the condition is signalled before the time is up. -/
def waitForBufferState (buf : Nat) : Nat → HeapOp Unit
  | 0 => do
      let _ ← read fun s => (s.load (s.appPrivate buf)).status
  | wakeUps + 1 => do
      let status ← read fun s => (s.load (s.appPrivate buf)).status
      onlyIf (status ≠ .ownedByClient) (waitForBufferState buf wakeUps)

/-- The body of the loop of `freeBuffer`, up to `OMX_FreeBuffer`, which is the component's. What the
wait returns is not looked at. -/
def freeOne (wakeUps : Nat → Nat) (buf : Nat) : HeapOp Unit := do
  let info ← read (·.appPrivate buf)
  waitForBufferState buf (wakeUps buf)
  emit (fun _ => .cleared buf) fun s =>
    { s with appPrivate := Function.update s.appPrivate buf none }
  write fun s =>
    match info with
    -- `delete` of a null pointer does nothing
    | none => s
    | some ptr => { s with infos := Function.update s.infos ptr none }

/-- `OmxClient::freeBuffer`, with what `enablePort` returns. -/
def freeBuffer (enable : Int) (wakeUps : Nat → Nat) (port : Int) : HeapOp (Option Int) :=
  if enable ≠ 0 then return some (-1)
  else do
    let buffers ← read (·.portBuffers port)
    match buffers with
    | none => return none
    | some buffers =>
        buffers.forM (freeOne wakeUps)
        emit (fun _ => .erased port) fun s =>
          { s with portBuffers := Function.update s.portBuffers port none }
        return some 0

end ClientHeap

/-! ## The system -/

/-- The application, which frees ports, and the threads of the component. -/
inductive HeapUser where
  | application
  | component (n : Nat)
  deriving DecidableEq, Repr

abbrev HeapWorld := World HeapUser ClientHeap HeapAccess

abbrev HeapPool := Pool HeapUser ClientHeap HeapAccess (Option Int)

inductive HeapLabel where
  /-- the application calls `freeBuffer` -/
  | free (enable : Int) (wakeUps : Nat → Nat) (port : Int)
  /-- a thread of the component enters a callback: its first access -/
  | enter (n : Nat) (kind : ClientEvent) (buf : Nat)
  /-- a thread takes its next step -/
  | access (i : HeapUser)
  /-- what a thread was doing returns -/
  | finish (i : HeapUser)
  /-- events change `current_state_` and `enabled_port_map_` -/
  | events (running : Bool) (enabledPorts : Int → Option Bool)

def HeapPool.step (x : HeapPool) : HeapLabel → Option HeapPool
  | .free enable wakeUps port =>
      Pool.start x .application (ClientHeap.freeBuffer enable wakeUps port)
  | .enter n kind buf =>
      (Pool.start x (.component n) (ClientHeap.callback kind buf)).bind fun y =>
        Pool.step y (.component n)
  | .access i => Pool.step x i
  | .finish i => (Pool.finish x i).map (·.2)
  | .events running enabledPorts =>
      let state := { x.world.state with running := running, enabledPorts := enabledPorts }
      some { x with world := { x.world with state := state } }

/-- The buffer whose info an access is about. -/
def HeapAccess.uses : HeapAccess → Option Nat
  | .info buf _ | .lookup buf _ _ => some buf
  | _ => none

/-- An access finds what it uses. -/
def HeapAccess.Fine : HeapAccess → Prop
  | .info _ sound => sound = true
  | .lookup _ _ found => found = true
  | _ => True

/-- After a callback has found no info it takes the branch for that. -/
def HeapAccess.Then (e e' : HeapAccess) : Prop :=
  ∀ buf, e = .entered buf true → e' = .noBufferInfo buf

/-- No callback has used an info that a buffer no longer has or looked up a port that was erased,
and callbacks for buffers without info have taken their branch at once. -/
structure Harmless (w : HeapWorld) : Prop where
  fine : ∀ n, ∀ e ∈ w.events (.component n), e.Fine
  branch : ∀ n, List.IsChain HeapAccess.Then (w.events (.component n))

/-- The action does not use the info of the buffer. -/
def Spares (buf : Nat) (f : ClientHeap → Option HeapAccess × ClientHeap) : Prop :=
  ∀ s, ∀ e ∈ (f s).1, e.uses ≠ some buf

/-- `emptyBufferDone` is entered only for a buffer that has its info, and `freeBuffer` clears a
buffer only when no callback in progress is still going to use its info. -/
def Timely (x : HeapPool) : HeapLabel → Prop
  | .enter _ .emptyBufferDone buf => x.world.state.appPrivate buf ≠ none
  | .access .application => ∀ buf, Pool.shows x .application = some (.cleared buf) →
      ∀ n p, x.running (.component n) = some p → p.Does (Spares buf)
  | _ => True

/-- Each header with an info is listed at the place that the info names, and no two headers share
an info. -/
structure ClientHeap.WellFormed (s : ClientHeap) : Prop where
  place : ∀ buf ptr, s.appPrivate buf = some ptr → ∃ info bufs, s.infos ptr = some info ∧
    s.portBuffers info.portIndex = some bufs ∧ 0 ≤ info.bufferIndex ∧
      bufs[info.bufferIndex.toNat]? = some buf
  own : ∀ buf buf' ptr, s.appPrivate buf = some ptr → s.appPrivate buf' = some ptr → buf = buf'

/-! ## What no callback changes -/

/-- The place in `port_buffers_` that an info names. -/
def BufferInfo.place (info : BufferInfo) : Int × Int := (info.portIndex, info.bufferIndex)

/-- The second heap differs from the first in status and state only. -/
structure SamePlaces (s t : ClientHeap) : Prop where
  appPrivate : t.appPrivate = s.appPrivate
  portBuffers : t.portBuffers = s.portBuffers
  places : ∀ ptr, (t.infos ptr).map (·.place) = (s.infos ptr).map (·.place)

theorem SamePlaces.refl (s : ClientHeap) : SamePlaces s s := ⟨rfl, rfl, fun _ => rfl⟩

theorem SamePlaces.trans {s t u : ClientHeap} (h : SamePlaces s t) (h' : SamePlaces t u) :
    SamePlaces s u where
  appPrivate := h'.appPrivate.trans h.appPrivate
  portBuffers := h'.portBuffers.trans h.portBuffers
  places ptr := (h'.places ptr).trans (h.places ptr)

theorem samePlaces_withStatus (s : ClientHeap) (info : Option Nat) (status : BufferStatus) :
    SamePlaces s (s.withStatus info status) := by
  unfold ClientHeap.withStatus
  cases info with
  | none => exact .refl s
  | some ptr =>
      refine ⟨rfl, rfl, fun ptr' => ?_⟩
      by_cases h : ptr' = ptr
      · subst h
        simp [Function.comp_def, BufferInfo.place]
      · simp [Function.update_of_ne h]

theorem ClientHeap.WellFormed.congr {s t : ClientHeap} (hs : s.WellFormed) (h : SamePlaces s t) :
    t.WellFormed where
  place buf ptr hptr := by
    rw [h.appPrivate] at hptr
    obtain ⟨info, bufs, hinfo, hbufs, hindex, hat⟩ := hs.place buf ptr hptr
    have hplace := h.places ptr
    rw [hinfo, Option.map_some, Option.map_eq_some_iff] at hplace
    obtain ⟨info', hinfo', heq⟩ := hplace
    simp only [BufferInfo.place, Prod.mk.injEq] at heq
    refine ⟨info', bufs, hinfo', ?_, ?_, ?_⟩
    · rw [h.portBuffers, heq.1, hbufs]
    · rwa [heq.2]
    · rwa [heq.2]
  own buf buf' ptr := by
    rw [h.appPrivate]
    exact hs.own buf buf' ptr

/-- What an action of a callback for the buffer does: it uses the info of no other buffer, and
changes no place. -/
def OfCallback (buf : Nat) (f : ClientHeap → Option HeapAccess × ClientHeap) : Prop :=
  ∀ s, SamePlaces s (f s).2 ∧ ∀ e ∈ (f s).1, e.uses = some buf ∨ e = .noBufferInfo buf

namespace ClientHeap

section OfCallback

variable {buf : Nat}

theorem ofCallback_read : OfCallback buf fun s => (none, s) := fun s => ⟨.refl s, by simp⟩

theorem ofCallback_infoField {α : Type} (info : Option Nat) (g : BufferInfo → α) :
    (infoField buf info g).Does (OfCallback buf) :=
  ⟨fun s => ⟨.refl s, by simp [HeapAccess.uses]⟩, fun _ => trivial⟩

theorem ofCallback_logInfo (info : Option Nat) : (logInfo buf info).Does (OfCallback buf) :=
  Does.bind (ofCallback_infoField info _) fun _ => Does.bind (ofCallback_infoField info _) fun _ =>
    does_pure _

theorem ofCallback_isFreeBufferIndex (info : Option Nat) :
    (isFreeBufferIndex buf info).Does (OfCallback buf) := by
  refine Does.bind (ofCallback_infoField info _) fun port => ?_
  refine Does.bind (ofCallback_infoField info _) fun index => ?_
  refine Does.bind ⟨fun s => ⟨.refl s, by simp [HeapAccess.uses]⟩, fun _ => trivial⟩
    fun buffers => ?_
  cases buffers.bind fun bufs => if index < 0 then none else bufs[index.toNat]? with
  | none => exact does_pure _
  | some header =>
      exact Does.bind (does_read _ ofCallback_read) fun info' =>
        Does.bind (ofCallback_infoField info' _) fun _ => does_pure _

theorem ofCallback_notifies (info : Option Nat) : (notifies buf info).Does (OfCallback buf) := by
  refine Does.bind (ofCallback_infoField info _) fun port =>
    Does.bind (does_read _ ofCallback_read) fun enabled => ?_
  rcases enabled with _ | _ | _
  · exact does_pure _
  · exact does_pure _
  · exact Does.bind (does_read _ ofCallback_read) fun _ => does_pure _

theorem ofCallback_setBufferStatus (status : BufferStatus) :
    (setBufferStatus buf status).Does (OfCallback buf) :=
  Does.bind (does_read _ ofCallback_read) fun info =>
    ⟨fun s => ⟨samePlaces_withStatus s info status, by simp [HeapAccess.uses]⟩, fun _ => trivial⟩

theorem ofCallback_noInfo : (noInfo buf).Does (OfCallback buf) :=
  ⟨fun s => ⟨.refl s, by simp⟩, fun _ => trivial⟩

theorem ofCallback_callbackWith (kind : ClientEvent) (info : Option Nat) :
    (callbackWith kind buf info).Does (OfCallback buf) := by
  have hlog : (logInfo buf info).Does (OfCallback buf) := ofCallback_logInfo info
  cases kind with
  | emptyBufferDone =>
      refine Does.bind hlog fun _ => Does.ite (fun _ => ?_) fun _ => ofCallback_noInfo
      refine Does.bind (ofCallback_isFreeBufferIndex info) fun free => ?_
      rcases free with _ | _ | _
      · exact does_pure _
      · refine Does.bind (ofCallback_notifies info) fun notify => ?_
        cases notify with
        | none => exact does_pure _
        | some notify =>
            refine Does.bind (Does.onlyIf fun _ => Does.bind hlog fun _ =>
              Does.bind (ofCallback_infoField info _) fun _ => does_pure _) fun _ => ?_
            exact Does.bind (ofCallback_setBufferStatus _) fun _ => does_pure _
      · exact Does.bind hlog fun _ => does_pure _
  | fillBufferDone =>
      refine Does.ite (fun _ => ?_) fun _ => ofCallback_noInfo
      refine Does.bind (ofCallback_isFreeBufferIndex info) fun free => ?_
      rcases free with _ | _ | _
      · exact does_pure _
      · refine Does.bind (ofCallback_setBufferStatus _) fun _ => ?_
        refine Does.bind (ofCallback_notifies info) fun notify => ?_
        cases notify with
        | none => exact does_pure _
        | some notify =>
            refine Does.bind (Does.onlyIf fun _ => Does.bind hlog fun _ => hlog) fun _ => ?_
            exact does_pure _
      · exact Does.bind hlog fun _ => does_pure _

end OfCallback

/-! ## A callback for a buffer that has its info -/

/-- The buffer points to a live info, which names its place. -/
structure HasInfo (buf ptr : Nat) (port index : Int) (s : ClientHeap) : Prop where
  wf : s.WellFormed
  pointer : s.appPrivate buf = some ptr
  place : (s.infos ptr).map (·.place) = some (port, index)

section HasInfo

variable {buf ptr : Nat} {port index : Int} {s : ClientHeap}

theorem HasInfo.congr {t : ClientHeap} (h : HasInfo buf ptr port index s) (hst : SamePlaces s t) :
    HasInfo buf ptr port index t where
  wf := h.wf.congr hst
  pointer := by rw [hst.appPrivate]; exact h.pointer
  place := (hst.places ptr).trans h.place

theorem HasInfo.load (h : HasInfo buf ptr port index s) :
    s.sound buf (some ptr) = true ∧ (s.load (some ptr)).place = (port, index) := by
  obtain ⟨info, hinfo, hplace⟩ := Option.map_eq_some_iff.mp h.place
  constructor
  · simp [sound, deref, h.pointer, hinfo]
  · simpa [ClientHeap.load, deref, hinfo] using hplace

theorem HasInfo.listed (h : HasInfo buf ptr port index s) :
    ∃ bufs, s.portBuffers port = some bufs ∧
      (if index < 0 then none else bufs[index.toNat]?) = some buf := by
  obtain ⟨info, bufs, hinfo, hbufs, hindex, hat⟩ := h.wf.place buf ptr h.pointer
  have hplace := h.place
  simp only [hinfo, Option.map_some, BufferInfo.place, Option.some.injEq,
    Prod.mk.injEq] at hplace
  obtain ⟨rfl, rfl⟩ := hplace
  exact ⟨bufs, hbufs, by rw [if_neg (by omega), hat]⟩

theorem within_infoField {α : Type} (g : BufferInfo → α) {Q : α → Prop}
    (hQ : ∀ info : BufferInfo, info.place = (port, index) → Q (g info)) :
    Within (HasInfo buf ptr port index) HeapAccess.Fine Q (infoField buf (some ptr) g) := by
  refine within_act fun s hs => ⟨?_, hs, hQ _ hs.load.2⟩
  simpa [HeapAccess.Fine] using hs.load.1

/-- A field is used, and what it holds does not matter. -/
theorem within_infoField_bind {α β : Type} (g : BufferInfo → α) {Q : β → Prop}
    {k : α → HeapOp β} (hk : ∀ a, Within (HasInfo buf ptr port index) HeapAccess.Fine Q (k a)) :
    Within (HasInfo buf ptr port index) HeapAccess.Fine Q (infoField buf (some ptr) g >>= k) :=
  (within_infoField g fun _ _ => trivial).bind (M := fun _ => True) fun a _ => hk a

theorem within_logInfo {Q : Unit → Prop} (hQ : Q ()) :
    Within (HasInfo buf ptr port index) HeapAccess.Fine Q (logInfo buf (some ptr)) :=
  within_infoField_bind _ fun _ => within_infoField_bind _ fun _ => within_pure hQ

theorem within_isFreeBufferIndex :
    Within (HasInfo buf ptr port index) HeapAccess.Fine (fun _ => True)
      (isFreeBufferIndex buf (some ptr)) := by
  refine (within_infoField (Q := (port = ·)) _ fun info h => (congrArg Prod.fst h).symm).bind ?_
  rintro _ rfl
  refine (within_infoField (Q := (index = ·)) _ fun info h => (congrArg Prod.snd h).symm).bind ?_
  rintro _ rfl
  refine Within.bind (M := fun buffers : Option (List Nat) =>
    (buffers.bind fun bufs => if index < 0 then none else bufs[index.toNat]?) = some buf)
    (within_act fun s hs => ?_) fun buffers hbuffers => ?_
  · obtain ⟨bufs, hbufs, hat⟩ := hs.listed
    refine ⟨?_, hs, ?_⟩
    · simp [HeapAccess.Fine, hbufs]
    · rw [hbufs]
      exact hat
  · -- the header found at the place is the buffer itself
    rw [hbuffers]
    refine (within_read (Q := (· = some ptr)) fun s hs => hs.pointer).bind ?_
    rintro _ rfl
    exact within_infoField_bind _ fun _ => within_pure trivial

theorem within_notifies :
    Within (HasInfo buf ptr port index) HeapAccess.Fine (fun _ => True)
      (notifies buf (some ptr)) := by
  refine within_infoField_bind _ fun port' => ?_
  refine (within_read fun _ _ => trivial).bind (M := fun _ => True) fun enabled _ => ?_
  rcases enabled with _ | _ | _
  · exact within_pure trivial
  · exact within_pure trivial
  · exact (within_read fun _ _ => trivial).bind (M := fun _ => True) fun _ _ => within_pure trivial

theorem within_setBufferStatus (status : BufferStatus) :
    Within (HasInfo buf ptr port index) HeapAccess.Fine (fun _ => True)
      (setBufferStatus buf status) := by
  refine (within_read (Q := (· = some ptr)) fun s hs => hs.pointer).bind ?_
  rintro _ rfl
  refine within_act fun s hs => ⟨?_, hs.congr (samePlaces_withStatus s (some ptr) status), trivial⟩
  simpa [HeapAccess.Fine] using hs.load.1

theorem within_onlyIf {c : Prop} [Decidable c] {p : HeapOp Unit}
    (h : Within (HasInfo buf ptr port index) HeapAccess.Fine (fun _ => True) p) :
    Within (HasInfo buf ptr port index) HeapAccess.Fine (fun _ => True) (onlyIf c p) := by
  unfold onlyIf
  split
  · exact h
  · exact trivial

/-- All accesses of a callback are sound while the buffer keeps its info. -/
theorem within_callbackWith (kind : ClientEvent) :
    Within (HasInfo buf ptr port index) HeapAccess.Fine (fun _ => True)
      (callbackWith kind buf (some ptr)) := by
  have hlog : Within (HasInfo buf ptr port index) HeapAccess.Fine (fun _ => True)
      (logInfo buf (some ptr)) := within_logInfo trivial
  cases kind with
  | emptyBufferDone =>
      refine hlog.bind fun _ _ => ?_
      refine within_isFreeBufferIndex.bind fun free _ => ?_
      rcases free with _ | _ | _
      · exact within_pure trivial
      · refine within_notifies.bind fun notify _ => ?_
        cases notify with
        | none => exact within_pure trivial
        | some notify =>
            refine (within_onlyIf (hlog.bind fun _ _ => within_infoField_bind _ fun _ =>
              within_pure trivial)).bind fun _ _ => ?_
            exact (within_setBufferStatus _).bind fun _ _ => within_pure trivial
      · exact hlog.bind fun _ _ => within_pure trivial
  | fillBufferDone =>
      refine within_isFreeBufferIndex.bind fun free _ => ?_
      rcases free with _ | _ | _
      · exact within_pure trivial
      · refine (within_setBufferStatus _).bind fun _ _ => ?_
        refine within_notifies.bind fun notify _ => ?_
        cases notify with
        | none => exact within_pure trivial
        | some notify =>
            refine (within_onlyIf (hlog.bind fun _ _ => hlog)).bind fun _ _ => ?_
            exact within_pure trivial
      · exact hlog.bind fun _ _ => within_pure trivial

end HasInfo

/-! ## `freeBuffer` -/

section WellFormed

variable {s : ClientHeap}

theorem WellFormed.clear (h : s.WellFormed) (buf : Nat) :
    { s with appPrivate := Function.update s.appPrivate buf none }.WellFormed := by
  have hold : ∀ buf' ptr, Function.update s.appPrivate buf none buf' = some ptr →
      s.appPrivate buf' = some ptr := by
    intro buf' ptr hptr
    by_cases heq : buf' = buf
    · subst heq
      simp at hptr
    · rwa [Function.update_of_ne heq] at hptr
  refine ⟨fun buf' ptr hptr => h.place buf' ptr (hold buf' ptr hptr), ?_⟩
  exact fun buf' buf'' ptr hptr hptr' =>
    h.own buf' buf'' ptr (hold buf' ptr hptr) (hold buf'' ptr hptr')

theorem WellFormed.delete (h : s.WellFormed) {ptr : Nat}
    (hfree : ∀ buf, s.appPrivate buf ≠ some ptr) :
    { s with infos := Function.update s.infos ptr none }.WellFormed := by
  refine ⟨fun buf ptr' hptr => ?_, h.own⟩
  obtain ⟨info, bufs, hinfo, hrest⟩ := h.place buf ptr' hptr
  have hne : ptr' ≠ ptr := fun heq => hfree buf (heq ▸ hptr)
  exact ⟨info, bufs, by simpa [Function.update_of_ne hne] using hinfo, hrest⟩

/-- Once all its buffers are cleared a port may go. -/
theorem WellFormed.erase (h : s.WellFormed) {port : Int} {bufs : List Nat}
    (hbufs : s.portBuffers port = some bufs) (hclear : ∀ buf ∈ bufs, s.appPrivate buf = none) :
    { s with portBuffers := Function.update s.portBuffers port none }.WellFormed := by
  refine ⟨fun buf ptr hptr => ?_, h.own⟩
  obtain ⟨info, bufs', hinfo, hbufs', hindex, hat⟩ := h.place buf ptr hptr
  have hne : info.portIndex ≠ port := by
    rintro rfl
    rw [hbufs] at hbufs'
    cases hbufs'
    rw [hclear buf (List.mem_of_getElem? hat)] at hptr
    cases hptr
  exact ⟨info, bufs', hinfo, by simpa [Function.update_of_ne hne] using hbufs', hindex, hat⟩

end WellFormed

/-- What the callbacks do between two steps of `freeBuffer`. -/
def Others (w v : HeapWorld) : Prop := SamePlaces w.state v.state

/-- A step of `freeBuffer` leaves the heap well formed. -/
def Frees (_ v : HeapWorld) : Prop := v.state.WellFormed

section Ensures

variable {w : HeapWorld}

/-- Reading does not matter. -/
theorem ensures_reads {α : Type} {Q : HeapWorld → Prop} {p : HeapOp α}
    (hp : p.Does fun f => ∀ s, (f s).2 = s) (hw : w.state.WellFormed)
    (hQ : ∀ v, Others w v → Q v) :
    Ensures .application Others Frees (fun _ => Q) p w := by
  induction p generalizing w with
  | ret a => exact hQ
  | act f k ih =>
      intro v hv
      have hsame : (v.after .application f).state = v.state := hp.1 v.state
      have hwf : (v.after .application f).state.WellFormed := by
        rw [hsame]
        exact hw.congr hv
      refine ⟨hwf, ih v.state (hp.2 _) hwf fun u hu => hQ u ?_⟩
      exact hv.trans (by rw [← hsame]; exact hu)
  | acquire k ih => exact ih hp hw hQ
  | release k ih => exact ih hp hw hQ

theorem ensures_read_bind {α β : Type} {Q : α → HeapWorld → Prop} {g : ClientHeap → β}
    {k : β → HeapOp α} (hw : w.state.WellFormed)
    (h : ∀ v, Others w v → Ensures .application Others Frees Q (k (g v.state)) v) :
    Ensures .application Others Frees Q (read g >>= k) w := by
  refine Ensures.act_bind fun v hv => ⟨hw.congr hv, Ensures.ret_bind ?_⟩
  have hsame : v.after HeapUser.application (fun s => ((none : Option HeapAccess), s)) = v := by
    simp [World.after]
  rw [hsame]
  exact h v hv

theorem reads_waitForBufferState (buf wakeUps : Nat) :
    (waitForBufferState buf wakeUps).Does fun f => ∀ s, (f s).2 = s := by
  induction wakeUps with
  | zero => exact Does.bind (does_read _ fun _ => rfl) fun _ => does_pure _
  | succ wakeUps ih => exact Does.bind (does_read _ fun _ => rfl) fun _ => Does.onlyIf fun _ => ih

/-- One turn of the loop clears the buffer. -/
theorem ensures_freeOne (wakeUps : Nat → Nat) (buf : Nat) (hw : w.state.WellFormed) :
    Ensures .application Others Frees
      (fun _ v => v.state.WellFormed ∧ v.state.portBuffers = w.state.portBuffers ∧
        v.state.appPrivate = Function.update w.state.appPrivate buf none)
      (freeOne wakeUps buf) w := by
  refine ensures_read_bind hw fun v hv => ?_
  have hvwf : v.state.WellFormed := hw.congr hv
  refine Ensures.bind (M := fun _ u => Others v u) (fun u => .refl u.state)
    (ensures_reads (reads_waitForBufferState buf _) hvwf fun u hu => hu) fun _ u hu => ?_
  -- the buffer is cleared, callbacks go on, and its info is deleted
  intro t ht
  have hcleared := (hvwf.congr (hu.trans ht)).clear buf
  refine ⟨hcleared, ?_⟩
  intro r hr
  have hrwf := hcleared.congr hr
  have hpriv : r.state.appPrivate = Function.update v.state.appPrivate buf none := by
    rw [hr.appPrivate, ← (hu.trans ht).appPrivate]
    rfl
  have hbufs : r.state.portBuffers = v.state.portBuffers :=
    hr.portBuffers.trans (hu.trans ht).portBuffers
  rw [hv.appPrivate] at hpriv
  rw [hv.portBuffers] at hbufs
  cases hinfo : v.state.appPrivate buf with
  | none =>
      refine ⟨hrwf, fun q hq => ⟨hrwf.congr hq, hq.portBuffers.trans hbufs, ?_⟩⟩
      exact hq.appPrivate.trans hpriv
  | some ptr =>
      -- no other header has the info
      have hfree : ∀ buf', r.state.appPrivate buf' ≠ some ptr := by
        intro buf' hptr
        rw [hpriv] at hptr
        by_cases heq : buf' = buf
        · subst heq
          simp at hptr
        · rw [Function.update_of_ne heq, ← hv.appPrivate] at hptr
          exact heq (hvwf.own buf' buf ptr hptr hinfo)
      refine ⟨hrwf.delete hfree, fun q hq => ⟨(hrwf.delete hfree).congr hq, ?_, ?_⟩⟩
      · exact hq.portBuffers.trans hbufs
      · exact hq.appPrivate.trans hpriv

/-- The loop clears all its buffers. -/
theorem ensures_freeAll (wakeUps : Nat → Nat) (bufs : List Nat) (hw : w.state.WellFormed) :
    Ensures .application Others Frees
      (fun _ v => v.state.WellFormed ∧ v.state.portBuffers = w.state.portBuffers ∧
        (∀ buf ∈ bufs, v.state.appPrivate buf = none) ∧
        ∀ buf, w.state.appPrivate buf = none → v.state.appPrivate buf = none)
      (bufs.forM (freeOne wakeUps)) w := by
  induction bufs generalizing w with
  | nil =>
      intro v hv
      refine ⟨hw.congr hv, hv.portBuffers, by simp, fun buf hbuf => ?_⟩
      rw [hv.appPrivate, hbuf]
  | cons buf bufs ih =>
      refine Ensures.bind (fun u => .refl u.state) (ensures_freeOne wakeUps buf hw) ?_
      rintro _ v ⟨hv, hvbufs, hpriv⟩
      refine (ih hv).mono ?_
      rintro _ u ⟨hu, hubufs, hall, hkept⟩
      refine ⟨hu, hubufs.trans hvbufs, fun buf' hbuf' => ?_, fun buf' hbuf' => ?_⟩
      · obtain rfl | hrest := List.mem_cons.mp hbuf'
        · exact hkept _ (by rw [hpriv, Function.update_self])
        · exact hall buf' hrest
      · refine hkept buf' ?_
        rw [hpriv]
        by_cases heq : buf' = buf
        · rw [heq, Function.update_self]
        · rw [Function.update_of_ne heq, hbuf']

theorem ensures_freeBuffer (enable : Int) (wakeUps : Nat → Nat) (port : Int)
    (hw : w.state.WellFormed) :
    Ensures .application Others Frees (fun _ _ => True) (freeBuffer enable wakeUps port) w := by
  refine Ensures.ite (fun _ _ _ => trivial) fun _ => ?_
  refine ensures_read_bind hw fun v hv => ?_
  have hvwf : v.state.WellFormed := hw.congr hv
  cases hbufs : v.state.portBuffers port with
  | none => exact fun _ _ => trivial
  | some bufs =>
      refine Ensures.bind (fun u => .refl u.state) (ensures_freeAll wakeUps bufs hvwf) ?_
      rintro _ u ⟨hu, hubufs, hall, _⟩ t ht
      have htbufs : t.state.portBuffers port = some bufs := by
        rw [ht.portBuffers, hubufs]
        exact hbufs
      refine ⟨(hu.congr ht).erase htbufs fun buf hbuf => ?_, fun _ _ => trivial⟩
      rw [ht.appPrivate]
      exact hall buf hbuf

end Ensures

/-- What an action of `freeBuffer` does to pointers and infos. -/
def OfFree (f : ClientHeap → Option HeapAccess × ClientHeap) : Prop :=
  ∀ s, (∀ buf, (f s).2.appPrivate buf = s.appPrivate buf ∨ (f s).1 = some (.cleared buf)) ∧
    ∀ ptr, (f s).2.infos ptr = s.infos ptr ∨ (f s).2.infos ptr = none

theorem ofFree_reads {α : Type} {p : HeapOp α} (h : p.Does fun f => ∀ s, (f s).2 = s) :
    p.Does OfFree := by
  refine h.mono fun f hf s => ?_
  rw [hf s]
  exact ⟨fun _ => .inl rfl, fun _ => .inl rfl⟩

theorem ofFree_freeOne (wakeUps : Nat → Nat) (buf : Nat) : (freeOne wakeUps buf).Does OfFree := by
  refine Does.bind (ofFree_reads (does_read _ fun _ => rfl)) fun info => ?_
  refine Does.bind (ofFree_reads (reads_waitForBufferState _ _)) fun _ => ?_
  refine Does.bind (does_emit _ _ fun s => ⟨fun buf' => ?_, fun _ => .inl rfl⟩) fun _ => ?_
  · by_cases heq : buf' = buf
    · exact .inr (by rw [heq])
    · exact .inl (Function.update_of_ne heq _ _)
  · refine does_exchange _ _ fun s => ?_
    cases info with
    | none => exact ⟨fun _ => .inl rfl, fun _ => .inl rfl⟩
    | some ptr =>
        refine ⟨fun _ => .inl rfl, fun ptr' => ?_⟩
        by_cases heq : ptr' = ptr
        · exact .inr (by rw [heq]; exact Function.update_self _ _ _)
        · exact .inl (Function.update_of_ne heq _ _)

theorem ofFree_freeBuffer (enable : Int) (wakeUps : Nat → Nat) (port : Int) :
    (freeBuffer enable wakeUps port).Does OfFree := by
  refine Does.ite (fun _ => does_pure _) fun _ => ?_
  refine Does.bind (ofFree_reads (does_read _ fun _ => rfl)) fun buffers => ?_
  cases buffers with
  | none => exact does_pure _
  | some bufs =>
      refine Does.bind (does_forM fun buf _ => ofFree_freeOne wakeUps buf) fun _ => ?_
      exact Does.bind (does_emit _ _ fun s => ⟨fun _ => .inl rfl, fun _ => .inl rfl⟩) fun _ =>
        does_pure _

end ClientHeap

/-! ## All together -/

open ClientHeap

/-- The program belongs to a callback for the buffer, which has its info or is not used any more. -/
structure Serves (s : ClientHeap) (buf : Nat) (p : HeapOp (Option Int)) : Prop where
  callback : p.Does (OfCallback buf)
  uses : (∃ ptr port index, HasInfo buf ptr port index s ∧
    Within (HasInfo buf ptr port index) HeapAccess.Fine (fun _ => True) p) ∨ p.Does (Spares buf)

/-- A thread of the component: it runs a callback as above, if any, and has done no harm so far. -/
structure ComponentInv (x : HeapPool) (n : Nat) : Prop where
  running : ∀ p, x.running (.component n) = some p → ∃ buf, Serves x.world.state buf p
  pending : ∀ buf, (x.world.events (.component n)).getLast? = some (.entered buf true) →
    x.running (.component n) = some (noInfo buf)
  fine : ∀ e ∈ x.world.events (.component n), e.Fine
  branch : List.IsChain HeapAccess.Then (x.world.events (.component n))

structure HeapInv (x : HeapPool) : Prop where
  wf : x.world.state.WellFormed
  application : ∀ p, x.running .application = some p →
    p.Does OfFree ∧ Ensures .application Others Frees (fun _ _ => True) p x.world
  component : ∀ n, ComponentInv x n

theorem HeapInv.harmless {x : HeapPool} (h : HeapInv x) : Harmless x.world :=
  ⟨fun n => (h.component n).fine, fun n => (h.component n).branch⟩

section Steps

variable {x y : HeapPool} {n buf : Nat} {p : HeapOp (Option Int)}

theorem Serves.congr {s t : ClientHeap} (h : Serves s buf p) (hst : SamePlaces s t) :
    Serves t buf p where
  callback := h.callback
  uses := by
    refine h.uses.imp_left ?_
    rintro ⟨ptr, port, index, hinfo, hwithin⟩
    exact ⟨ptr, port, index, hinfo.congr hst, hwithin⟩

/-- The first action of the program shows something sound, and the rest goes on serving. -/
theorem Serves.act {s : ClientHeap} {f : ClientHeap → Option HeapAccess × ClientHeap}
    {k : ClientHeap → HeapOp (Option Int)} (h : Serves s buf (act f k)) :
    (∀ e ∈ (f s).1, e.Fine) ∧ Serves (f s).2 buf (k s) := by
  obtain ⟨⟨hf, hk⟩, huse⟩ := h
  obtain ⟨ptr, port, index, hinfo, hwithin⟩ | hspares := huse
  · obtain ⟨hfine, hkept, hrest⟩ := hwithin s hinfo
    exact ⟨hfine, hk s, .inl ⟨ptr, port, index, hkept, hrest⟩⟩
  · refine ⟨fun e he => ?_, hk s, .inr (hspares.2 s)⟩
    obtain hbuf | rfl := (hf s).2 e he
    · exact absurd hbuf (hspares.1 s e he)
    · trivial

/-- One step of a callback. -/
theorem Serves.step (h : Serves x.world.state buf p) (hp : x.running (.component n) = some p)
    (hstep : Pool.step x (.component n) = some y) :
    SamePlaces x.world.state y.world.state ∧
      (∀ e ∈ x.shows (.component n), e.Fine ∧ (e.uses = some buf ∨ e = .noBufferInfo buf)) ∧
      ∃ q, y.running (.component n) = some q ∧ Serves y.world.state buf q := by
  obtain ⟨f, k, hp', hq, hw⟩ | ⟨k, hp' | hp', hq, hw⟩ := Pool.step_cases hstep
  all_goals
    rw [hp, Option.some.injEq] at hp'
    subst hp'
    rw [hw]
  · obtain ⟨hfine, hrest⟩ := h.act
    obtain ⟨hplaces, hshown⟩ := h.callback.1 x.world.state
    have hshows : x.shows (.component n) = (f x.world.state).1 := by rw [Pool.shows, hp]
    rw [hshows]
    exact ⟨hplaces, fun e he => ⟨hfine e he, hshown e he⟩, _, hq, hrest⟩
  · exact ⟨.refl _, by simp [Pool.shows, hp], k, hq, h.callback, h.uses⟩
  · exact ⟨.refl _, by simp [Pool.shows, hp], k, hq, h.callback, h.uses⟩

/-- `freeBuffer` takes an action: it clears the buffer only if the callback is done with it. -/
theorem Serves.freed {s t : ClientHeap} (h : Serves s buf p) (ht : t.WellFormed)
    (hkept : t.appPrivate buf = s.appPrivate buf ∨ p.Does (Spares buf))
    (hinfos : ∀ ptr, t.infos ptr = s.infos ptr ∨ t.infos ptr = none) : Serves t buf p := by
  refine ⟨h.callback, ?_⟩
  obtain ⟨ptr, port, index, hinfo, hwithin⟩ | hspares := h.uses
  · refine hkept.imp_left fun hsame => ⟨ptr, port, index, ?_, hwithin⟩
    have hpointer : t.appPrivate buf = some ptr := hsame.trans hinfo.pointer
    refine ⟨ht, hpointer, ?_⟩
    obtain hsame | hgone := hinfos ptr
    · rw [hsame]
      exact hinfo.place
    · obtain ⟨info, _, hlive, _⟩ := ht.place buf ptr hpointer
      rw [hgone] at hlive
      cases hlive
  · exact .inr hspares

theorem ComponentInv.congr (h : ComponentInv x n)
    (hplaces : SamePlaces x.world.state y.world.state)
    (hrunning : y.running (.component n) = x.running (.component n))
    (hevents : y.world.events (.component n) = x.world.events (.component n)) :
    ComponentInv y n where
  running p hp := by
    obtain ⟨buf, hserves⟩ := h.running p (hrunning.symm.trans hp)
    exact ⟨buf, hserves.congr hplaces⟩
  pending buf hlast := by
    rw [hevents] at hlast
    rw [hrunning, h.pending buf hlast]
  fine := by rw [hevents]; exact h.fine
  branch := by rw [hevents]; exact h.branch

/-- What others do between its steps does not disturb the application. -/
theorem HeapInv.others (h : HeapInv x) (hplaces : SamePlaces x.world.state y.world.state)
    (hrunning : ∀ p, y.running .application = some p → x.running .application = some p)
    (hcomponent : ∀ n, ComponentInv y n) : HeapInv y where
  wf := h.wf.congr hplaces
  application p hp := by
    obtain ⟨hof, hensures⟩ := h.application p (hrunning p hp)
    exact ⟨hof, hensures.stable (fun _ _ _ => .trans) hplaces⟩
  component := hcomponent

/-- A thread shows something more. After a callback has found no info it is the branch for that. -/
theorem ComponentInv.shown (h : ComponentInv x n) {shown : Option HeapAccess}
    (hevents : y.world.events (.component n) =
      x.world.events (.component n) ++ shown.toList)
    (hfine : ∀ e ∈ shown, e.Fine)
    (hnext : ∀ buf, (x.world.events (.component n)).getLast? = some (.entered buf true) →
      ∀ e ∈ shown, e = .noBufferInfo buf) :
    (∀ e ∈ y.world.events (.component n), e.Fine) ∧
      List.IsChain HeapAccess.Then (y.world.events (.component n)) := by
  rw [hevents]
  constructor
  · intro e he
    obtain hold | hnew := List.mem_append.mp he
    · exact h.fine e hold
    · exact hfine e (by simpa using hnew)
  · rw [List.isChain_append]
    refine ⟨h.branch, ?_, fun z hz e he buf hentered => ?_⟩
    · cases shown <;> simp
    · subst hentered
      exact hnext buf hz e (by simpa using List.mem_of_mem_head? he)

/-- A callback that has found no info shows next that it takes the branch for that. -/
theorem ComponentInv.pending_shows (h : ComponentInv x n)
    (hlast : (x.world.events (.component n)).getLast? = some (.entered buf true)) :
    x.shows (.component n) = some (.noBufferInfo buf) := by
  rw [Pool.shows, h.pending buf hlast]
  rfl

/-- One step of a callback. -/
theorem ComponentInv.step (h : ComponentInv x n) (hstep : Pool.step x (.component n) = some y) :
    SamePlaces x.world.state y.world.state ∧ ComponentInv y n := by
  obtain ⟨⟨p, hp⟩, _⟩ := Pool.step_running hstep
  obtain ⟨buf, hserves⟩ := h.running p hp
  obtain ⟨hplaces, hshown, q, hq, hrest⟩ := hserves.step hp hstep
  have hevents := Pool.step_events_self hstep
  obtain ⟨hfine, hbranch⟩ := h.shown hevents (fun e he => (hshown e he).1) (by
    intro buf' hlast e he
    rw [h.pending_shows hlast] at he
    exact (Option.some.inj he).symm)
  refine ⟨hplaces, fun q' hq' => ?_, fun buf' hlast => ?_, hfine, hbranch⟩
  · rw [hq, Option.some.injEq] at hq'
    exact ⟨buf, hq' ▸ hrest⟩
  · -- a step of a callback does not end in an entry
    exfalso
    rw [hevents] at hlast
    cases he : x.shows (.component n) with
    | none =>
        rw [he, Option.toList_none, List.append_nil] at hlast
        rw [h.pending_shows hlast] at he
        cases he
    | some e =>
        rw [he, Option.toList_some, List.getLast?_concat, Option.some.injEq] at hlast
        subst hlast
        obtain ⟨_, huses | hno⟩ := hshown _ he
        · cases huses
        · cases hno

/-- A callback that has read `pAppPrivate`: it has the info, or only its branch for none is left. -/
theorem serves_callbackWith {s : ClientHeap} (hs : s.WellFormed) {kind : ClientEvent} {buf : Nat}
    (hkind : s.appPrivate buf = none → callbackWith kind buf none = noInfo buf) :
    Serves s buf (callbackWith kind buf (s.appPrivate buf)) := by
  refine ⟨ofCallback_callbackWith kind _, ?_⟩
  cases hptr : s.appPrivate buf with
  | none =>
      rw [hkind hptr]
      exact .inr ⟨fun s => by simp [HeapAccess.uses], fun _ => trivial⟩
  | some ptr =>
      obtain ⟨info, bufs, hinfo, _⟩ := hs.place buf ptr hptr
      exact .inl ⟨ptr, info.portIndex, info.bufferIndex, ⟨hs, hptr, by rw [hinfo]; rfl⟩,
        within_callbackWith kind⟩

/-- What entering a callback does: an idle thread reads `pAppPrivate`. -/
theorem HeapPool.enter_cases {kind : ClientEvent} (hstep : x.step (.enter n kind buf) = some y) :
    x.running (.component n) = none ∧
      y.running (.component n) =
        some (callbackWith kind buf (x.world.state.appPrivate buf)) ∧
      y.world = x.world.after (.component n) (fun s =>
        (some (.entered buf (s.appPrivate buf).isNone), s)) ∧
      ∀ i, i ≠ .component n → y.running i = x.running i := by
  obtain ⟨z, hz, hstep⟩ := Option.bind_eq_some_iff.mp hstep
  obtain ⟨hidle, rfl⟩ := Pool.start_cases hz
  have hown := Pool.running_setRunning_self x (.component n) (some (callback kind buf))
  obtain ⟨f, k, hp, hq, hw⟩ | ⟨k, hp | hp, _⟩ := Pool.step_cases hstep
  all_goals
    rw [hown] at hp
    cases hp
  refine ⟨hidle, hq, hw, fun i hi => ?_⟩
  rw [Pool.step_running_ne hstep hi, Pool.running_setRunning_ne _ hi]

/-- A callback is entered by a thread that runs none: `emptyBufferDone` with the info of the
buffer. -/
theorem ComponentInv.enter (h : ComponentInv x n) (hwf : x.world.state.WellFormed)
    {kind : ClientEvent} (htimely : Timely x (.enter n kind buf))
    (hstep : x.step (.enter n kind buf) = some y) : ComponentInv y n := by
  obtain ⟨hidle, hq, hw, _⟩ := HeapPool.enter_cases hstep
  have hstate : y.world.state = x.world.state := by rw [hw, World.after_state]
  have hevents : y.world.events (.component n) = x.world.events (.component n) ++
      (some (HeapAccess.entered buf (x.world.state.appPrivate buf).isNone)).toList := by
    rw [hw, World.events_after_self]
  have hcleared : x.world.state.appPrivate buf = none →
      callbackWith kind buf none = noInfo buf := by
    intro hnone
    cases kind with
    | emptyBufferDone => exact absurd hnone htimely
    | fillBufferDone => rfl
  obtain ⟨hfine, hbranch⟩ := h.shown hevents (by rintro e ⟨⟩; trivial) (by
    intro buf' hlast
    rw [h.pending buf' hlast] at hidle
    cases hidle)
  refine ⟨fun p hp => ⟨buf, ?_⟩, fun buf' hlast => ?_, hfine, hbranch⟩
  · rw [hq, Option.some.injEq] at hp
    rw [← hp, hstate]
    exact serves_callbackWith hwf hcleared
  · rw [hevents, Option.toList_some, List.getLast?_concat, Option.some.injEq,
      HeapAccess.entered.injEq] at hlast
    obtain ⟨rfl, hnone⟩ := hlast
    have hnull := Option.isNone_iff_eq_none.mp hnone
    rw [hq, hnull, hcleared hnull]

/-- A callback returns. It has shown something after it found no info. -/
theorem ComponentInv.finish (h : ComponentInv x n) {r : Option Int}
    (hret : x.running (.component n) = some (ret r)) :
    ComponentInv (x.setRunning (.component n) none) n where
  running p hp := by
    rw [Pool.running_setRunning_self] at hp
    cases hp
  pending buf hlast := by
    have hrunning := h.pending buf hlast
    rw [hret] at hrunning
    cases hrunning
  fine := h.fine
  branch := h.branch

/-- One step of `freeBuffer`: a buffer is cleared only if its callbacks are done with it. -/
theorem HeapInv.frees (h : HeapInv x) (htimely : Timely x (.access .application))
    (hstep : Pool.step x .application = some y) : HeapInv y := by
  have hne : ∀ n, HeapUser.component n ≠ .application := fun n => by simp
  have hevents : ∀ n, y.world.events (.component n) = x.world.events (.component n) :=
    fun n => Pool.step_events_ne hstep (hne n)
  have hrunning : ∀ n, y.running (.component n) = x.running (.component n) :=
    fun n => Pool.step_running_ne hstep (hne n)
  obtain ⟨f, k, hp, hq, hw⟩ | ⟨k, hp, hq, hw⟩ := Pool.step_cases hstep
  · obtain ⟨⟨hf, hk⟩, hensures⟩ := h.application _ hp
    obtain ⟨hwf, hrest⟩ := hensures x.world (.refl _)
    obtain ⟨hpointers, hinfos⟩ := hf x.world.state
    refine ⟨by rw [hw]; exact hwf, fun p hp' => ?_, fun n => ?_⟩
    · rw [hq] at hp'
      cases hp'
      rw [hw]
      exact ⟨hk _, hrest⟩
    · have hn := h.component n
      refine ⟨fun p hp' => ?_, fun buf hlast => ?_, ?_, ?_⟩
      · rw [hrunning] at hp'
        obtain ⟨buf, hserves⟩ := hn.running p hp'
        refine ⟨buf, ?_⟩
        rw [hw]
        refine hserves.freed hwf ((hpointers buf).imp_right fun hcleared => ?_) hinfos
        exact htimely buf (by simp [Pool.shows, hp, hcleared]) n p hp'
      · rw [hevents] at hlast
        rw [hrunning, hn.pending buf hlast]
      · rw [hevents]
        exact hn.fine
      · rw [hevents]
        exact hn.branch
  · have hplaces : SamePlaces x.world.state y.world.state := by
      rw [hw]
      exact .refl _
    refine ⟨h.wf.congr hplaces, fun p hp' => ?_, fun n =>
      (h.component n).congr hplaces (hrunning n) (hevents n)⟩
    rw [hq] at hp'
    cases hp'
    rw [hw]
    obtain hp | hp := hp
    · obtain ⟨hof, hensures⟩ := h.application _ hp
      exact ⟨hof, hensures⟩
    · obtain ⟨hof, hensures⟩ := h.application _ hp
      exact ⟨hof, hensures⟩

end Steps

/-- The labels that the condition allows keep the invariant. -/
theorem HeapInv.step {x y : HeapPool} {a : HeapLabel} (h : HeapInv x) (htimely : Timely x a)
    (hstep : x.step a = some y) : HeapInv y := by
  cases a with
  | free enable wakeUps port =>
      obtain ⟨_, rfl⟩ := Pool.start_cases hstep
      refine ⟨h.wf, fun p hp => ?_, fun n => ?_⟩
      · rw [Pool.running_setRunning_self, Option.some.injEq] at hp
        subst hp
        exact ⟨ofFree_freeBuffer enable wakeUps port, ensures_freeBuffer enable wakeUps port h.wf⟩
      · exact (h.component n).congr (.refl _) (Pool.running_setRunning_ne x (by simp) _) rfl
  | enter n kind buf =>
      obtain ⟨_, _, hw, hothers⟩ := HeapPool.enter_cases hstep
      have hplaces : SamePlaces x.world.state y.world.state := by
        rw [hw]
        exact .refl _
      refine h.others hplaces (fun p hp => ?_) fun m => ?_
      · rwa [hothers .application (by simp)] at hp
      · by_cases hm : m = n
        · rw [hm]
          exact (h.component n).enter h.wf htimely hstep
        · have hne : HeapUser.component m ≠ .component n := by simpa using hm
          refine (h.component m).congr hplaces (hothers _ hne) ?_
          rw [hw, World.events_after_ne _ hne.symm]
  | access i =>
      cases i with
      | application => exact h.frees htimely hstep
      | component n =>
          obtain ⟨hplaces, hn⟩ := (h.component n).step hstep
          refine h.others hplaces (fun p hp => ?_) fun m => ?_
          · rwa [Pool.step_running_ne hstep (by simp)] at hp
          · by_cases hm : m = n
            · rw [hm]
              exact hn
            · have hne : HeapUser.component m ≠ .component n := by simpa using hm
              exact (h.component m).congr hplaces (Pool.step_running_ne hstep hne)
                (Pool.step_events_ne hstep hne)
  | finish i =>
      obtain ⟨⟨r, z⟩, hfinish, rfl⟩ := Option.map_eq_some_iff.mp hstep
      obtain ⟨hret, rfl⟩ := Pool.finish_cases hfinish
      refine h.others (.refl _) (fun p hp => ?_) fun n => ?_
      · by_cases hi : i = .application
        · rw [hi, Pool.running_setRunning_self] at hp
          cases hp
        · rwa [Pool.running_setRunning_ne _ (Ne.symm hi)] at hp
      · by_cases hi : i = .component n
        · subst hi
          exact (h.component n).finish hret
        · exact (h.component n).congr (.refl _) (Pool.running_setRunning_ne _ (Ne.symm hi) _) rfl
  | events running enabledPorts =>
      cases hstep
      exact h.others ⟨rfl, rfl, fun _ => rfl⟩ (fun p hp => hp) fun n =>
        (h.component n).congr ⟨rfl, rfl, fun _ => rfl⟩ rfl rfl

/-- While no callback runs, `freeBuffer` may clear buffers. -/
theorem timely_of_idle {x : HeapPool} (h : ∀ n, x.running (.component n) = none) :
    Timely x (.access .application) := by
  intro buf _ n p hp
  rw [h n] at hp
  cases hp

theorem heapInv_init {s : ClientHeap} (hs : s.WellFormed) : HeapInv (Pool.init s) where
  wf := hs
  application p hp := by cases hp
  component n :=
    { running := fun p hp => by cases hp
      pending := fun buf hlast => by cases hlast
      fine := fun e he => by cases he
      branch := List.isChain_nil }

/-- However the steps of `freeBuffer` and of the callbacks interleave, whatever buffers the
component still holds: as long as every step is timely, the callbacks do no harm. -/
theorem freeBuffer_harmless {s : ClientHeap} (hs : s.WellFormed) {as : List HeapLabel}
    (htimely : Lts.Along HeapPool.step Timely (Pool.init s) as) {x : HeapPool}
    (hx : Lts.exec HeapPool.step (Pool.init s) as = some x) : Harmless x.world := by
  have hinv : HeapInv x := htimely.invariant (fun _ _ _ ht hi => hi.step ht) (heapInv_init hs) hx
  exact hinv.harmless

/-- One port with one buffer, which the component holds. -/
def heldHeap : ClientHeap where
  appPrivate buf := if buf = 0 then some 0 else none
  infos ptr := if ptr = 0 then some ⟨.ownedByComponent, 0, 0⟩ else none
  portBuffers port := if port = 0 then some [0] else none

theorem heldHeap_wellFormed : heldHeap.WellFormed where
  place buf ptr hptr := by
    simp only [heldHeap, Option.ite_none_right_eq_some, Option.some.injEq] at hptr
    obtain ⟨rfl, rfl⟩ := hptr
    exact ⟨_, [0], rfl, rfl, by decide, rfl⟩
  own buf buf' ptr hptr hptr' := by
    simp only [heldHeap, Option.ite_none_right_eq_some] at hptr hptr'
    rw [hptr.1, hptr'.1]

/-- `freeBuffer` on the port: the wait times out, and the buffer and the port are given up. -/
def freed : List HeapLabel :=
  .free 0 (fun _ => 0) 0 :: List.replicate 6 (.access .application)

/-- A callback for the buffer that comes after that, with its first access. -/
def late (kind : ClientEvent) : List HeapLabel :=
  freed ++ [.enter 0 kind 0, .access (.component 0)]

theorem freeBuffer_harmless_late : ∃ x,
    Lts.exec HeapPool.step (Pool.init heldHeap) (late .fillBufferDone) = some x ∧
      x.world.events (.component 0) = [.entered 0 true, .noBufferInfo 0] ∧ Harmless x.world := by
  have hidle : ∀ {x y : HeapPool} {as : List HeapLabel}, (∀ n, x.running (.component n) = none) →
      x.step (.access .application) = some y → Lts.Along HeapPool.step Timely y as →
        Lts.Along HeapPool.step Timely x (.access .application :: as) :=
    fun h hstep hrest => .cons (timely_of_idle h) hstep hrest
  have htimely : Lts.Along HeapPool.step Timely (Pool.init heldHeap) (late .fillBufferDone) := by
    refine .cons trivial rfl ?_
    iterate 6 refine hidle (fun _ => rfl) rfl ?_
    exact .cons trivial rfl (.cons trivial rfl trivial)
  exact ⟨_, rfl, rfl, freeBuffer_harmless heldHeap_wellFormed htimely rfl⟩

/-- With `emptyBufferDone` the log comes before the check and uses the info. Nor does
`fillBufferDone` stop once `freeBuffer` clears the buffer: here it looks up the erased port. -/
theorem freeBuffer_harms :
    (¬ ∀ s : ClientHeap, s.WellFormed → ∀ as x,
      Lts.exec HeapPool.step (Pool.init s) as = some x → Harmless x.world) ∧
    ¬ ∀ s : ClientHeap, s.WellFormed → ∀ as x, (∀ n buf, .enter n .emptyBufferDone buf ∉ as) →
      Lts.exec HeapPool.step (Pool.init s) as = some x → Harmless x.world := by
  constructor
  · intro h
    have hfine := (h heldHeap heldHeap_wellFormed (late .emptyBufferDone) _ rfl).fine 0
    have hunsound : HeapAccess.Fine (.info 0 false) := hfine _ (by decide)
    cases hunsound
  · intro h
    -- the callback has read `pAppPrivate` and the place of the buffer when `freeBuffer` starts
    have hfine := (h heldHeap heldHeap_wellFormed
      (.enter 0 .fillBufferDone 0 :: .access (.component 0) :: .access (.component 0) :: freed ++
        [.access (.component 0)]) _ (by simp [freed]) rfl).fine 0
    have herased : HeapAccess.Fine (.lookup 0 0 false) := hfine _ (by decide)
    cases herased

end DirectMedia

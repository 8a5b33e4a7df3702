import DirectMedia.Lib.Lts
import DirectMedia.Omx.Port
import Mathlib.Algebra.Order.Ring.Int
import Mathlib.Logic.Function.Basic

set_option autoImplicit false

/-! # The buffers of a client

`OmxClient` with all its ports. A buffer header lives at an address, its number in `headers`;
`port_buffers_` holds the addresses of each port's buffers, and a header names its own place there
through `pAppPrivate`. The done callbacks get an address and find the status to check by that place.

A call or callback is one step. It returns its value, the client after it and what passed between
the client and the world outside: submissions to OMX, buffers that came back and notifications of
the player. `none` is an exception of `std::map::at` or `std::vector::at`.
-/

namespace DirectMedia

/-- `OmxClient::BufferInfo`. -/
structure BufferInfo where
  status : BufferStatus
  portIndex : Int
  bufferIndex : Int
  deriving DecidableEq, Repr

/-- `OMX_BUFFERHEADERTYPE` with the `BufferInfo` behind its `pAppPrivate`. -/
structure BufferHeader extends Buffer where
  offset : Nat := 0
  portIndex : Int
  bufferIndex : Int
  deriving DecidableEq, Repr

/-- The events of buffers that `player_listener_` hears of. -/
inductive ClientEvent where
  | emptyBufferDone
  | fillBufferDone
  deriving DecidableEq, Repr

/-- What passes between the client and the world outside. -/
inductive BufferEvent where
  /-- a call of `OMX_EmptyThisBuffer` or `OMX_FillThisBuffer` -/
  | submitted (buf : Nat) (accepted : Bool)
  /-- a done callback that has freed its buffer -/
  | returned (buf : Nat)
  /-- a call of `player_listener_` -/
  | notified (event : ClientEvent) (data1 data2 : Int)
  deriving DecidableEq, Repr

/-- `OmxClient`, as far as buffers are concerned. `running` says that `current_state_` is
`OMX_StateExecuting` or `OMX_StatePause`. -/
structure OmxClient where
  headers : List BufferHeader := []
  portBuffers : Int → Option (List Nat) := fun _ => none
  enabledPorts : Int → Option Bool := fun _ => none
  running : Bool := false

/-- The outcome of a call. -/
abbrev Outcome := Int × OmxClient × List BufferEvent

def omxErrorUndefined : Int := 0x80001001

namespace OmxClient

/-! ## Status and lookup -/

/-- `getBufferStatus`. -/
def getBufferStatus (c : OmxClient) (buf : Nat) : Option BufferStatus :=
  c.headers[buf]?.map (·.status)

/-- Change the header at an address. -/
def onHeader (c : OmxClient) (buf : Nat) (f : BufferHeader → BufferHeader) : OmxClient :=
  { c with headers := c.headers.modify buf f }

/-- `setBufferStatus`. -/
def setBufferStatus (c : OmxClient) (buf : Nat) (status : BufferStatus) : OmxClient :=
  c.onHeader buf fun h => { h with status := status }

/-- `getBuffer`; a negative index is too large as a `size_t`. -/
def getBuffer (c : OmxClient) (port index : Int) : Option Nat := do
  let bufs ← c.portBuffers port
  if index < 0 then none else bufs[index.toNat]?

/-- `isFreeBufferIndex`, which goes through the same lookup with `at`. -/
def isFreeBufferIndex (c : OmxClient) (port index : Int) : Option Bool := do
  let buf ← c.getBuffer port index
  let status ← c.getBufferStatus buf
  return decide (status = .ownedByClient)

/-- The buffer at an address has the status. -/
def hasStatus (c : OmxClient) (status : BufferStatus) (buf : Nat) : Bool :=
  decide (c.getBufferStatus buf = some status)

/-- `getFreeBufferIndex`. -/
def getFreeBufferIndex (c : OmxClient) (port : Int) : Option Int :=
  (c.portBuffers port).map fun bufs =>
    match bufs.findIdx? (c.hasStatus .ownedByClient) with
    | some index => index
    | none => -1

/-- `getFreeBufferCount`: 0 for a port without buffers. -/
def getFreeBufferCount (c : OmxClient) (port : Int) : Nat :=
  (c.portBuffers port).elim 0 (·.countP (c.hasStatus .ownedByClient))

/-- `getUsedBufferCount`. -/
def getUsedBufferCount (c : OmxClient) (port : Int) : Option Nat :=
  (c.portBuffers port).map (·.countP (c.hasStatus .ownedByComponent))

/-! ## Set-up -/

/-- The header of a new buffer. -/
def newHeader (port : Int) (index allocLen : Nat) : BufferHeader :=
  { allocLen := allocLen, portIndex := port, bufferIndex := index }

/-- Headers come into being, and are the buffers of the port from now on. -/
def setUp (c : OmxClient) (port : Int) (headers : List BufferHeader) : OmxClient :=
  { c with
    headers := c.headers ++ headers
    portBuffers := Function.update c.portBuffers port
      (some (List.range' c.headers.length headers.length)) }

/-- `allocateBuffer`, with what `enablePort` returns and the lengths that OMX allocates. -/
def allocateBuffer (c : OmxClient) (port : Int) (allocLens : List Nat) (enable : Int) : Outcome :=
  if enable ≠ 0 then (-1, c, [])
  else (0, c.setUp port (allocLens.mapIdx (newHeader port)), [])

/-- The loop of `useBuffer`: the value of `err` at its end and the headers made, with what
`OMX_UseBuffer` returns for each index. -/
def useHeaders (port : Int) (use : Nat → Int) : Nat → List BufferHeader → Int × List BufferHeader
  | _, [] => (0, [])
  | index, owner :: owners =>
      if use index ≠ 0 then (use index, [])
      else
        let r := useHeaders port use (index + 1) owners
        (r.1, newHeader port index owner.allocLen :: r.2)

/-- `useBuffer`, with the buffers that its owner has on the port, if any. -/
def useBuffer (c : OmxClient) (port : Int) (owners : Option (List BufferHeader)) (enable : Int)
    (use : Nat → Int) : Outcome :=
  match owners with
  | none => (-1, c, [])
  | some owners =>
      if enable ≠ 0 then (-1, c, [])
      else
        let r := useHeaders port use 0 owners
        -- after a failure the headers made so far are on no port
        if r.1 ≠ 0 then (r.1, { c with headers := c.headers ++ r.2 }, [])
        else (0, c.setUp port r.2, [])

/-! ## Submissions -/

/-- What `emptyBuffer` and `fillBuffer` share: the buffer goes to the component, and comes back at
once if OMX refuses it (`ret` is not `OMX_ErrorNone`). `prepare` writes to the header before. -/
def submitBuffer (c : OmxClient) (port index : Int) (prepare : BufferHeader → BufferHeader)
    (ret : Int) : Option Outcome :=
  match c.getBuffer port index with
  | none => some (-1, c, [])
  | some buf =>
      (c.isFreeBufferIndex port index).map fun free =>
        if free then
          -- the status changes before OMX is asked
          let c := (c.onHeader buf prepare).setBufferStatus buf .ownedByComponent
          if ret ≠ 0 then (ret, c.setBufferStatus buf .ownedByClient, [.submitted buf false])
          else (ret, c, [.submitted buf true])
        else (-1, c, [])

/-- `emptyBuffer`. -/
def emptyBuffer (c : OmxClient) (port index ret : Int) : Option Outcome :=
  c.submitBuffer port index id ret

/-- `fillBuffer`. -/
def fillBuffer (c : OmxClient) (port index ret : Int) : Option Outcome :=
  c.submitBuffer port index (fun h => { h with flags := 0, filledLen := 0, timeStamp := 0 }) ret

/-- The header written, `emptyBuffer`, and the length returned if OMX accepts the buffer. -/
def writeAndEmpty (c : OmxClient) (port index : Int) (buf : Nat)
    (write : BufferHeader → BufferHeader) (ret : Int) : Option Outcome :=
  let c := c.onHeader buf write
  (c.emptyBuffer port index ret).map fun r =>
    (if r.1 = 0 then c.headers[buf]?.elim 0 (·.filledLen) else 0, r.2)

/-- A write into the first free buffer. -/
def writeFree (c : OmxClient) (port : Int) (write : BufferHeader → BufferHeader) (ret : Int) :
    Option Outcome := do
  let index ← c.getFreeBufferIndex port
  if index < 0 then return (-1, c, [])
  else
    match c.getBuffer port index with
    | none => return (-1, c, [])
    | some buf => c.writeAndEmpty port index buf write ret

/-- `writeToFreeBuffer`. -/
def writeToFreeBuffer (c : OmxClient) (port : Int) (data : List UInt8) (pts : Int)
    (flags : BitVec 32) (ret : Int) : Option Outcome :=
  c.writeFree port
    (fun h => { h with toBuffer := Port.fill h.toBuffer data pts flags, offset := 0 }) ret

/-- `writeToConfigBuffer`. -/
def writeToConfigBuffer (c : OmxClient) (port : Int) (data : List UInt8) (ret : Int) :
    Option Outcome :=
  c.writeFree port
    (fun h =>
      { h with
        offset := 0
        filledLen := data.length
        bytes := data
        flags := bufferFlagCodecConfig ||| bufferFlagEndOfFrame }) ret

/-- `writeToFreeBuffer` for buffers in use, with the owner's buffer of the same index, if any. The
header is written even while the component holds it. -/
def writeOwnersBuffer (c : OmxClient) (port index : Int) (owner : Option BufferHeader) (ret : Int) :
    Option Outcome :=
  match c.getBuffer port index, owner with
  | some buf, some owner =>
      c.writeAndEmpty port index buf
        (fun h =>
          { h with
            offset := 0
            filledLen := owner.filledLen
            timeStamp := owner.timeStamp
            flags := owner.flags }) ret
  | _, _ => some (-1, c, [])

/-! ## Done callbacks -/

/-- The notification of a done callback, if the port is enabled and the client is running. -/
def notify (c : OmxClient) (enabled : Bool) (event : ClientEvent) (data1 data2 : Int) :
    List BufferEvent :=
  if enabled && c.running then [.notified event data1 data2] else []

/-- A done callback for the buffer at an address, with the events it shows when it is not
spurious. -/
def bufferDone (c : OmxClient) (buf : Nat) (events : BufferHeader → Bool → List BufferEvent) :
    Option Outcome := do
  let h ← c.headers[buf]?
  let free ← c.isFreeBufferIndex h.portIndex h.bufferIndex
  -- the buffer has come back before
  if free then return (omxErrorUndefined, c, [])
  else
    let enabled ← c.enabledPorts h.portIndex
    return (0, c.setBufferStatus buf .ownedByClient, events h enabled)

/-- `emptyBufferDone` notifies before it frees the buffer. -/
def emptyBufferDone (c : OmxClient) (buf : Nat) : Option Outcome :=
  c.bufferDone buf fun h enabled =>
    c.notify enabled .emptyBufferDone h.portIndex (h.timeStamp % 2 ^ 32) ++ [.returned buf]

/-- `fillBufferDone` frees the buffer first. -/
def fillBufferDone (c : OmxClient) (buf : Nat) : Option Outcome :=
  c.bufferDone buf fun h enabled =>
    .returned buf :: c.notify enabled .fillBufferDone h.portIndex h.bufferIndex

end OmxClient

/-! ## Runs -/

/-- The labels of the steps, with the answers of OMX. -/
inductive BufferAct where
  | allocateBuffer (port : Int) (allocLens : List Nat) (enable : Int)
  | useBuffer (port : Int) (owners : Option (List BufferHeader)) (enable : Int) (use : Nat → Int)
  | writeToFreeBuffer (port : Int) (data : List UInt8) (pts : Int) (flags : BitVec 32) (ret : Int)
  | writeOwnersBuffer (port index : Int) (owner : Option BufferHeader) (ret : Int)
  | writeToConfigBuffer (port : Int) (data : List UInt8) (ret : Int)
  | emptyBuffer (port index ret : Int)
  | fillBuffer (port index ret : Int)
  | emptyBufferDone (buf : Nat)
  | fillBufferDone (buf : Nat)
  /-- any change of `enabled_port_map_` and `current_state_` -/
  | portsChanged (enabledPorts : Int → Option Bool) (running : Bool)

/-- The outcome of a step. -/
def BufferAct.outcome (c : OmxClient) : BufferAct → Option Outcome
  | .allocateBuffer port allocLens enable => some (c.allocateBuffer port allocLens enable)
  | .useBuffer port owners enable use => some (c.useBuffer port owners enable use)
  | .writeToFreeBuffer port data pts flags ret => c.writeToFreeBuffer port data pts flags ret
  | .writeOwnersBuffer port index owner ret => c.writeOwnersBuffer port index owner ret
  | .writeToConfigBuffer port data ret => c.writeToConfigBuffer port data ret
  | .emptyBuffer port index ret => c.emptyBuffer port index ret
  | .fillBuffer port index ret => c.fillBuffer port index ret
  | .emptyBufferDone buf => c.emptyBufferDone buf
  | .fillBufferDone buf => c.fillBufferDone buf
  | .portsChanged enabledPorts running =>
      some (0, { c with enabledPorts := enabledPorts, running := running }, [])

/-- A client, and what has passed between it and the world outside so far. -/
structure BufferSession where
  client : OmxClient := {}
  log : List BufferEvent := []

/-- One step. -/
def BufferSession.step (x : BufferSession) (a : BufferAct) : Option BufferSession :=
  (a.outcome x.client).map fun r => { client := r.2.1, log := x.log ++ r.2.2 }

end DirectMedia

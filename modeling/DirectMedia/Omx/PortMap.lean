import DirectMedia.Lib.Mirror
import DirectMedia.Lib.Pool
import DirectMedia.Omx.Waits

set_option autoImplicit false

/-! # The port map of a client

A port is enabled and disabled by a command to the component, which carries it out later and sends
an event; `eventHandler` then writes the port map. `create` puts the ports into the map, as
disabled, and sends each a command to disable it. So the map is a copy of the ports' own states
that lags behind, and one that need not agree with them at first: a port is enabled by default, and
the command that `create` sends may be refused.

The state is that of the clients of a process and of their components. Threads call the clients;
a component carries out the commands of one port in their order.
-/

namespace DirectMedia

open Prog

/-- The port numbers that a `Component` notes. -/
structure PortIndices where
  input : Int := -1
  clockInput : Int := -1
  output : Int := -1
  deriving DecidableEq, Repr

/-- The clients, numbered, and the ports of their components with the commands and events under
way. -/
structure OmxPorts where
  client : Nat → OmxClient := fun _ => {}
  indices : Nat → PortIndices := fun _ => {}
  link : Nat → Int → Mirror.Link Bool

/-- A command that a component has accepted. -/
inductive PortEvent where
  | accepted (n : Nat) (port : Int) (enable : Bool)
  deriving DecidableEq, Repr

namespace OmxPorts

/-- Change a client. -/
def onClient (w : OmxPorts) (n : Nat) (f : OmxClient → OmxClient) : OmxPorts :=
  { w with client := Function.update w.client n (f (w.client n)) }

/-- Change the noted port numbers. -/
def onIndices (w : OmxPorts) (n : Nat) (f : PortIndices → PortIndices) : OmxPorts :=
  { w with indices := Function.update w.indices n (f (w.indices n)) }

/-- Change a port of a component. -/
def setLink (w : OmxPorts) (n : Nat) (port : Int) (l : Mirror.Link Bool) : OmxPorts :=
  { w with link := Function.update w.link n (Function.update (w.link n) port l) }

/-- `getPortMapState`; `none` is the exception of `at`. -/
def portMap (w : OmxPorts) (n : Nat) (port : Int) : Option Bool := (w.client n).enabledPorts port

end OmxPorts

/-- `insertPortMap`: a port that is in the map keeps its state. -/
def OmxClient.insertPortMap (c : OmxClient) (port : Int) : OmxClient :=
  match c.enabledPorts port with
  | some _ => c
  | none => { c with enabledPorts := Function.update c.enabledPorts port (some false) }

/-- A program of a client. -/
abbrev PortProg (α : Type) := Prog OmxPorts PortEvent α

/-! ## The calls -/

/-- `sendCommand` with a command to enable or disable a port, which the component answers. -/
def sendCommand (n : Nat) (enable : Bool) (port : Int) (answer : Int) : PortProg Int :=
  act (fun w =>
    if answer = 0 then
      (some (.accepted n port enable), w.setLink n port ((w.link n port).send enable))
    else (none, w)) fun _ => ret answer

/-- `ETIMEDOUT`. -/
def etimedout : Int := 110

/-- The loop of `waitForPortEnable`, which is woken `wakes` times before it times out. -/
def waitLoop (n : Nat) (port : Int) (enable : Bool) : Nat → PortProg (Option Int)
  | 0 => return some etimedout
  | wakes + 1 => do
      let state ← read (·.portMap n port)
      match state with
      | none => return none
      | some on => if enable = on then return some 0 else waitLoop n port enable wakes

/-- `waitForPortEnable`; `none` is the exception of `getPortMapState`. -/
def waitForPortEnable (n : Nat) (port : Int) (enable : Bool) (wakes : Nat) :
    PortProg (Option Int) := do
  let state ← read (·.portMap n port)
  match state with
  | none => return none
  | some on => if enable = on then return some 0 else waitLoop n port enable wakes

/-- `OmxClient::enablePort`. -/
def enablePort (n : Nat) (port : Int) (enable : Bool) (timeout answer : Int) (wakes : Nat) :
    PortProg (Option Int) := do
  let ret ← sendCommand n enable port answer
  if ret = 0 ∧ timeout ≠ 0 then waitForPortEnable n port enable wakes else return some ret

/-- `OmxClient::setupTunnel`: what `OMX_SetupTunnel` answers is overwritten. -/
def setupTunnel (n : Nat) (source : Int) (m : Nat) (destination : Int)
    (_tunnel enableSource enableDestination : Int) : PortProg (Option Int) := do
  let ret ← sendCommand n true source enableSource
  if ret ≠ 0 then return some ret
  else
    let ret ← sendCommand m true destination enableDestination
    return some ret

/-! ## Creation -/

/-- What `create` is told of a port: the result of `getParam`, whether the port is enabled, and the
answer to the command that disables it. -/
structure PortAnswers where
  getParam : Int := 0
  enabled : Bool := true
  disable : Int := 0
  deriving DecidableEq, Repr

/-- The port is left out: `getParam` has failed and left it as not enabled. -/
def PortAnswers.skipped (a : PortAnswers) : Bool := decide (a.getParam ≠ 0) && !a.enabled

/-- What `create` is told: the ports of the component, none if they cannot be asked for, what it
learns of each, and, for the audio renderer, the results of the two calls of `getParam` before. -/
structure CreateAnswers where
  nPorts : Nat := 0
  nStartPortNumber : Nat := 0
  port : Nat → PortAnswers := fun _ => {}
  rendererInput : Int := 0
  rendererOutput : Int := 0

/-- `(int)(start + i)`, for a sum in `uint32_t`. -/
def portNumber (start i : Nat) : Int := Int.bmod ((start : Int) + i) (2 ^ 32)

/-- The loop over the ports in `create`, for those in the list. -/
def disablePorts (n : Nat) (a : CreateAnswers) : List Nat → PortProg Unit
  | [] => return ()
  | i :: rest => do
      onlyIf ((a.port i).skipped = false) do
        write fun w => w.onClient n (·.insertPortMap (portNumber a.nStartPortNumber i))
        let _ ← sendCommand n false (portNumber a.nStartPortNumber i) (a.port i).disable
        return ()
      disablePorts n a rest

/-- The output port: the one after the input port, but no port past the last one. -/
def outputPort (start nPorts : Nat) : Int :=
  if portNumber start 0 + 1 > Int.bmod ((start : Int) + nPorts - 1) (2 ^ 32) then
    Int.bmod ((start : Int) + nPorts - 1) (2 ^ 32)
  else portNumber start 0 + 1

/-- The end of `create`: the loop over `nPorts` ports, and the port numbers. -/
def createPorts (n : Nat) (a : CreateAnswers) (nPorts : Nat) : PortProg Unit := do
  disablePorts n a (List.range nPorts)
  write fun w => w.onIndices n fun p =>
    { p with
      input := portNumber a.nStartPortNumber 0
      output := outputPort a.nStartPortNumber nPorts }

/-- `Component::COMPONENT`. -/
inductive OmxComponent where
  | clock
  | videoRenderer
  | audioRenderer
  | videoScheduler
  | audioMixer
  deriving DecidableEq, Repr

/-- `Component::create(COMPONENT)`. -/
def createComponent (n : Nat) (component : OmxComponent) (a : CreateAnswers) : PortProg Int :=
  match component with
  | .clock | .videoRenderer => do
      createPorts n a a.nPorts
      return resultSuccess
  | .videoScheduler => do
      write fun w => w.onIndices n fun p => { p with clockInput := 12 }
      createPorts n a ((a.nPorts + 1) % 2 ^ 32)
      return resultSuccess
  | .audioMixer => do
      createPorts n a a.nPorts
      write fun w => w.onIndices n fun _ => { input := 232, clockInput := 230, output := 231 }
      return resultSuccess
  | .audioRenderer => do
      -- a failure leaves the `switch`
      let known := a.rendererInput = 0 ∧ a.rendererOutput = 0
      onlyIf known <| write fun w => w.onIndices n fun _ =>
        { input := 100, clockInput := 101, output := -1 }
      disablePorts n a (List.range (if known then (a.nPorts + 1) % 2 ^ 32 else a.nPorts))
      write fun w => w.onIndices n fun p => { p with input := portNumber a.nStartPortNumber 0 }
      return resultSuccess

/-- `Component::create(NDL_ESP_VIDEO_CODEC)`: for `NDL_ESP_VIDEO_CODEC_H265` no component is
created, and the loop has no ports. -/
def createVideoCodec (n : Nat) (codec : VideoCodec) (a : CreateAnswers) : PortProg Int :=
  match codec with
  | .h262 | .h264 => do
      createPorts n a a.nPorts
      return resultSuccess
  | .h265 => do
      createPorts n {} 0
      return resultSuccess
  | _ => return resultSuccess

/-- `Component::create(NDL_ESP_AUDIO_CODEC)`. -/
def createAudioCodec (n : Nat) (codec : AudioCodec) (a : CreateAnswers) : PortProg Int :=
  match codec with
  | .none => return resultFail
  | _ => do
      createPorts n a a.nPorts
      return resultSuccess

/-! ## The system -/

/-- A call of a client, with its answers. -/
inductive PortCall where
  | createComponent (n : Nat) (component : OmxComponent) (a : CreateAnswers)
  | createVideoCodec (n : Nat) (codec : VideoCodec) (a : CreateAnswers)
  | createAudioCodec (n : Nat) (codec : AudioCodec) (a : CreateAnswers)
  | enablePort (n : Nat) (port : Int) (enable : Bool) (timeout answer : Int) (wakes : Nat)
  | waitForPortEnable (n : Nat) (port : Int) (enable : Bool) (wakes : Nat)
  | setupTunnel (n : Nat) (source : Int) (m : Nat) (destination : Int)
      (tunnel enableSource enableDestination : Int)

/-- The program of a call. -/
def PortCall.prog : PortCall → PortProg (Option Int)
  | .createComponent n component a => do
      let result ← DirectMedia.createComponent n component a
      return some result
  | .createVideoCodec n codec a => do
      let result ← DirectMedia.createVideoCodec n codec a
      return some result
  | .createAudioCodec n codec a => do
      let result ← DirectMedia.createAudioCodec n codec a
      return some result
  | .enablePort n port enable timeout answer wakes =>
      DirectMedia.enablePort n port enable timeout answer wakes
  | .waitForPortEnable n port enable wakes => DirectMedia.waitForPortEnable n port enable wakes
  | .setupTunnel n source m destination tunnel enableSource enableDestination =>
      DirectMedia.setupTunnel n source m destination tunnel enableSource enableDestination

/-- Threads that call the clients. -/
abbrev PortSystem := Pool Nat OmxPorts PortEvent (Option Int)

inductive PortAct where
  | call (t : Nat) (c : PortCall)
  | thread (t : Nat)
  | returned (t : Nat) (result : Option Int)
  /-- the component carries out the oldest command for a port -/
  | complete (n : Nat) (port : Int)
  /-- `eventHandler`, for the oldest event of a port -/
  | event (n : Nat) (port : Int)

namespace PortSystem

/-- Change the clients and their components, showing nothing. -/
def setState (x : PortSystem) (w : OmxPorts) : PortSystem :=
  { x with world := { x.world with state := w } }

def step (x : PortSystem) : PortAct → Option PortSystem
  | .call t c => x.start t c.prog
  | .thread t => Pool.step x t
  | .returned t result => (x.finish t).bind fun r => if r.1 = result then some r.2 else none
  | .complete n port =>
      (x.world.state.link n port).carryOut.map fun l => x.setState (x.world.state.setLink n port l)
  | .event n port =>
      (x.world.state.link n port).takeReport.map fun r =>
        x.setState ((x.world.state.setLink n port r.2).onClient n (·.setPortMapState port r.1))

end PortSystem

end DirectMedia

import DirectMedia.Feed.Operations
import DirectMedia.Lib.Pool

set_option autoImplicit false

/-! # The threads that feed the codecs

The player, the threads of its two renderer loopers and any number of client threads that call
`feedData` and `flush`. A thread takes one action of its program at a time, in any order with the
others. A renderer looper is the looper of `Message.Looper`; while it is handling a message its
thread runs the program of the handler.

The value a handler returns is part of the label that starts it, as in the looper: the label
`handled` is possible only once the program has returned this value. Between two labels the codecs
may return buffers.
-/

namespace DirectMedia

open Prog

/-- The threads: the one of the renderer looper of each stream, and those of the client. -/
inductive Thread where
  | renderer (i : StreamType)
  | client (n : Nat)
  deriving DecidableEq, Repr

/-- A call by a client thread. -/
inductive ClientCall where
  | feedData (buff : Option StreamBuffer)
  | flush (env : Env)

/-- The program of a call. -/
def ClientCall.prog : ClientCall → Op Int
  | .feedData buff => DirectMedia.feedData buff
  | .flush env => DirectMedia.flush env

/-- The player with its threads. -/
abbrev FeedSystem := Pool Thread Esplayer Event Int

/-- The labels of the steps. -/
inductive FeedAct where
  | call (n : Nat) (c : ClientCall)
  | returned (n : Nat)
  | step (t : Thread)
  | look (i : StreamType) (v : Int) (env : FeedEnv)
  | handled (i : StreamType)
  | looper (i : StreamType) (a : LooperAct)
  | emptyBufferDone (i : StreamType) (index : Nat)

/-- The steps of a looper, apart from those of a handler, that change nothing but the looper. -/
def LooperAct.own : LooperAct → Bool
  | .tick _ | .wake | .popFront | .resume => true
  | _ => false

namespace FeedSystem

/-- The renderer looper of a stream. -/
def looper (x : FeedSystem) (i : StreamType) : Looper := x.world.state.renderer i

/-- Change the player, showing nothing. -/
def setState (x : FeedSystem) (s : Esplayer) : FeedSystem :=
  { x with world := { x.world with state := s } }

/-- Change the renderer looper of a stream. -/
def setLooper (x : FeedSystem) (i : StreamType) (l : Looper) : FeedSystem :=
  x.setState (x.world.state.onRenderer i fun _ => l)

/-- One step of the system. -/
def step (x : FeedSystem) : FeedAct → Option FeedSystem
  | .call n c => x.start (.client n) c.prog
  | .returned n => (x.finish (.client n)).map (·.2)
  | .step t => Pool.step x t
  | .look i v env =>
      ((x.looper i).step (.look v)).bind fun l =>
        if l.pc.inFlight.isSome then (x.setLooper i l).start (.renderer i) (feedMessage env i)
        else some (x.setLooper i l)
  | .handled i =>
      (x.finish (.renderer i)).bind fun r =>
        match (x.looper i).pc with
        | .handling _ v =>
            if r.1 = v then ((x.looper i).step .handled).map (setLooper r.2 i) else none
        | _ => none
  | .looper i a => if a.own then ((x.looper i).step a).map (x.setLooper i) else none
  | .emptyBufferDone i index =>
      some (x.setState (x.world.state.onComponent i.codec fun comp =>
        { comp with input := comp.input.emptyBufferDone index }))

/-! ## What a step can do -/

/-- The kinds of steps. -/
inductive Effect (x : FeedSystem) (a : FeedAct) (y : FeedSystem) : Prop
  | call (n : Nat) (c : ClientCall) (label : a = .call n c)
      (idle : x.running (.client n) = none) (eq : y = x.setRunning (.client n) (some c.prog))
  | returned (n : Nat) (v : Int) (label : a = .returned n)
      (done : x.running (.client n) = some (ret v)) (eq : y = x.setRunning (.client n) none)
  | step (t : Thread) (label : a = .step t) (taken : Pool.step x t = some y)
  | attempt (i : StreamType) (v : Int) (env : FeedEnv) (m : Message)
      (label : a = .look i v env) (top : (x.looper i).pc = .top)
      (front : ∃ q, (x.looper i).queue = some m :: q) (idle : x.running (.renderer i) = none)
      (eq : y = (x.setLooper i { x.looper i with pc := .handling m v }).setRunning (.renderer i)
        (some (feedMessage env i)))
  | handled (i : StreamType) (v : Int) (m : Message) (label : a = .handled i)
      (handling : (x.looper i).pc = .handling m v)
      (done : x.running (.renderer i) = some (ret v))
      (eq : y = setLooper (x.setRunning (.renderer i) none) i
        { x.looper i with pc := if v = resultSuccess then .popping m else .sleeping })
  | popFront (i : StreamType) (m : Message) (label : a = .looper i .popFront)
      (popping : (x.looper i).pc = .popping m)
      (eq : y = x.setLooper i { x.looper i with queue := (x.looper i).queue.tail, pc := .top })
  | wait (i : StreamType) (l : Looper) (label : (∃ b, a = .looper i b) ∨ ∃ v env, a = .look i v env)
      (queue : l.queue = (x.looper i).queue) (calls : l.calls = (x.looper i).calls)
      (pc : l.pc = (x.looper i).pc ∨ (x.looper i).pc.inFlight = none ∧ l.pc.inFlight = none)
      (eq : y = x.setLooper i l)
  | emptyBufferDone (i : StreamType) (index : Nat) (label : a = .emptyBufferDone i index)
      (eq : y = x.setState (x.world.state.onComponent i.codec fun comp =>
        { comp with input := comp.input.emptyBufferDone index }))

theorem effect_look {x y : FeedSystem} {i : StreamType} {v : Int} {env : FeedEnv}
    (h : step x (.look i v env) = some y) : Effect x (.look i v env) y := by
  simp only [step, Option.bind_eq_some_iff] at h
  obtain ⟨l, hl, h⟩ := h
  simp only [Looper.step, Option.ite_none_right_eq_some, Option.some.injEq] at hl
  obtain ⟨htop, rfl⟩ := hl
  split at h
  case isTrue hflight =>
      obtain ⟨m, hm⟩ := Option.isSome_iff_exists.mp hflight
      obtain ⟨hlook, hfront, _⟩ := Looper.look_inFlight hm
      obtain ⟨hidle, rfl⟩ := Pool.start_cases h
      refine .attempt i v env m rfl htop hfront hidle ?_
      rw [hlook]
  case isFalse hflight =>
      cases h
      refine .wait i { x.looper i with pc := (x.looper i).look v } (.inr ⟨v, env, rfl⟩) rfl rfl
        (.inr ⟨?_, ?_⟩) rfl
      · rw [htop]; rfl
      · exact Option.not_isSome_iff_eq_none.mp hflight

theorem effect_looper {x y : FeedSystem} {i : StreamType} {b : LooperAct}
    (h : step x (.looper i b) = some y) : Effect x (.looper i b) y := by
  simp only [step, Option.ite_none_right_eq_some, Option.map_eq_some_iff] at h
  obtain ⟨hown, l, hl, rfl⟩ := h
  rcases Looper.effect hl with ⟨c, hc, _, _, _⟩ | ⟨v, hb, _, _⟩ | ⟨m, v, hb, _, _⟩ |
    ⟨m, hb, hpc, rfl⟩ | ⟨_, _, _, _, hq, hcalls, hpc⟩
  case call => cases b <;> simp_all [LooperAct.own, LooperAct.queueCall]
  case look => subst hb; cases hown
  case handled => subst hb; cases hown
  case popFront => subst hb; exact .popFront i m rfl hpc rfl
  case other =>
      refine .wait i l (.inl ⟨b, rfl⟩) hq hcalls ?_ rfl
      rcases hpc with hpc | ⟨hnone, hpc⟩
      · exact .inl hpc
      · exact .inr ⟨hnone, by rw [hpc]; rfl⟩

theorem effect {x y : FeedSystem} {a : FeedAct} (h : step x a = some y) : Effect x a y := by
  cases a with
  | call n c =>
      obtain ⟨hidle, rfl⟩ := Pool.start_cases h
      exact .call n c rfl hidle rfl
  | returned n =>
      simp only [step, Option.map_eq_some_iff] at h
      obtain ⟨⟨v, z⟩, hz, rfl⟩ := h
      obtain ⟨hdone, hz⟩ := Pool.finish_cases hz
      exact .returned n v rfl hdone hz
  | step t => exact .step t rfl h
  | look i v env => exact effect_look h
  | handled i =>
      simp only [step, Option.bind_eq_some_iff] at h
      obtain ⟨⟨v, z⟩, hz, h⟩ := h
      obtain ⟨hdone, rfl⟩ := Pool.finish_cases hz
      split at h
      case h_1 m v' hpc =>
          simp only [Looper.step, hpc, Option.map_some, Option.ite_none_right_eq_some,
            Option.some.injEq] at h
          obtain ⟨rfl, rfl⟩ := h
          exact .handled i v m rfl hpc hdone rfl
      case h_2 => cases h
  | looper i b => exact effect_looper h
  | emptyBufferDone i index =>
      cases h
      exact .emptyBufferDone i index rfl rfl

end FeedSystem

/-- A player that plays, with both codecs and `n` free buffers of two bytes each. -/
def feedingPlayer (n : Nat) : Esplayer where
  status := .playing
  loaded := true
  enableAudio := true
  enableVideo := true
  component := fun c =>
    if c = .videoCodec ∨ c = .audioCodec then
      some
        { state := .executing, inputBufferSize := 2, input := List.replicate n { allocLen := 2 } }
    else none

/-- A video frame of one byte. -/
def oneByte (b : UInt8) : StreamBuffer := { data := [b], streamType := .videoEs }

end DirectMedia

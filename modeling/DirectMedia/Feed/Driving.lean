import DirectMedia.Feed.Actions
import DirectMedia.Feed.System
import DirectMedia.Omx.FreeBuffers

set_option autoImplicit false

/-! # Threads that feed, play and pause

The player with client threads that call `feedData`, `play` and `pause`, and the thread of each
stream, which feeds its codec. Between a load or a flush and the next one these calls leave the
sizes of the buffers, the decoder and the order of the queues alone (`KeepsShape`).
-/

namespace DirectMedia

open Prog

/-! ## The threads -/

/-- A call by a client thread. -/
inductive DrivingCall where
  | feedData (buff : Option StreamBuffer)
  | play (env : Env)
  | pause (env : Env)

/-- The program of a call. -/
def DrivingCall.prog : DrivingCall → Op Int
  | .feedData buff => DirectMedia.feedData buff
  | .play env => DirectMedia.play env
  | .pause env => DirectMedia.pause env

/-- The labels of the steps. The loopers are left out: the thread of a stream may start its handler
whenever it is idle. -/
inductive DrivingAct where
  | call (n : Nat) (c : DrivingCall)
  | returned (n : Nat)
  | attempt (i : StreamType) (env : FeedEnv)
  | handled (i : StreamType)
  | step (t : Thread)
  | emptyBufferDone (i : StreamType) (index : Nat)

/-- One step of the player with these threads. -/
def FeedSystem.drive (x : FeedSystem) : DrivingAct → Option FeedSystem
  | .call n c => x.start (.client n) c.prog
  | .returned n => (x.finish (.client n)).map (·.2)
  | .attempt i env => x.start (.renderer i) (feedMessage env i)
  | .handled i => (x.finish (.renderer i)).map (·.2)
  | .step t => Pool.step x t
  | .emptyBufferDone i index =>
      some (x.setState (x.world.state.onComponent i.codec fun comp =>
        { comp with input := comp.input.emptyBufferDone index }))

/-- The frames are in the queues of their streams. -/
def Esplayer.Sorted (s : Esplayer) : Prop := ∀ i, ∀ f ∈ s.frames i, f.streamType = i

/-! ## What every step leaves alone -/

/-- The sizes of the buffers, the decoder and the order of the queues are kept. -/
structure SameShape (i : StreamType) (s t : Esplayer) : Prop where
  frames : (∀ f ∈ s.frames i, f.streamType = i) → ∀ f ∈ t.frames i, f.streamType = i
  size : (t.component i.codec).elim 0 (·.inputBufferSize) =
    (s.component i.codec).elim 0 (·.inputBufferSize)
  room : (t.input i.codec).map (·.allocLen) = (s.input i.codec).map (·.allocLen)
  swDecoder : t.swDecoder = s.swDecoder

/-- An action that keeps them for each stream. -/
def KeepsShape (a : Action) : Prop := ∀ s i, SameShape i s (a s).2

theorem sameShape_refl (i : StreamType) (s : Esplayer) : SameShape i s s := ⟨id, rfl, rfl, rfl⟩

theorem SameShape.trans {i : StreamType} {s t u : Esplayer} (h : SameShape i s t)
    (h' : SameShape i t u) : SameShape i s u :=
  ⟨h'.frames ∘ h.frames, h'.size.trans h.size, h'.room.trans h.room,
    h'.swDecoder.trans h.swDecoder⟩

theorem SameShape.room_pos {i : StreamType} {s t : Esplayer} (h : SameShape i s t)
    (hroom : ∀ b ∈ s.input i.codec, 0 < b.allocLen) : ∀ b ∈ t.input i.codec, 0 < b.allocLen := by
  intro b hb
  have hmem : b.allocLen ∈ (t.input i.codec).map (·.allocLen) := List.mem_map_of_mem hb
  rw [h.room] at hmem
  obtain ⟨c, hc, heq⟩ := List.mem_map.mp hmem
  exact heq ▸ hroom c hc

/-- Components, decoder and queues as before. -/
theorem sameShape_of_eq {i : StreamType} {s t : Esplayer} (hc : t.component = s.component)
    (hd : t.swDecoder = s.swDecoder) (hf : t.frames = s.frames) : SameShape i s t where
  frames h := by rwa [hf]
  size := by rw [hc]
  room := by rw [Esplayer.input, Esplayer.input, hc]
  swDecoder := hd

/-- A change of one component that keeps the sizes. -/
theorem sameShape_onComponent (i : StreamType) (s : Esplayer) (c : ComponentName)
    {g : Component → Component} (hsize : ∀ comp, (g comp).inputBufferSize = comp.inputBufferSize)
    (hroom : ∀ comp, s.component c = some comp →
      (g comp).input.map (·.allocLen) = comp.input.map (·.allocLen)) :
    SameShape i s (s.onComponent c g) where
  frames := id
  size := onComponent_size s c i.codec hsize
  room := by
    by_cases h : i.codec = c
    · subst h
      cases hcomp : s.component i.codec with
      | none => simp [Esplayer.input, Esplayer.onComponent, hcomp]
      | some comp => simpa [Esplayer.input, Esplayer.onComponent, hcomp] using hroom comp hcomp
    · rw [input_onComponent_ne h]
  swDecoder := rfl

/-- An action that leaves components, decoder and queues alone. -/
theorem keepsShape_of_eq {a : Action} (hc : ∀ s, (a s).2.component = s.component)
    (hd : ∀ s, (a s).2.swDecoder = s.swDecoder) (hf : ∀ s, (a s).2.frames = s.frames) :
    KeepsShape a :=
  fun s _ => sameShape_of_eq (hc s) (hd s) (hf s)

theorem keepsShape_silent {g : Esplayer → Esplayer} (hc : ∀ s, (g s).component = s.component)
    (hd : ∀ s, (g s).swDecoder = s.swDecoder) (hf : ∀ s, (g s).frames = s.frames) :
    KeepsShape fun s => (none, g s) :=
  keepsShape_of_eq hc hd hf

theorem keepsShape_write (c : ComponentName) (f : Frame) (data : List UInt8) (pts : Int)
    (flags : BitVec 32) (accept : Int) : KeepsShape (writeAction c f data pts flags accept) := by
  refine fun s i => sameShape_onComponent i s c (fun _ => rfl) fun comp hcomp => ?_
  have hinput : s.input c = comp.input := by rw [Esplayer.input, hcomp]; rfl
  dsimp only
  rw [hinput]
  exact comp.input.writeToFreeBuffer_sizes data pts flags accept

theorem keepsShape_queue {e : Esplayer → Option Event} (i : StreamType)
    {g : List Frame → List Frame} (hg : ∀ l, ∀ f ∈ g l, f ∈ l) :
    KeepsShape fun s =>
      (e s, { s with frames := Function.update s.frames i (g (s.frames i)) }) := by
  refine fun s j => ⟨fun h f hf => ?_, rfl, rfl, rfl⟩
  by_cases hj : j = i
  · subst hj
    exact h f (hg _ f (by simpa using hf))
  · exact h f (by simpa [hj] using hf)

theorem keepsShape_push (b : StreamBuffer) : KeepsShape (pushAction b) := by
  refine fun s i => ⟨fun h f hf => ?_, rfl, rfl, rfl⟩
  by_cases hi : i = b.streamType
  · subst hi
    simp only [pushAction, Function.update_self, List.mem_append, List.mem_singleton] at hf
    rcases hf with hf | rfl
    · exact h f hf
    · rfl
  · exact h f (by simpa [pushAction, hi] using hf)

/-- A call that changes one component, if it succeeds, and not the sizes. -/
theorem keepsShape_performAction (env : Env) {call : Call} (c : ComponentName)
    {g : Component → Component} (heffect : ∀ s, call.effect s = s.onComponent c g)
    (hfailure : ∀ s, call.failure s = s)
    (hsize : ∀ comp, (g comp).inputBufferSize = comp.inputBufferSize)
    (hroom : ∀ comp, (g comp).input.map (·.allocLen) = comp.input.map (·.allocLen)) :
    KeepsShape (performAction env call) := by
  intro s i
  unfold performAction
  dsimp only
  split
  · rw [heffect]
    exact sameShape_onComponent i s c hsize fun comp _ => hroom comp
  · rw [hfailure]
    exact sameShape_refl i s

theorem ofDriving_keepsShape : OfDriving KeepsShape where
  read := keepsShape_silent (fun _ => rfl) (fun _ => rfl) fun _ => rfl
  admitted _ := keepsShape_of_eq (fun _ => rfl) (fun _ => rfl) fun _ => rfl
  loadedRead := keepsShape_of_eq (fun _ => rfl) (fun _ => rfl) fun _ => rfl
  setState env c _ := keepsShape_performAction env c (fun _ => rfl) (fun _ => rfl) (fun _ => rfl)
    fun _ => rfl
  config env c data := keepsShape_performAction env c (fun _ => rfl) (fun _ => rfl) (fun _ => rfl)
    fun comp => comp.input.writeToConfigBuffer_sizes data 0
  rate env rate := by
    intro s i
    unfold performAction
    dsimp only
    split
    · exact sameShape_of_eq rfl rfl rfl
    · exact sameShape_refl i s
  runRenderer _ _ := keepsShape_silent (fun _ => rfl) (fun _ => rfl) fun _ => rfl
  runMessages _ _ := keepsShape_silent (fun _ => rfl) (fun _ => rfl) fun _ => rfl

theorem does_drivingCall (c : DrivingCall) : c.prog.Does KeepsShape := by
  have htransit : ∀ status, KeepsShape fun s =>
      (some (.transit s.status status), { s with status := status }) :=
    fun _ => keepsShape_of_eq (fun _ => rfl) (fun _ => rfl) fun _ => rfl
  cases c with
  | feedData buff =>
      exact does_feedData ofDriving_keepsShape.read ofDriving_keepsShape.loadedRead fun b _ =>
        ⟨keepsShape_push b, keepsShape_of_eq (fun _ => rfl) (fun _ => rfl) fun _ => rfl⟩
  | play env =>
      refine ofDriving_keepsShape.play htransit ?_ ?_ env
      · exact keepsShape_silent (fun _ => rfl) (fun _ => rfl) fun _ => rfl
      · exact keepsShape_silent (fun _ => rfl) (fun _ => rfl) fun _ => rfl
  | pause env => exact ofDriving_keepsShape.pause htransit env

theorem ofFeed_keepsShape (i : StreamType) : OfFeed i KeepsShape where
  read := ofDriving_keepsShape.read
  use := keepsShape_of_eq (fun _ => rfl) (fun _ => rfl) fun _ => rfl
  get := keepsShape_of_eq (fun _ => rfl) (fun _ => rfl) fun _ => rfl
  pop := keepsShape_queue i fun _ _ => List.mem_of_mem_tail
  adjust _ := keepsShape_of_eq (fun _ => rfl) (fun _ => rfl) fun _ => rfl
  write := keepsShape_write i.codec
  cleared := keepsShape_queue i (g := fun _ => []) fun _ _ h => by cases h
  fed _ := keepsShape_of_eq (fun _ => rfl) (fun _ => rfl) fun _ => rfl

theorem does_feedMessage (env : FeedEnv) (i : StreamType) :
    (feedMessage env i).Does KeepsShape := by
  refine (ofFeed_keepsShape i).feedMessage env fun f pts flags => does_setOmxFlags (fun _ => ?_)
    (fun _ => ?_) fun _ => ?_
  · exact keepsShape_of_eq (fun _ => rfl) (fun _ => rfl) fun _ => rfl
  · exact keepsShape_of_eq (fun _ => rfl) (fun _ => rfl) fun _ => rfl
  · exact keepsShape_of_eq (fun _ => rfl) (fun _ => rfl) fun _ => rfl

end DirectMedia

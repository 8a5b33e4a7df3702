import DirectMedia.Feed.Operations
import DirectMedia.Player.Components

set_option autoImplicit false

/-! # The actions of feeding

What an attempt to feed a frame consists of, apart from `setOmxFlags`, which looks at both codecs
and writes what the streams share. A property of these actions is one of the whole attempt if it is
one of `setOmxFlags` too.
-/

namespace DirectMedia

open Prog

/-- A property of all actions of an attempt for the stream `i` outside `setOmxFlags`. -/
structure OfFeed (i : StreamType) (Q : Action → Prop) : Prop where
  read : Q fun s => (none, s)
  use : Q (useAction i.codec)
  get : Q (getAction i)
  pop : Q (popAction i)
  adjust : ∀ f, Q (adjustAction f)
  write : ∀ f data pts flags accept, Q (writeAction i.codec f data pts flags accept)
  cleared : Q fun s => (some (.cleared i), { s with frames := Function.update s.frames i [] })
  fed : ∀ n, Q fun s => (some (.fed i n), s)

section OfFeed

attribute [local irreducible] StreamBuffer.dataLen

variable {i : StreamType} {Q : Action → Prop}

theorem OfFeed.query (h : OfFeed i Q) (g : Component → Nat) : (query i.codec g).Does Q :=
  ⟨h.use, fun _ => trivial⟩

theorem OfFeed.lockUnlessPlaying (h : OfFeed i Q) : lockUnlessPlaying.Does Q :=
  Does.bind (does_read _ h.read) fun _ => Does.onlyIf fun _ => trivial

theorem OfFeed.getBufQueue (h : OfFeed i Q) : (getBufQueue i).Does Q := ⟨h.get, fun _ => trivial⟩

theorem OfFeed.popBufQueue (h : OfFeed i Q) : (popBufQueue i).Does Q := ⟨h.pop, fun _ => trivial⟩

theorem OfFeed.adjustFrame (h : OfFeed i Q) (f : Frame) : (adjustFrame f).Does Q :=
  ⟨h.adjust f, fun _ => trivial⟩

theorem OfFeed.writeToFreeBuffer (h : OfFeed i Q) (f : Frame) (data : List UInt8) (pts : Int)
    (flags : BitVec 32) (accept : Int) :
    (writeToFreeBuffer i.codec f data pts flags accept).Does Q :=
  Does.bind (h.query _) fun _ => ⟨h.write f data pts flags accept, fun _ => trivial⟩

/-- The submissions of the data of a video frame differ in their flags by the end of the frame. -/
theorem does_writeChunks (huse : Q (useAction .videoCodec)) (env : FeedEnv) {f : Frame} {pts : Int}
    {flags : BitVec 32}
    (hwrite : ∀ data accept, Q (writeAction .videoCodec f data pts flags accept) ∧
      Q (writeAction .videoCodec f data pts (flags ||| bufferFlagEndOfFrame) accept))
    (fuel : Nat) : ∀ remaining offset writtenLen,
      (writeChunks env f pts flags fuel remaining offset writtenLen).Does Q := by
  have hquery : ∀ g, (DirectMedia.query .videoCodec g).Does Q := fun g => ⟨huse, fun _ => trivial⟩
  induction fuel with
  | zero => exact fun _ _ _ => does_pure _
  | succ fuel ih =>
      intro remaining offset writtenLen
      refine Does.bind (hquery _) fun size => Does.ite (fun _ => ?_) fun _ => ?_
      · refine Does.bind (Does.bind (hquery _) fun _ => ⟨(hwrite _ _).2, fun _ => trivial⟩)
          fun _ => does_pure _
      · refine Does.bind (hquery _) fun _ => ?_
        exact Does.bind (Does.bind (hquery _) fun _ => ⟨(hwrite _ _).1, fun _ => trivial⟩)
          fun _ => ih _ _ _

theorem OfFeed.writeChunks (h : OfFeed .videoEs Q) (env : FeedEnv) (f : Frame) (pts : Int)
    (flags : BitVec 32) (fuel : Nat) (remaining : Int) (offset : Nat) (writtenLen : Int) :
    (writeChunks env f pts flags fuel remaining offset writtenLen).Does Q :=
  does_writeChunks h.use env (fun _ _ => ⟨h.write _ _ _ _ _, h.write _ _ _ _ _⟩) fuel _ _ _

theorem OfFeed.writeVideo (h : OfFeed .videoEs Q) (env : FeedEnv) (f : Frame) (pts : Int)
    (flags : BitVec 32) : (writeVideo env f pts flags).Does Q := by
  refine Does.ite (fun _ => h.writeChunks env f pts flags _ _ _ _) fun _ => ?_
  refine Does.ite (fun _ => ?_) fun _ => does_pure _
  exact Does.bind (h.writeToFreeBuffer _ _ _ _ _) fun _ => does_pure _

theorem OfFeed.writeAudio (h : OfFeed .audioEs Q) (env : FeedEnv) (f : Frame) (pts : Int)
    (flags : BitVec 32) (ret : Int) (data : List UInt8) :
    (writeAudio env f pts flags ret data).Does Q :=
  Does.bind (h.writeToFreeBuffer _ _ _ _ _) fun _ => Does.bind h.popBufQueue fun _ =>
    Does.bind (does_read _ h.read) fun _ => does_pure _

theorem OfFeed.audioPts (h : OfFeed .audioEs Q) (f : Frame) : (audioPts f).Does Q :=
  Does.bind (does_read _ h.read) fun _ =>
    Does.ite (fun _ => h.adjustFrame f) fun _ => does_pure _

/-- `Feed_VideoData` with a frame, given its flags. -/
theorem OfFeed.feedVideoFrame (h : OfFeed .videoEs Q) (env : FeedEnv) {f : Frame}
    (hflags : ∀ pts, (videoFlags f pts).Does Q) : (feedVideoFrame env f).Does Q := by
  refine Does.bind (h.adjustFrame f) fun pts => Does.bind (hflags pts) fun flags => ?_
  refine Does.bind (h.writeVideo env f pts flags) fun written => ?_
  cases written with
  | some writtenLen => exact Does.bind h.popBufQueue fun _ => does_pure _
  | none => exact does_pure _

/-- `Feed_AudioData` with a frame, given `setOmxFlags` if it has a payload. -/
theorem OfFeed.feedAudioFrame (h : OfFeed .audioEs Q) (env : FeedEnv) {f : Frame}
    (hflags : f.dataLen > 0 → ∀ pts flags, (setOmxFlags f pts flags).Does Q) :
    (feedAudioFrame env f).Does Q := by
  refine Does.bind (h.audioPts f) fun pts => Does.ite (fun hlen => ?_) fun _ =>
    h.writeAudio env f _ _ _ _
  refine Does.bind (hflags hlen pts _) fun flags => ?_
  exact Does.bind (does_read _ h.read) fun _ => h.writeAudio env f _ _ _ _

/-- What `setOmxFlags` consists of. -/
theorem does_setOmxFlags (huse : ∀ c, Q (useAction c)) {f : Frame} {pts : Int}
    {flags : BitVec 32} (hsync : ∀ used, Q (syncAction f pts flags used))
    (hnotify : ∀ high, Q (notifyAction high)) : (setOmxFlags f pts flags).Does Q := by
  refine Does.bind ⟨huse _, fun _ => trivial⟩ fun used => ?_
  refine Does.bind ⟨huse _, fun _ => trivial⟩ fun _ => ?_
  refine Does.bind ⟨hsync used, fun _ => trivial⟩ fun d => ?_
  obtain ⟨flags, notify⟩ := d
  cases notify with
  | none => exact does_pure _
  | some high => exact Does.bind ⟨hnotify high, fun _ => trivial⟩ fun _ => does_pure _

/-- The handler of a stream, given `setOmxFlags`. -/
theorem OfFeed.feedStream (h : OfFeed i Q) (env : FeedEnv)
    (hflags : ∀ f pts flags, (setOmxFlags f pts flags).Does Q) : (feedStream env i).Does Q := by
  cases i with
  | audioEs =>
      refine Does.bind h.lockUnlessPlaying fun _ => Does.bind (does_read _ h.read) fun _ => ?_
      refine Does.ite (fun _ => ?_) fun _ =>
        Does.bind (does_emit _ _ h.cleared) fun _ => does_pure _
      refine Does.bind (h.query _) fun free => Does.ite (fun _ => does_pure _) fun _ => ?_
      refine Does.bind h.getBufQueue fun buff => ?_
      cases buff with
      | some f => exact h.feedAudioFrame env fun _ => hflags f
      | none => exact does_pure _
  | videoEs =>
      refine Does.bind h.lockUnlessPlaying fun _ => Does.bind (does_read _ h.read) fun _ => ?_
      refine Does.ite (fun _ => ?_) fun _ =>
        Does.bind (does_emit _ _ h.cleared) fun _ => does_pure _
      refine Does.bind h.getBufQueue fun buff => ?_
      cases buff with
      | some f =>
          refine Does.bind (h.query _) fun _ => Does.bind (h.query _) fun free => ?_
          refine Does.ite (fun _ => does_pure _) fun _ => h.feedVideoFrame env fun pts => ?_
          exact Does.ite (fun _ => hflags f pts _) fun _ => does_pure _
      | none => exact does_pure _

theorem OfFeed.feedMessage (h : OfFeed i Q) (env : FeedEnv)
    (hflags : ∀ f pts flags, (setOmxFlags f pts flags).Does Q) : (feedMessage env i).Does Q :=
  Does.bind (h.feedStream env hflags) fun n =>
    Does.bind (does_emit _ _ (h.fed n)) fun _ => does_pure _

end OfFeed

/-- What `feedData` consists of. -/
theorem does_feedData {Q : Action → Prop} (hread : Q fun s => (none, s))
    (hloaded : Q fun s => (some (.loadedRead s.loaded), s)) {buff : Option StreamBuffer}
    (hpush : ∀ b ∈ buff, Q (pushAction b) ∧ Q (appendAction b.streamType)) :
    (feedData buff).Does Q := by
  have hlock : lockUnlessPlaying.Does Q :=
    Does.bind (does_read _ hread) fun _ => Does.onlyIf fun _ => trivial
  cases buff with
  | none => exact does_pure _
  | some b =>
      obtain ⟨hpush, happend⟩ := hpush b rfl
      refine Does.ite (fun _ => does_pure _) fun _ => ?_
      refine Does.bind ⟨hloaded, fun _ => trivial⟩ fun _ =>
        Does.bind (does_read _ hread) fun _ => ?_
      refine Does.bind (does_read _ hread) fun _ => Does.bind (does_read _ hread) fun _ => ?_
      refine Does.ite (fun _ => does_pure _) fun _ => Does.bind hlock fun _ => ?_
      refine Does.bind ⟨hpush, fun _ => trivial⟩ fun _ => ?_
      exact Does.bind ⟨happend, fun _ => trivial⟩ fun _ => does_pure _

end DirectMedia

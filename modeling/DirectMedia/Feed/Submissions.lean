import DirectMedia.Feed.Actions
import DirectMedia.Lib.Amid
import DirectMedia.Lib.Pieces
import DirectMedia.Omx.FreeBuffers
import Mathlib.Data.List.Forall2

set_option autoImplicit false

/-! # What is submitted for a frame

A handler submits the data of a frame while buffers come back from the codec. `submissions` are the
calls of `writeToFreeBuffer` in the history of such a run, each with the player it found. Between
them the handler and the others keep an assertion about the player, one for each number of
submissions made (`Supply`); `amidst_writeChunks` is the loop of `Feed_VideoData` under it: one
submission for each piece of the frame.
-/

namespace DirectMedia

open Prog Pieces

/-- The history of a run of a handler. -/
abbrev FeedHistory := List (Esplayer × Option Event)

/-- A call of `writeToFreeBuffer`: the player it found, its result, and the buffer it submitted. -/
structure Submission where
  state : Esplayer
  result : Int
  buffer : Option Buffer

/-- The bytes submitted. -/
def Submission.payload (x : Submission) : List UInt8 := x.buffer.elim [] (·.bytes)

def asSubmission : Esplayer × Option Event → Option Submission
  | (s, some (.written _ _ result b)) => some ⟨s, result, b⟩
  | _ => none

/-- The submissions of a run. -/
def submissions (d : FeedHistory) : List Submission := d.filterMap asSubmission

def asRemoval : Esplayer × Option Event → Option Frame
  | (_, some (.popped _ f)) => f
  | _ => none

/-- The frames a run removed from the queue. -/
def removals (d : FeedHistory) : List Frame := d.filterMap asRemoval

theorem submissions_snoc (d : FeedHistory) (x : Esplayer × Option Event) :
    submissions (d ++ [x]) = submissions d ++ (asSubmission x).toList := by
  rw [submissions, List.filterMap_append, submissions]
  cases h : asSubmission x <;> simp [h]

theorem removals_snoc (d : FeedHistory) (x : Esplayer × Option Event) :
    removals (d ++ [x]) = removals d ++ (asRemoval x).toList := by
  rw [removals, List.filterMap_append, removals]
  cases h : asRemoval x <;> simp [h]

/-- Buffers come back from a codec. -/
def Esplayer.returnBuffers (s : Esplayer) (c : ComponentName) (indices : List Nat) : Esplayer :=
  s.onComponent c fun comp =>
    { comp with input := indices.foldl Port.emptyBufferDone comp.input }

theorem returnBuffers_nil (s : Esplayer) (c : ComponentName) : s.returnBuffers c [] = s := by
  simp [Esplayer.returnBuffers, Esplayer.onComponent]

/-- The submission is the answer to `writeToFreeBuffer` with this data. -/
structure Answers (c : ComponentName) (data : List UInt8) (pts : Int) (flags : BitVec 32)
    (accept : Int) (x : Submission) : Prop where
  result : x.result = ((x.state.input c).writeToFreeBuffer data pts flags accept).1
  buffer : x.buffer = ((x.state.input c).writeToFreeBuffer data pts flags accept).2.2

/-! ## Between two submissions -/

/-- The player satisfies `I`, the submissions so far satisfy `P`, and no frame is removed yet. -/
structure Sending (I : Esplayer → Prop) (P : List Submission → Prop) (d : FeedHistory)
    (s : Esplayer) : Prop where
  player : I s
  sent : P (submissions d)
  kept : removals d = []

/-- The event is neither a submission nor the removal of a frame. -/
def Event.quiet : Event → Bool
  | .written _ _ _ _ | .popped _ _ => false
  | _ => true

theorem Event.quiet_none {x : Event} (h : x.quiet = true) (s : Esplayer) :
    asSubmission (s, some x) = none ∧ asRemoval (s, some x) = none := by
  cases x with
  | written i f result b => cases h
  | popped i f => cases h
  | _ => exact ⟨rfl, rfl⟩

theorem submissions_quiet (d : FeedHistory) (s : Esplayer) {shown : Option Event}
    (h : ∀ x ∈ shown, x.quiet = true) :
    submissions (d ++ [(s, shown)]) = submissions d ∧
      removals (d ++ [(s, shown)]) = removals d := by
  rw [submissions_snoc, removals_snoc]
  cases shown with
  | none => simp [asSubmission, asRemoval]
  | some x =>
      obtain ⟨hsub, hrem⟩ := Event.quiet_none (h x rfl) s
      simp [hsub, hrem]

/-- The action only looks. -/
def Looks : Action → Prop := fun f => ∀ s, (f s).2 = s ∧ ∀ x ∈ (f s).1, x.quiet = true

/-- The second player has the codecs, the queues and the decoder of the first. -/
structure Alike (s t : Esplayer) : Prop where
  component : t.component = s.component
  frames : t.frames = s.frames
  swDecoder : t.swDecoder = s.swDecoder

/-- The action leaves codecs, queues and decoder alone, and neither submits nor removes. -/
def Aside : Action → Prop := fun f => ∀ s, Alike s (f s).2 ∧ ∀ x ∈ (f s).1, x.quiet = true

section Between

variable {α : Type} {e : Nat → Esplayer → Esplayer} {I : Esplayer → Prop}
  {P : List Submission → Prop}

theorem Sending.shown {d : FeedHistory} {s t : Esplayer} (h : Sending I P d s) (ht : I t)
    (u : Esplayer) {shown : Option Event} (hquiet : ∀ x ∈ shown, x.quiet = true) :
    Sending I P (d ++ [(u, shown)]) t := by
  obtain ⟨hsubs, hrem⟩ := submissions_quiet d u hquiet
  exact ⟨ht, by rw [hsubs]; exact h.sent, by rw [hrem]; exact h.kept⟩

theorem amidst_looks (he : ∀ n s, I s → I (e n s)) {p : Op α} (h : p.Does Looks) :
    Amidst e (Sending I P) p fun _ => Sending I P := by
  refine Does.amidst (fun d n s hs => ⟨he n s hs.player, hs.sent, hs.kept⟩) ?_
  refine h.mono fun f hf d s hs => ?_
  obtain ⟨hsame, hquiet⟩ := hf s
  rw [hsame]
  exact hs.shown hs.player s hquiet

theorem amidst_aside (he : ∀ n s, I s → I (e n s))
    (hI : ∀ s t, I s → Alike s t → I t)
    {p : Op α} (h : p.Does Aside) : Amidst e (Sending I P) p fun _ => Sending I P := by
  refine Does.amidst (fun d n s hs => ⟨he n s hs.player, hs.sent, hs.kept⟩) ?_
  refine h.mono fun f hf d s hs => ?_
  obtain ⟨halike, hquiet⟩ := hf s
  exact hs.shown (hI s _ hs.player halike) s hquiet

/-- What all players that satisfy `I` agree on can be read. -/
theorem amidst_read (he : ∀ n s, I s → I (e n s)) {g : Esplayer → α} {a : α}
    (ha : ∀ s, I s → g s = a) :
    Amidst e (Sending I P) (read g) fun b d s => b = a ∧ Sending I P d s := by
  refine amidst_step fun d n s hs => ?_
  have ht := he n s hs.player
  exact ⟨ha _ ht, hs.shown ht _ (by simp)⟩

/-- A number read through a pointer is the number of some player that satisfies `I`. -/
theorem amidst_query (he : ∀ n s, I s → I (e n s)) (c : ComponentName) (g : Component → Nat) :
    Amidst e (Sending I P) (query c g) fun m d s =>
      Sending I P d s ∧ ∃ t, I t ∧ m = (t.component c).elim 0 g := by
  refine amidst_step fun d n s hs => ?_
  have ht := he n s hs.player
  exact ⟨hs.shown ht _ (by simp [useAction, Event.quiet]), e n s, ht, rfl⟩

/-- One submission. -/
theorem amidst_writeToFreeBuffer {J : Esplayer → Prop} (he : ∀ n s, I s → I (e n s))
    (c : ComponentName) (f : Frame) (data : List UInt8) (pts : Int) (flags : BitVec 32)
    (accept : Int) (hw : ∀ s, I s → J (writeAction c f data pts flags accept s).2) :
    Amidst e (Sending I P) (writeToFreeBuffer c f data pts flags accept) fun m =>
      Sending J fun subs => ∃ before x, P before ∧ subs = before ++ [x] ∧ I x.state ∧
        Answers c data pts flags accept x ∧ m = x.result := by
  refine Amidst.bind (amidst_query he c _) fun _ => amidst_step fun d n s hs => ?_
  obtain ⟨hs, _⟩ := hs
  have ht := he n s hs.player
  refine ⟨hw _ ht, ?_, ?_⟩
  · refine ⟨submissions d,
      { state := e n s
        result := (((e n s).input c).writeToFreeBuffer data pts flags accept).1
        buffer := (((e n s).input c).writeToFreeBuffer data pts flags accept).2.2 },
      hs.sent, ?_, ht, ⟨rfl, rfl⟩, rfl⟩
    exact submissions_snoc d _
  · rw [removals_snoc, hs.kept]
    rfl

end Between

/-! ## The loop of `Feed_VideoData` -/

/-- While `Feed_VideoData` submits the frame `f` in `N` pieces of `S` bytes, `I k` holds of the
player after `k` submissions. -/
structure Supply (S : Nat) (f : Frame) (env : FeedEnv) (e : Nat → Esplayer → Esplayer)
    (I : Nat → Esplayer → Prop) : Prop where
  head : ∀ k s, I k s → (s.frames .videoEs).head? = some f
  held : ∀ k s, I k s → (s.component .videoCodec).isSome
  size : ∀ k s, I k s → (s.component .videoCodec).elim 0 (·.inputBufferSize) = S
  others : ∀ k n s, I k s → I k (e n s)
  aside : ∀ s t, I 0 s → Alike s t → I 0 t
  write : ∀ k s pts flags, k < count S f.data.length → I k s →
    I (k + 1) (writeAction .videoCodec f (piece S f.data k) pts flags (env.accept (k * S)) s).2

/-- The flags of the submission number `k`. -/
def pieceFlags (S : Nat) (f : Frame) (flags : BitVec 32) (k : Nat) : BitVec 32 :=
  if k + 1 = count S f.data.length then flags ||| bufferFlagEndOfFrame else flags

/-- The submission number `k` for the frame `f`, found in a player that satisfies `I k`. -/
structure SubmissionOf (S : Nat) (f : Frame) (env : FeedEnv) (I : Nat → Esplayer → Prop)
    (pts : Int) (flags : BitVec 32) (k : Nat) (x : Submission) : Prop where
  player : I k x.state
  answers : Answers .videoCodec (piece S f.data k) pts (pieceFlags S f flags k)
    (env.accept (k * S)) x

/-- The first `k` submissions, with the results `writtenLen` in sum. -/
structure Submitted (S : Nat) (f : Frame) (env : FeedEnv) (I : Nat → Esplayer → Prop) (pts : Int)
    (flags : BitVec 32) (k : Nat) (writtenLen : Int) (subs : List Submission) : Prop where
  each : List.Forall₂ (SubmissionOf S f env I pts flags) (List.range k) subs
  sum : writtenLen = (subs.map (·.result)).sum

theorem submitted_nil {S : Nat} {f : Frame} {env : FeedEnv} {I : Nat → Esplayer → Prop} {pts : Int}
    {flags : BitVec 32} : Submitted S f env I pts flags 0 0 [] :=
  ⟨.nil, rfl⟩

theorem Submitted.snoc {S : Nat} {f : Frame} {env : FeedEnv} {I : Nat → Esplayer → Prop}
    {pts : Int} {flags : BitVec 32} {k : Nat} {writtenLen : Int} {subs : List Submission}
    (h : Submitted S f env I pts flags k writtenLen subs) {x : Submission}
    (hx : SubmissionOf S f env I pts flags k x) :
    Submitted S f env I pts flags (k + 1) (writtenLen + x.result) (subs ++ [x]) where
  each := by
    rw [List.range_succ]
    exact List.rel_append h.each (.cons hx .nil)
  sum := by simp [h.sum]

section Loop

variable {S : Nat} {f : Frame} {env : FeedEnv} {e : Nat → Esplayer → Esplayer}
  {I : Nat → Esplayer → Prop}

theorem Supply.amidst_size (H : Supply S f env e I) (k : Nat) (P : List Submission → Prop) :
    Amidst e (Sending (I k) P) (getInputBufferSize .videoCodec) fun m d s =>
      m = S ∧ Sending (I k) P d s := by
  refine (amidst_query (H.others k) _ _).mono (fun _ _ h => h) fun m d s h => ?_
  obtain ⟨hs, t, ht, rfl⟩ := h
  exact ⟨H.size k t ht, hs⟩

/-- One more piece. -/
theorem Supply.amidst_piece (H : Supply S f env e I) (pts : Int) (flags : BitVec 32) {k : Nat}
    (hk : k < count S f.data.length) (writtenLen : Int) :
    Amidst e (Sending (I k) (Submitted S f env I pts flags k writtenLen))
      (writeToFreeBuffer .videoCodec f (piece S f.data k) pts (pieceFlags S f flags k)
        (env.accept (k * S)))
      fun m => Sending (I (k + 1)) (Submitted S f env I pts flags (k + 1) (writtenLen + m)) := by
  refine (amidst_writeToFreeBuffer (H.others k) _ _ _ _ _ _ fun s hs =>
    H.write k s pts _ hk hs).mono (fun _ _ h => h) fun m d s h => ?_
  obtain ⟨before, x, hbefore, hsubs, hplayer, hanswers, rfl⟩ := h.sent
  refine ⟨h.player, ?_, h.kept⟩
  rw [hsubs]
  exact hbefore.snoc ⟨hplayer, hanswers⟩

/-- From the piece `k` on the loop submits all pieces that are left. -/
theorem Supply.amidst_writeChunks (H : Supply S f env e I) (hS : 0 < S) (pts : Int)
    (flags : BitVec 32) (fuel : Nat) : ∀ (k : Nat) (writtenLen : Int),
      k < count S f.data.length → count S f.data.length ≤ k + fuel →
      Amidst e (Sending (I k) (Submitted S f env I pts flags k writtenLen))
        (writeChunks env f pts flags fuel (f.data.length - (k * S : Nat)) (k * S) writtenLen)
        fun written d s => ∃ total, written = some total ∧
          Sending (I (count S f.data.length))
            (Submitted S f env I pts flags (count S f.data.length) total) d s := by
  induction fuel with
  | zero => intro k writtenLen hk hfuel; omega
  | succ fuel ih =>
      intro k writtenLen hk hfuel
      have hlt := (lt_count_iff hS k).mp hk
      have hlast := last_iff hS hlt
      -- the loop asks for the size of the buffers, and again if data is left
      refine Amidst.bind_and (H.amidst_size k _) fun size hsize => ?_
      subst hsize
      refine Amidst.ite (fun hrest => ?_) fun hrest => ?_
      · -- the last piece: what is left of the data
        have hk' : k + 1 = count size f.data.length := hlast.mpr (by omega)
        rw [← piece_last (hlast.mp hk'), ← show pieceFlags size f flags k =
          flags ||| bufferFlagEndOfFrame from if_pos hk']
        refine Amidst.bind (H.amidst_piece pts flags hk writtenLen) fun m => ?_
        refine amidst_pure fun d s h => ⟨_, rfl, ?_⟩
        rwa [← hk']
      · have hk' : k + 1 ≠ count size f.data.length := fun h => hrest (by
          have := hlast.mp h
          omega)
        refine Amidst.bind_and (H.amidst_size k _) fun size' hsize => ?_
        subst hsize
        have hflags : pieceFlags size' f flags k = flags := if_neg hk'
        have hpiece := H.amidst_piece pts flags hk writtenLen
        rw [hflags] at hpiece
        refine Amidst.bind hpiece fun m => ?_
        have hnext := ih (k + 1) (writtenLen + m) (by omega) (by omega)
        rw [Nat.succ_mul] at hnext
        rwa [show (f.data.length : Int) - (k * size' : Nat) - size' =
          f.data.length - (k * size' + size' : Nat) by omega]

/-- `writeVideo` submits all pieces of a frame whose length is positive as an `int`. -/
theorem Supply.amidst_writeVideo (H : Supply S f env e I) (hS : 0 < S)
    (hpos : 0 < f.data.length) (hlen : f.data.length < 2 ^ 31) (pts : Int) (flags : BitVec 32) :
    Amidst e (Sending (I 0) (· = [])) (writeVideo env f pts flags) fun written =>
      Sending (I (count S f.data.length)) fun subs => ∃ total, written = some total ∧
        Submitted S f env I pts flags (count S f.data.length) total subs := by
  have hdata : f.dataLen = f.data.length := StreamBuffer.dataLen_eq hlen
  have hcount : count S f.data.length ≤ 0 + f.data.length := by
    rw [Nat.zero_add]
    exact count_le hS
  have hloop := H.amidst_writeChunks hS pts flags f.data.length 0 0 (count_pos hS hpos) hcount
  rw [writeVideo, hdata, if_pos (by omega)]
  simp only [Nat.zero_mul, Nat.cast_zero, sub_zero] at hloop
  refine hloop.mono (fun d s h => ⟨h.player, ?_, h.kept⟩) fun written d s h => ?_
  · rw [h.sent]
    exact submitted_nil
  · obtain ⟨total, rfl, h⟩ := h
    exact ⟨h.player, ⟨total, rfl, h.sent⟩, h.kept⟩

end Loop

/-! ## `Feed_VideoData` -/

theorem does_query {Q : Action → Prop} {c : ComponentName} (h : Q (useAction c))
    (g : Component → Nat) : (query c g).Does Q :=
  ⟨h, fun _ => trivial⟩

theorem looks_useAction (c : ComponentName) : Looks (useAction c) :=
  fun _ => ⟨rfl, by simp [useAction, Event.quiet]⟩

theorem looks_read : Looks fun s => (none, s) := fun _ => ⟨rfl, by simp⟩

theorem looks_getBufQueue (i : StreamType) : (getBufQueue i).Does Looks := by
  refine ⟨fun s => ⟨rfl, ?_⟩, fun _ => trivial⟩
  intro x hx
  simp only [getAction, Option.mem_def, Option.map_eq_some_iff] at hx
  obtain ⟨f, _, rfl⟩ := hx
  rfl

/-- The frame that stays at the head is found. -/
theorem amidst_getBufQueue {e : Nat → Esplayer → Esplayer} {I : Esplayer → Prop}
    {P : List Submission → Prop} (he : ∀ n s, I s → I (e n s)) (i : StreamType) {f : Frame}
    (hhead : ∀ s, I s → (s.frames i).head? = some f) :
    Amidst e (Sending I P) (getBufQueue i) fun buff d s =>
      buff = some f ∧ Sending I P d s := by
  refine amidst_step fun d n s hs => ?_
  have ht := he n s hs.player
  exact ⟨hhead _ ht, hs.shown ht _ ((looks_getBufQueue i).1 _).2⟩

theorem looks_lockUnlessPlaying : lockUnlessPlaying.Does Looks :=
  Does.bind (does_read _ looks_read) fun _ => Does.onlyIf fun _ => trivial

theorem aside_adjustAction (f : Frame) : Aside (adjustAction f) :=
  fun _ => ⟨⟨rfl, rfl, rfl⟩, by simp [adjustAction, Event.quiet]⟩

theorem aside_setOmxFlags (f : Frame) (pts : Int) (flags : BitVec 32) :
    (setOmxFlags f pts flags).Does Aside := by
  refine does_setOmxFlags (fun c s => ⟨⟨rfl, rfl, rfl⟩, (looks_useAction c s).2⟩)
    (fun _ s => ⟨⟨rfl, rfl, rfl⟩, ?_⟩) fun _ s => ⟨⟨rfl, rfl, rfl⟩, ?_⟩
  · simp [syncAction, Event.quiet]
  · simp [notifyAction, Event.quiet]

theorem aside_videoFlags (f : Frame) (pts : Int) : (videoFlags f pts).Does Aside :=
  Does.ite (fun _ => aside_setOmxFlags f pts _) fun _ => does_pure _

end DirectMedia

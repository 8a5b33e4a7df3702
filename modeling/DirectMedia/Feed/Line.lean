import DirectMedia.Feed.Outline
import DirectMedia.Player.Components

set_option autoImplicit false

/-! # The line of the frames of a stream

In playback of audio and video, with both codecs, no flush and an OMX that accepts every buffer,
the frames of a stream pass the same stages in the order in which they were pushed: adjustment,
sync update, submission, removal. An attempt takes the frame at the head through all of them or,
while the codec has no free buffer, through none.

`Line i n a y b w` says how far the stream `i` has come: `n` frames have been removed, and beyond
these the frames `a` have been adjusted, `y` been through the sync update and `b` been submitted.
The outline of an attempt moves the line on by one frame (`lineRules`).
-/

namespace DirectMedia

open Prog

/-! ## Stages -/

/-- The stages that a frame passes. -/
inductive Stage where
  | pushed
  | adjusted
  | synced
  | submitted
  | popped
  deriving DecidableEq, Repr

/-- The frame of the stream that an event takes through a stage. -/
def Stage.frame (i : StreamType) : Stage → Event → Option Frame
  | .pushed, .pushed j f | .adjusted, .adjusted j f | .synced, .synced j f
  | .submitted, .written j f _ (some _) | .popped, .popped j (some f) =>
      if j = i then some f else none
  | _, _ => none

/-- The frames of the stream that have passed a stage. -/
def passed (w : FeedWorld) (i : StreamType) (st : Stage) : List Frame :=
  w.log.filterMap fun x => st.frame i x.2

theorem passed_after (w : FeedWorld) (t : Thread) (a : Action) (i : StreamType) (st : Stage) :
    passed (w.after t a) i st = passed w i st ++ ((a w.state).1.bind (st.frame i)).toList := by
  rw [passed, World.after_log, List.filterMap_append]
  cases (a w.state).1 with
  | none => rfl
  | some e =>
      simp only [Option.toList_some, List.map_cons, List.map_nil, Option.bind_some, passed]
      cases h : st.frame i e <;> simp [List.filterMap, h]

theorem passed_congr {w v : FeedWorld} (h : v.log = w.log) (i : StreamType) (st : Stage) :
    passed v i st = passed w i st := by
  rw [passed, passed, h]

/-- The frame is not empty, so it goes through the sync update. -/
def Frame.nonempty (f : Frame) : Bool := decide (0 < f.data.length)

/-- What is submitted of the buffer fits. From 2^31 bytes on, `data_len` is negative as an `int`,
and the data would be submitted as it is, to a port whose buffers are smaller. The data of a video
frame fits one input buffer of the codec, which has `size` bytes; what the audio decoder makes of a
frame may have any length. -/
def Fits (size : Nat) (b : StreamBuffer) : Prop :=
  b.data.length < 2 ^ 31 ∧ (b.streamType = .videoEs → b.data.length ≤ size)

/-- Playback of audio and video: both codecs are present, and an input buffer of the video codec
has `size` bytes. -/
structure Ready (size : Nat) (s : Esplayer) : Prop where
  audio : (s.component .audioCodec).isSome = true
  video : (s.component .videoCodec).isSome = true
  size : (s.component .videoCodec).elim 0 (·.inputBufferSize) = size
  enableVideo : s.enableVideo = true

/-- The free input buffers of the codec of a stream. -/
def Esplayer.free (s : Esplayer) (i : StreamType) : Nat := (s.input i.codec).getFreeBufferCount

/-- How far a stream has come. -/
structure Line (size : Nat) (i : StreamType) (n : Nat) (a y b : List Frame) (w : FeedWorld) :
    Prop where
  ready : Ready size w.state
  queue : passed w i .pushed = passed w i .popped ++ w.state.frames i
  fits : ∀ f ∈ w.state.frames i, f.streamType = i ∧ Fits size f.toStreamBuffer
  count : (passed w i .popped).length = n
  adjusted : passed w i .adjusted = passed w i .popped ++ a
  synced : passed w i .synced = (passed w i .popped ++ y).filter Frame.nonempty
  submitted : passed w i .submitted = passed w i .popped ++ b

/-- The frames have passed the stages in the order in which they were pushed: each is adjusted,
then synced if it is not empty, then submitted, then popped, before the next one is adjusted. -/
structure InOrder (i : StreamType) (w : FeedWorld) : Prop where
  adjusted : passed w i .adjusted <+: passed w i .pushed
  synced : passed w i .synced <+: (passed w i .adjusted).filter Frame.nonempty
  submitted_adjusted : passed w i .submitted <+: passed w i .adjusted
  submitted_synced : (passed w i .submitted).filter Frame.nonempty <+: passed w i .synced
  popped : passed w i .popped <+: passed w i .submitted
  one : (passed w i .adjusted).length ≤ (passed w i .popped).length + 1

section Rely

variable {size : Nat} {i : StreamType}

/-- What the others do to a stream: they push frames, and buffers of its codec become free. -/
structure LineRely (size : Nat) (i : StreamType) (w v : FeedWorld) : Prop where
  queue : ∃ fs, passed v i .pushed = passed w i .pushed ++ fs ∧
    v.state.frames i = w.state.frames i ++ fs ∧
    ∀ f ∈ fs, f.streamType = i ∧ Fits size f.toStreamBuffer
  stages : ∀ st, st ≠ .pushed → passed v i st = passed w i st
  ready : Ready size w.state → Ready size v.state
  free : w.state.free i ≤ v.state.free i

theorem lineRely_refl (size : Nat) (i : StreamType) (w : FeedWorld) : LineRely size i w w where
  queue := ⟨[], by simp, by simp, by simp⟩
  stages _ _ := rfl
  ready := id
  free := le_rfl

theorem lineRely_trans (size : Nat) (i : StreamType) (u v w : FeedWorld)
    (h : LineRely size i u v) (h' : LineRely size i v w) : LineRely size i u w where
  queue := by
    obtain ⟨fs, hpushed, hframes, hfits⟩ := h.queue
    obtain ⟨fs', hpushed', hframes', hfits'⟩ := h'.queue
    refine ⟨fs ++ fs', by rw [hpushed', hpushed, List.append_assoc],
      by rw [hframes', hframes, List.append_assoc], fun f hf => ?_⟩
    rcases List.mem_append.mp hf with hf | hf
    · exact hfits f hf
    · exact hfits' f hf
  stages st hst := (h'.stages st hst).trans (h.stages st hst)
  ready := h'.ready ∘ h.ready
  free := h.free.trans h'.free

theorem Line.stable {n : Nat} {a y b : List Frame} {w v : FeedWorld} (h : Line size i n a y b w)
    (hR : LineRely size i w v) : Line size i n a y b v := by
  obtain ⟨fs, hpushed, hframes, hfits⟩ := hR.queue
  have hpopped := hR.stages .popped (by decide)
  refine ⟨hR.ready h.ready, ?_, fun f hf => ?_, ?_, ?_, ?_, ?_⟩
  · calc passed v i .pushed
        = passed w i .pushed ++ fs := hpushed
      _ = passed w i .popped ++ w.state.frames i ++ fs := by rw [h.queue]
      _ = passed w i .popped ++ (w.state.frames i ++ fs) := List.append_assoc _ _ _
      _ = passed v i .popped ++ v.state.frames i := by rw [hpopped, hframes]
  · rw [hframes] at hf
    rcases List.mem_append.mp hf with hf | hf
    · exact h.fits f hf
    · exact hfits f hf
  · rw [hpopped, h.count]
  · rw [hR.stages .adjusted (by decide), hpopped, h.adjusted]
  · rw [hR.stages .synced (by decide), hpopped, h.synced]
  · rw [hR.stages .submitted (by decide), hpopped, h.submitted]

theorem LineRely.head {w v : FeedWorld} (hR : LineRely size i w v) {f : Frame}
    (h : (w.state.frames i).head? = some f) : (v.state.frames i).head? = some f := by
  obtain ⟨fs, _, hframes, _⟩ := hR.queue
  rw [hframes, List.head?_append, h, Option.some_or]

/-- A line with at most the head of the queue in work is in order. -/
theorem Line.inOrder {n : Nat} {a y b : List Frame} {w : FeedWorld} (h : Line size i n a y b w)
    (ha : a <+: w.state.frames i) (hone : a.length ≤ 1)
    (hy : y.filter Frame.nonempty <+: a.filter Frame.nonempty)
    (hb : b <+: a) (hby : b.filter Frame.nonempty <+: y.filter Frame.nonempty) : InOrder i w where
  adjusted := by
    rw [h.adjusted, h.queue]
    exact (List.prefix_append_right_inj _).mpr ha
  synced := by
    rw [h.synced, h.adjusted, List.filter_append, List.filter_append]
    exact (List.prefix_append_right_inj _).mpr hy
  submitted_adjusted := by
    rw [h.submitted, h.adjusted]
    exact (List.prefix_append_right_inj _).mpr hb
  submitted_synced := by
    rw [h.submitted, h.synced, List.filter_append, List.filter_append]
    exact (List.prefix_append_right_inj _).mpr hby
  popped := by
    rw [h.submitted]
    exact List.prefix_append _ _
  one := by
    rw [h.adjusted, List.length_append]
    omega

end Rely

/-! ## The actions of an attempt -/

/-- The event of a push or of an appended message. -/
def Event.isTransfer : Event → Bool
  | .pushed _ _ | .appended _ => true
  | _ => false

/-- The pushes and the appended messages so far. -/
def transfers (w : FeedWorld) : List (Thread × Event) := w.log.filter fun x => x.2.isTransfer

/-- A step that neither pushes nor appends and leaves the renderer loopers alone. -/
structure Apart (w v : FeedWorld) : Prop where
  transfers : transfers v = transfers w
  renderer : v.state.renderer = w.state.renderer
  pushed : v.state.pushed = w.state.pushed

/-- What an attempt does that starts when `n` frames of its stream have been removed. Until it has
adjusted a frame it changes nothing, and it has adjusted none when it reports a full codec. -/
structure LineGuar (size : Nat) (i : StreamType) (n : Nat) (w v : FeedWorld) : Prop where
  inOrder : InOrder i v
  quiet : v.state = w.state ∨ n < (passed v i .adjusted).length
  full : v.log = w.log ++ [(.renderer i, .fed i resultFeedFull)] →
    (passed v i .adjusted).length ≤ n
  others : ∀ j, j ≠ i → LineRely size j w v
  apart : Apart w v

/-- An action that concerns no stream but `i`. -/
structure Local (size : Nat) (i : StreamType) (a : Action) (s : Esplayer) : Prop where
  shows : ∀ (st : Stage) (j : StreamType), j ≠ i → (a s).1.bind (st.frame j) = none
  transfer : ∀ e, (a s).1 = some e → e.isTransfer = false
  frames : ∀ j, j ≠ i → (a s).2.frames j = s.frames j
  input : ∀ j, j ≠ i → (a s).2.input j.codec = s.input j.codec
  ready : Ready size s → Ready size (a s).2
  renderer : (a s).2.renderer = s.renderer
  pushed : (a s).2.pushed = s.pushed

section Local

variable {size : Nat} {i : StreamType} {n : Nat} {a y b : List Frame} {w : FeedWorld} {act : Action}

theorem Local.rely (h : Local size i act w.state) {j : StreamType} (hj : j ≠ i) :
    LineRely size j w (w.after (.renderer i) act) where
  queue := ⟨[], by simp [passed_after, h.shows _ j hj], by simp [h.frames j hj], by simp⟩
  stages st _ := by simp [passed_after, h.shows st j hj]
  ready := h.ready
  free := by
    unfold Esplayer.free
    rw [World.after_state, h.input j hj]

theorem Local.apart (h : Local size i act w.state) (t : Thread) : Apart w (w.after t act) where
  transfers := by
    rw [transfers, World.after_log, List.filter_append, transfers]
    cases he : (act w.state).1 with
    | none => simp
    | some e => simp [h.transfer e he]
  renderer := h.renderer
  pushed := h.pushed

theorem Local.guar (h : Local size i act w.state) (hin : InOrder i (w.after (.renderer i) act))
    (hquiet : (act w.state).2 = w.state ∨
      n < (passed (w.after (.renderer i) act) i .adjusted).length)
    (hfull : (act w.state).1 = some (.fed i resultFeedFull) →
      (passed (w.after (.renderer i) act) i .adjusted).length ≤ n) :
    LineGuar size i n w (w.after (.renderer i) act) where
  inOrder := hin
  quiet := hquiet
  full hlog := by
    refine hfull ?_
    rw [World.after_log, List.append_cancel_left_eq] at hlog
    cases he : (act w.state).1 with
    | none => simp [he] at hlog
    | some e => simpa [he] using hlog
  others _ hj := h.rely hj
  apart := h.apart _

/-- An action that removes no frame and pushes none moves the line on by what it shows. -/
theorem Line.after {a' y' b' : List Frame} (h : Line size i n a y b w) (t : Thread)
    (hready : Ready size w.state → Ready size (act w.state).2)
    (hframes : (act w.state).2.frames i = w.state.frames i)
    (hpushed : (act w.state).1.bind (Stage.pushed.frame i) = none)
    (hpopped : (act w.state).1.bind (Stage.popped.frame i) = none)
    (ha : a ++ ((act w.state).1.bind (Stage.adjusted.frame i)).toList = a')
    (hy : y.filter Frame.nonempty ++ ((act w.state).1.bind (Stage.synced.frame i)).toList =
      y'.filter Frame.nonempty)
    (hb : b ++ ((act w.state).1.bind (Stage.submitted.frame i)).toList = b') :
    Line size i n a' y' b' (w.after t act) := by
  have hD : passed (w.after t act) i .popped = passed w i .popped := by
    rw [passed_after, hpopped, Option.toList_none, List.append_nil]
  refine ⟨hready h.ready, ?_, ?_, hD ▸ h.count, ?_, ?_, ?_⟩
  · calc passed (w.after t act) i .pushed
        = passed w i .pushed := by
          rw [passed_after, hpushed, Option.toList_none, List.append_nil]
      _ = passed w i .popped ++ w.state.frames i := h.queue
      _ = passed (w.after t act) i .popped ++ (w.after t act).state.frames i := by
          rw [hD, World.after_state, hframes]
  · rw [World.after_state, hframes]
    exact h.fits
  · rw [hD, passed_after, h.adjusted, List.append_assoc, ha]
  · calc passed (w.after t act) i .synced
        = (passed w i .popped ++ y).filter Frame.nonempty ++
            ((act w.state).1.bind (Stage.synced.frame i)).toList := by
          rw [passed_after, h.synced]
      _ = (passed w i .popped).filter Frame.nonempty ++ y'.filter Frame.nonempty := by
          rw [List.filter_append, List.append_assoc, hy]
      _ = (passed (w.after t act) i .popped ++ y').filter Frame.nonempty := by
          rw [hD, List.filter_append]
  · rw [hD, passed_after, h.submitted, List.append_assoc, hb]

end Local

/-- An action that changes nothing and shows nothing about a frame. -/
def Silent (a : Action) : Prop := ∀ s, (a s).2 = s ∧
  ∀ e, (a s).1 = some e →
    e.isTransfer = false ∧ ∀ (st : Stage) (i : StreamType), st.frame i e = none

theorem silent_of_readOnly {a : Action} (h : ReadOnly a) : Silent a := by
  intro s
  refine ⟨(h s).1, fun e he => ?_⟩
  have huse := (h s).2 e he
  cases e with
  | use c held => exact ⟨rfl, fun st _ => by cases st <;> rfl⟩
  | _ => cases huse

theorem silent_get (i : StreamType) : Silent (getAction i) := by
  refine fun s => ⟨rfl, fun e he => ?_⟩
  obtain ⟨f, _, rfl⟩ := Option.map_eq_some_iff.mp he
  exact ⟨rfl, fun st _ => by cases st <;> rfl⟩

theorem silent_fed (i : StreamType) (n : Int) : Silent (fedAction i n) := by
  refine fun s => ⟨rfl, fun e he => ?_⟩
  cases he
  exact ⟨rfl, fun st _ => by cases st <;> rfl⟩

section Silent

variable {size : Nat} {i : StreamType} {n : Nat} {w : FeedWorld} {a : Action}

theorem Silent.bind_frame (h : Silent a) (s : Esplayer) (st : Stage) (j : StreamType) :
    (a s).1.bind (st.frame j) = none := by
  cases he : (a s).1 with
  | none => rfl
  | some e => exact ((h s).2 e he).2 st j

theorem Silent.local (h : Silent a) (s : Esplayer) : Local size i a s where
  shows st j _ := h.bind_frame s st j
  transfer e he := ((h s).2 e he).1
  frames _ _ := by rw [(h s).1]
  input _ _ := by rw [(h s).1]
  ready hr := by rwa [(h s).1]
  renderer := by rw [(h s).1]
  pushed := by rw [(h s).1]

theorem Silent.apart (h : Silent a) (t : Thread) : Apart w (w.after t a) :=
  (show Local 0 .audioEs a w.state from h.local w.state).apart t

/-- No stream notices a silent action. -/
theorem Silent.rely (h : Silent a) (t : Thread) : LineRely size i w (w.after t a) where
  queue := ⟨[], by simp [passed_after, h.bind_frame], by simp [(h w.state).1], by simp⟩
  stages st _ := by simp [passed_after, h.bind_frame]
  ready hr := by rwa [World.after_state, (h w.state).1]
  free := by rw [World.after_state, (h w.state).1]

end Silent

/-! ## The outline -/

/-- The assertion of each phase, for an attempt that starts when `n` frames have been removed. The
phases after a null pointer, an empty queue or a frame that does not fit are not reached. -/
def LinePhase (size : Nat) (i : StreamType) (n : Nat) : Phase → FeedWorld → Prop
  | .start r, w => Line size i n [] [] [] w ∧ w.state.frames i ≠ [] ∧
      (r = true → 0 < w.state.free i)
  | .holding f r, w => Line size i n [] [] [] w ∧ (w.state.frames i).head? = some f ∧
      (r = true → 0 < w.state.free i)
  | .adjusted f, w => Line size i n [f] [] [] w ∧ (w.state.frames i).head? = some f ∧
      0 < w.state.free i
  | .synced f, w => Line size i n [f] [f] [] w ∧ (w.state.frames i).head? = some f ∧
      0 < w.state.free i
  | .written f, w => Line size i n [f] [f] [f] w ∧ (w.state.frames i).head? = some f
  | .removed, w => Line size i (n + 1) [] [] [] w
  | .absent, _ | .chunked _, _ | .nothing, _ => False

/-- The end of an attempt: it has moved the line on by one frame, or not at all. -/
def LineEnd (size : Nat) (i : StreamType) (n : Nat) (v : Int) (w : FeedWorld) : Prop :=
  (v = resultSuccess ∧ Line size i (n + 1) [] [] [] w) ∨
    (v = resultFail ∧ Line size i n [] [] [] w)

section Rules

variable {size : Nat} {i : StreamType} {n : Nat} {ph : Phase} {w v : FeedWorld} {f : Frame}

theorem LinePhase.stable (hR : LineRely size i w v) (h : LinePhase size i n ph w) :
    LinePhase size i n ph v := by
  have hfree := hR.free
  cases ph with
  | start r =>
      obtain ⟨fs, _, hframes, _⟩ := hR.queue
      refine ⟨h.1.stable hR, ?_, fun hr => (h.2.2 hr).trans_le hfree⟩
      rw [hframes]
      exact fun hnil => h.2.1 (List.append_eq_nil_iff.mp hnil).1
  | holding f r => exact ⟨h.1.stable hR, hR.head h.2.1, fun hr => (h.2.2 hr).trans_le hfree⟩
  | adjusted f => exact ⟨h.1.stable hR, hR.head h.2.1, h.2.2.trans_le hfree⟩
  | synced f => exact ⟨h.1.stable hR, hR.head h.2.1, h.2.2.trans_le hfree⟩
  | written f => exact ⟨h.1.stable hR, hR.head h.2⟩
  | removed => exact Line.stable h hR
  | absent => exact h
  | chunked f => exact h
  | nothing => exact h

theorem LineEnd.stable {m : Int} (hR : LineRely size i w v) (h : LineEnd size i n m w) :
    LineEnd size i n m v := by
  rcases h with ⟨hm, h⟩ | ⟨hm, h⟩
  · exact .inl ⟨hm, h.stable hR⟩
  · exact .inr ⟨hm, h.stable hR⟩

theorem Line.inOrder_nil {m : Nat} (h : Line size i m [] [] [] w) : InOrder i w :=
  h.inOrder (List.nil_prefix) (by simp) List.prefix_rfl List.prefix_rfl List.prefix_rfl

theorem prefix_of_head {q : List Frame} (h : q.head? = some f) : [f] <+: q := by
  obtain ⟨fs, rfl⟩ := List.head?_eq_some_iff.mp h
  exact ⟨fs, rfl⟩

theorem LinePhase.inOrder (h : LinePhase size i n ph w) : InOrder i w := by
  cases ph with
  | start r => exact h.1.inOrder_nil
  | holding f r => exact h.1.inOrder_nil
  | adjusted f =>
      exact h.1.inOrder (prefix_of_head h.2.1) le_rfl List.nil_prefix List.nil_prefix
        List.prefix_rfl
  | synced f =>
      exact h.1.inOrder (prefix_of_head h.2.1) le_rfl List.prefix_rfl List.nil_prefix
        List.nil_prefix
  | written f =>
      exact h.1.inOrder (prefix_of_head h.2) le_rfl List.prefix_rfl List.prefix_rfl
        List.prefix_rfl
  | removed => exact Line.inOrder_nil h
  | absent => exact h.elim
  | chunked f => exact h.elim
  | nothing => exact h.elim

/-- A silent action leaves an attempt where it is. -/
theorem LinePhase.silent {a : Action} (ha : Silent a) (h : LinePhase size i n ph w)
    (hfull : (a w.state).1 = some (.fed i resultFeedFull) →
      (passed (w.after (.renderer i) a) i .adjusted).length ≤ n) :
    LineGuar size i n w (w.after (.renderer i) a) ∧
      LinePhase size i n ph (w.after (.renderer i) a) := by
  have hafter : LinePhase size i n ph (w.after (.renderer i) a) := h.stable (ha.rely _)
  exact ⟨(ha.local w.state).guar hafter.inOrder (.inl (ha w.state).1) hfull, hafter⟩

/-- An action after the adjustment of a frame. -/
theorem LinePhase.act {a : Action} (ha : Local size i a w.state)
    (h : LinePhase size i n ph (w.after (.renderer i) a))
    (hn : n < (passed (w.after (.renderer i) a) i .adjusted).length)
    (hshow : (a w.state).1 ≠ some (.fed i resultFeedFull)) :
    LineGuar size i n w (w.after (.renderer i) a) ∧
      LinePhase size i n ph (w.after (.renderer i) a) :=
  ⟨ha.guar h.inOrder (.inr hn) fun hfed => absurd hfed hshow, h⟩

theorem Line.lt_adjusted {m : Nat} {a y b : List Frame} (h : Line size i m a y b w)
    (hlt : n < m + a.length) : n < (passed w i .adjusted).length := by
  rw [h.adjusted, List.length_append, h.count]
  exact hlt

theorem Line.head_fits {a y b : List Frame} {m : Nat} (h : Line size i m a y b w)
    (hf : (w.state.frames i).head? = some f) :
    f.streamType = i ∧ Fits size f.toStreamBuffer :=
  h.fits f (List.mem_of_mem_head? hf)

/-- A change of a component that keeps the size of its buffers. -/
theorem Ready.onComponent {s : Esplayer} (h : Ready size s) (c : ComponentName)
    {g : Component → Component} (hg : ∀ comp, (g comp).inputBufferSize = comp.inputBufferSize) :
    Ready size (s.onComponent c g) where
  audio := by rw [onComponent_held]; exact h.audio
  video := by rw [onComponent_held]; exact h.video
  size := by rw [onComponent_size s c _ hg]; exact h.size
  enableVideo := h.enableVideo

theorem codec_ne {j : StreamType} (h : j ≠ i) : j.codec ≠ i.codec := by
  cases i <;> cases j <;> simp_all [StreamType.codec]

theorem local_adjust (hi : f.streamType = i) (s : Esplayer) : Local size i (adjustAction f) s where
  shows st j hj := by
    cases st <;> simp [adjustAction, Stage.frame, hi, hj.symm]
  transfer e he := by cases he; rfl
  frames _ _ := rfl
  input _ _ := rfl
  ready h := ⟨h.audio, h.video, h.size, h.enableVideo⟩
  renderer := rfl
  pushed := rfl

theorem local_sync (hi : f.streamType = i) (pts : Int) (flags : BitVec 32) (used : Nat)
    (s : Esplayer) : Local size i (syncAction f pts flags used) s where
  shows st j hj := by
    cases st <;> simp [syncAction, Stage.frame, hi, hj.symm]
  transfer e he := by cases he; rfl
  frames _ _ := rfl
  input _ _ := rfl
  ready h := ⟨h.audio, h.video, h.size, h.enableVideo⟩
  renderer := rfl
  pushed := rfl

theorem local_notify (high : Bool) (s : Esplayer) : Local size i (notifyAction high) s where
  shows st j _ := by
    cases st <;> rfl
  transfer e he := by cases he; rfl
  frames _ _ := rfl
  input _ _ := rfl
  ready h := ⟨h.audio, h.video, h.size, h.enableVideo⟩
  renderer := rfl
  pushed := rfl

theorem local_write (hi : f.streamType = i) (data : List UInt8) (pts : Int) (flags : BitVec 32)
    (accept : Int) (s : Esplayer) :
    Local size i (writeAction i.codec f data pts flags accept) s where
  shows st j hj := by
    simp only [writeAction, Option.bind_some, hi]
    generalize ((s.input i.codec).writeToFreeBuffer data pts flags accept).2.2 = b
    cases st <;> cases b <;> simp [Stage.frame, hj.symm]
  transfer e he := by cases he; rfl
  frames _ _ := rfl
  input j hj := input_onComponent_ne (codec_ne hj) s _
  ready h := h.onComponent _ fun _ => rfl
  renderer := rfl
  pushed := rfl

theorem local_pop (s : Esplayer) : Local size i (popAction i) s where
  shows st j hj := by
    simp only [popAction, Option.bind_some]
    cases st <;> cases (s.frames i).head? <;> simp [Stage.frame, hj.symm]
  transfer e he := by cases he; rfl
  frames _ hj := Function.update_of_ne hj _ _
  input _ _ := rfl
  ready h := ⟨h.audio, h.video, h.size, h.enableVideo⟩
  renderer := rfl
  pushed := rfl

/-- The removal of the head, which has passed the other stages. -/
theorem Line.pop (h : Line size i n [f] [f] [f] w) (hf : (w.state.frames i).head? = some f)
    (t : Thread) : Line size i (n + 1) [] [] [] (w.after t (popAction i)) := by
  obtain ⟨fs, hfs⟩ := List.head?_eq_some_iff.mp hf
  have hshow : ∀ st, st ≠ .popped → passed (w.after t (popAction i)) i st = passed w i st := by
    intro st hst
    rw [passed_after]
    cases st <;> simp_all [popAction, Stage.frame]
  have hD : passed (w.after t (popAction i)) i .popped = passed w i .popped ++ [f] := by
    simp [passed_after, popAction, hf, Stage.frame]
  have hframes : (w.after t (popAction i)).state.frames i = fs := by
    simp [popAction, hfs]
  have hready : Ready size (w.after t (popAction i)).state :=
    ⟨h.ready.audio, h.ready.video, h.ready.size, h.ready.enableVideo⟩
  refine ⟨hready, ?_, fun g hg => ?_, ?_, ?_, ?_, ?_⟩
  · calc passed (w.after t (popAction i)) i .pushed
        = passed w i .pushed := hshow _ (by decide)
      _ = passed w i .popped ++ f :: fs := by rw [h.queue, hfs]
      _ = passed w i .popped ++ [f] ++ fs := by rw [List.append_assoc, List.singleton_append]
      _ = passed (w.after t (popAction i)) i .popped ++
            (w.after t (popAction i)).state.frames i := by rw [hD, hframes]
  · rw [hframes] at hg
    exact h.fits g (by rw [hfs]; exact List.mem_cons_of_mem f hg)
  · rw [hD, List.length_append, h.count, List.length_singleton]
  · rw [hshow _ (by decide), hD, h.adjusted, List.append_nil]
  · rw [hshow _ (by decide), hD, h.synced, List.append_nil]
  · rw [hshow _ (by decide), hD, h.submitted, List.append_nil]

end Rules

/-- **The outline of an attempt in playback.** -/
theorem lineRules (size : Nat) (i : StreamType) (n : Nat) {env : FeedEnv}
    (henv : ∀ offset, env.accept offset = 0) :
    FeedRules i env (LineRely size i) (LineGuar size i n) (LinePhase size i n) (0 ≤ ·)
      (LineEnd size i n) where
  refl := lineRely_refl size i
  stable _ _ _ hR h := h.stable hR
  stable_end _ _ _ hR h := h.stable hR
  good_nonneg _ h := h
  good_add _ _ := Int.add_nonneg
  readOnly _ w _ ha h := h.silent (silent_of_readOnly ha) fun hfed => by cases (ha w.state).2 _ hfed
  room w h hfree := ⟨h.1, h.2.1, fun _ => hfree⟩
  room_holding f w h hfree := ⟨h.1, h.2.1, fun _ => hfree⟩
  absent w h habsent := by
    have hready := h.1.ready
    -- the codecs are there throughout
    cases i with
    | audioEs => simp [StreamType.codec, hready.audio] at habsent
    | videoEs => simp [StreamType.codec, hready.video] at habsent
  clear w h := h.elim
  got r f w h hf := by
    have hholding : LinePhase size i n (.holding f r) w := ⟨h.1, hf, h.2.2⟩
    -- looking at the head shows no stage
    refine hholding.silent (silent_get i) fun hfed => ?_
    simp [getAction, hf] at hfed
  empty r w h hnone := h.2.1 (List.head?_eq_none_iff.mp hnone)
  adjust f w h := by
    obtain ⟨hline, hf, hfree⟩ := h
    have hi := (hline.head_fits hf).1
    have hafter : Line size i n [f] [] [] (w.after (.renderer i) (adjustAction f)) :=
      hline.after _ (local_adjust hi w.state).ready rfl rfl rfl
        (by simp [adjustAction, Stage.frame, hi]) rfl rfl
    have hphase : LinePhase size i n (.adjusted f) (w.after (.renderer i) (adjustAction f)) :=
      ⟨hafter, hf, hfree rfl⟩
    exact hphase.act (local_adjust hi w.state) (hafter.lt_adjusted (by simp))
        fun hfed => by cases hfed
  skip_adjust f w h henable := by
    have hready := h.1.ready.enableVideo
    rw [henable] at hready
    cases hready
  sync f pts flags used w h hlen := by
    obtain ⟨hline, hf, hfree⟩ := h
    have hi := (hline.head_fits hf).1
    have hafter : Line size i n [f] [f] [] (w.after (.renderer i) (syncAction f pts flags used)) :=
      hline.after _ (local_sync hi pts flags used w.state).ready rfl rfl rfl rfl
        (by simp [syncAction, Stage.frame, hi, Frame.nonempty, hlen]) rfl
    have hphase : LinePhase size i n (.synced f)
        (w.after (.renderer i) (syncAction f pts flags used)) := ⟨hafter, hf, hfree⟩
    exact hphase.act (local_sync hi pts flags used w.state) (hafter.lt_adjusted (by simp))
        fun hfed => by cases hfed
  skip_sync f w h hlen := by
    obtain ⟨hline, hf, hfree⟩ := h
    have hfits := (hline.head_fits hf).2.1
    rw [StreamBuffer.dataLen_eq hfits] at hlen
    -- an empty frame passes no sync, and the filter leaves it out
    have hempty : f.nonempty = false := by
      simp only [Frame.nonempty, decide_eq_false_iff_not]
      omega
    refine ⟨⟨hline.ready, hline.queue, hline.fits, hline.count, hline.adjusted, ?_,
      hline.submitted⟩, hf, hfree⟩
    rw [hline.synced, List.filter_append, List.filter_append]
    simp [hempty]
  notify f high w h := by
    obtain ⟨hline, hf, hfree⟩ := h
    have hafter : Line size i n [f] [f] [] (w.after (.renderer i) (notifyAction high)) :=
      hline.after _ (local_notify (i := i) high w.state).ready rfl rfl rfl rfl
        (by simp [notifyAction, Stage.frame]) rfl
    have hphase : LinePhase size i n (.synced f) (w.after (.renderer i) (notifyAction high)) :=
      ⟨hafter, hf, hfree⟩
    exact hphase.act (local_notify high w.state) (hafter.lt_adjusted (by simp))
        fun hfed => by cases hfed
  chunk f w hi h hsize := by
    subst hi
    obtain ⟨hline, hf, _⟩ := h
    -- the data of a video frame fits a buffer, so it is not cut into chunks
    obtain ⟨hstream, hint, hfits⟩ := hline.head_fits hf
    rw [StreamBuffer.dataLen_eq hint] at hsize
    have := hfits hstream
    have hready := hline.ready.size
    simp only [StreamType.codec] at hsize
    omega
  write f data pts flags offset w h := by
    obtain ⟨hline, hf, hfree⟩ := h
    have hi := (hline.head_fits hf).1
    -- there is a free buffer, and the component takes it
    obtain ⟨hgood, b, hb⟩ := Port.writeToFreeBuffer_accepted hfree data pts flags
    rw [henv]
    have hafter : Line size i n [f] [f] [f]
        (w.after (.renderer i) (writeAction i.codec f data pts flags 0)) :=
      hline.after _ (local_write hi data pts flags 0 w.state).ready rfl rfl rfl rfl
        (by simp [writeAction, Stage.frame])
        (by simp [writeAction, Stage.frame, hi, hb])
    have hphase : LinePhase size i n (.written f)
        (w.after (.renderer i) (writeAction i.codec f data pts flags 0)) := ⟨hafter, hf⟩
    obtain ⟨hG, hΦ⟩ :=
      hphase.act (local_write hi data pts flags 0 w.state) (hafter.lt_adjusted (by simp))
        fun hfed => by cases hfed
    exact ⟨hG, hΦ, hgood⟩
  write_chunk f data pts flags offset w h := h.elim
  unwritten f w _ h hneg := by
    have hfits := (h.1.head_fits h.2.1).2.1
    rw [StreamBuffer.dataLen_eq hfits] at hneg
    omega
  pop f w h := by
    obtain ⟨hline, hf⟩ := h
    have hafter := hline.pop hf (.renderer i)
    have hphase : LinePhase size i n .removed (w.after (.renderer i) (popAction i)) := hafter
    exact hphase.act (local_pop w.state) (hafter.lt_adjusted (by simp))
        fun hfed => by cases hfed
  fed ph m w h hm := by
    have hR : LineRely size i w (w.after (.renderer i) (fedAction i m)) := (silent_fed i m).rely _
    -- an attempt that reports a full codec has adjusted nothing
    have hfull : ∀ {j}, Line size i n [] [] [] j → (passed j i .adjusted).length ≤ n := by
      intro j hj
      rw [hj.adjusted, List.append_nil, hj.count]
    cases hm with
    | full =>
        have hline := h.1.stable hR
        exact ⟨(h.silent (silent_fed i _) fun _ => hfull hline).1, .inr ⟨rfl, hline⟩⟩
    | holdingFull f =>
        have hline := h.1.stable hR
        exact ⟨(h.silent (silent_fed i _) fun _ => hfull hline).1, .inr ⟨rfl, hline⟩⟩
    | removed hgood =>
        refine ⟨(h.silent (silent_fed i _) fun hfed => ?_).1, .inl ⟨if_pos hgood, Line.stable h hR⟩⟩
        -- what is returned after a removal is not negative
        simp only [fedAction, Option.some.injEq, Event.fed.injEq] at hfed
        rw [hfed.2] at hgood
        exact absurd hgood (by decide)
    | nothing => exact h.elim
    | endless f => exact h.elim

end DirectMedia

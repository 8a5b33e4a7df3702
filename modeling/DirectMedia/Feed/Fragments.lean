import DirectMedia.Feed.Submissions
import DirectMedia.Player.Components
import Mathlib.Algebra.BigOperators.Ring.Finset

set_option autoImplicit false

/-! # Video frames in fragments

`Feed_VideoData` cuts a frame into pieces of the size of the input buffers, while the codec may
return buffers. `feedVideoData_delivers_iff` says when a frame that it removes has been submitted as
a whole: the free buffers are counted once, before the loop, and the frame is removed whatever the
loop wrote. `feedVideoData_fragments` says what the loop does with a buffer for every piece.
-/

namespace DirectMedia

open Prog Pieces

/-! ## Flags -/

theorem translateToOmxFlags_endOfFrame (flags : BitVec 32) :
    translateToOmxFlags flags &&& bufferFlagEndOfFrame = 0 := by
  unfold translateToOmxFlags
  split
  · decide
  · decide

theorem translateToOmxFlags_eos (flags : BitVec 32) :
    translateToOmxFlags flags &&& bufferFlagEos = translateToOmxFlags flags := by
  unfold translateToOmxFlags
  split
  · decide
  · decide

theorem or_mask (flags : BitVec 32) {flag mask : BitVec 32} (hflag : flag &&& mask = 0) :
    (flags ||| flag) &&& mask = flags &&& mask := by
  rw [BitVec.and_or_distrib_right, hflag]
  exact BitVec.or_zero

/-- `setOmxFlags` sets none of the flags in the mask. -/
def LeftAlone (mask : BitVec 32) : Prop :=
  bufferFlagStartTime &&& mask = 0 ∧ bufferFlagDecodeOnly &&& mask = 0

theorem leftAlone_endOfFrame : LeftAlone bufferFlagEndOfFrame := ⟨by decide, by decide⟩

theorem leftAlone_eos : LeftAlone bufferFlagEos := ⟨by decide, by decide⟩

theorem sync_mask (s : Esplayer) (i : StreamType) (used : Nat) (flags : BitVec 32)
    {mask : BitVec 32} (hmask : LeftAlone mask) :
    (s.sync i used flags).flags &&& mask = flags &&& mask := by
  have hstart := or_mask flags hmask.1
  have hdecode := or_mask flags hmask.2
  cases i with
  | audioEs =>
      simp only [Esplayer.sync, syncAudio]
      split_ifs <;> first | assumption | rfl
  | videoEs =>
      simp only [Esplayer.sync, syncVideo]
      split_ifs <;> first | assumption | rfl

theorem setOmxFlags_yields (f : Frame) (pts : Int) (flags : BitVec 32) :
    (setOmxFlags f pts flags).Yields fun flags' =>
      ∀ mask, LeftAlone mask → flags' &&& mask = flags &&& mask := by
  refine Yields.bind (yields_true _) fun used _ => Yields.bind (yields_true _) fun _ _ => ?_
  refine Yields.bind (R := fun r : BitVec 32 × Option Bool =>
      ∀ mask, LeftAlone mask → r.1 &&& mask = flags &&& mask)
    (fun s mask hmask => sync_mask s f.streamType used flags hmask) fun decision hflags => ?_
  obtain ⟨flags, notify⟩ := decision
  cases notify with
  | some high => exact Yields.bind (yields_true _) fun _ _ => hflags
  | none => exact hflags

/-- The flags that `Feed_VideoData` starts from for the frame `f`: they do not end the frame, and
they end the stream if the client says so. -/
structure FlagsOf (f : Frame) (flags : BitVec 32) : Prop where
  endOfFrame : flags &&& bufferFlagEndOfFrame = 0
  eos : flags &&& bufferFlagEos = translateToOmxFlags f.flags

theorem videoFlags_yields (f : Frame) (pts : Int) : (videoFlags f pts).Yields (FlagsOf f) := by
  have hstart : FlagsOf f (translateToOmxFlags f.flags) :=
    ⟨translateToOmxFlags_endOfFrame f.flags, translateToOmxFlags_eos f.flags⟩
  have hflags := setOmxFlags_yields f pts (translateToOmxFlags f.flags)
  unfold videoFlags
  split
  · refine hflags.mono fun flags hsame => ⟨?_, ?_⟩
    · rw [hsame _ leftAlone_endOfFrame]
      exact hstart.endOfFrame
    · rw [hsame _ leftAlone_eos]
      exact hstart.eos
  · exact hstart

/-! ## `Feed_VideoData` -/

/-- The units and the PTS state that `adjustPtsToMicrosecond` finds. -/
def Stamped (units : PtsUnits) (p : PtsState) (s : Esplayer) : Prop :=
  s.ptsUnits = units ∧ s.pts = p

/-- How an attempt with the frame `f` ends: the frame stays in the queue or is removed, with `Q` of
what the submissions added up to and of the submissions. -/
def Ends (f : Frame) (Q : Option Int → List Submission → Prop) (r : Int) (d : FeedHistory) : Prop :=
  (removals d = [] ∧ Q none (submissions d)) ∨ (removals d = [f] ∧ Q (some r) (submissions d))

section FeedVideo

variable {e : Nat → Esplayer → Esplayer} {I J : Esplayer → Prop} {f : Frame} {env : FeedEnv}
  {units : PtsUnits} {p : PtsState} {Q : Option Int → List Submission → Prop}

theorem amidst_popBufQueue {P : List Submission → Prop} (hJ : ∀ n s, J s → J (e n s))
    (i : StreamType) (hhead : ∀ s, J s → (s.frames i).head? = some f) :
    Amidst e (Sending J P) (popBufQueue i) fun _ d _ => removals d = [f] ∧ P (submissions d) := by
  refine amidst_step fun d n s hs => ?_
  have hhead := hhead _ (hJ n s hs.player)
  rw [removals_snoc, submissions_snoc, hs.kept]
  constructor
  · show (((e n s).frames i).head?).toList = [f]
    rw [hhead]
    rfl
  · show P (submissions d ++ [])
    rw [List.append_nil]
    exact hs.sent

/-- `Feed_VideoData` with the frame, given what `writeVideo` does. -/
theorem amidst_feedVideoFrame (he : ∀ n s, I s → I (e n s))
    (haside : ∀ s t, I s → Alike s t → I t)
    (hstamp : ∀ n s, (e n s).ptsUnits = s.ptsUnits ∧ (e n s).pts = s.pts)
    (hJ : ∀ n s, J s → J (e n s)) (hhead : ∀ s, J s → (s.frames .videoEs).head? = some f)
    (hwrite : ∀ flags, FlagsOf f flags →
      Amidst e (Sending I (· = []))
        (writeVideo env f (adjustPtsToMicrosecond units f.streamType f.timestamp p).1 flags)
        fun written => Sending J (Q written)) :
    Amidst e (Sending (fun s => I s ∧ Stamped units p s) (· = [])) (feedVideoFrame env f)
      fun r d _ => Ends f Q r d := by
  have hadjust : Amidst e (Sending (fun s => I s ∧ Stamped units p s) (· = [])) (adjustFrame f)
      fun pts d s => pts = (adjustPtsToMicrosecond units f.streamType f.timestamp p).1 ∧
        Sending I (· = []) d s := by
    refine amidst_step fun d n s hs => ?_
    obtain ⟨hplayer, hunits, hpts⟩ := hs.player
    obtain ⟨hsame, hsame'⟩ := hstamp n s
    refine ⟨by rw [hsame, hsame', hunits, hpts], ?_⟩
    have haside := haside _ (adjustAction f (e n s)).2 (he n s hplayer) ⟨rfl, rfl, rfl⟩
    exact Sending.shown ⟨hplayer, hs.sent, hs.kept⟩ haside _ (aside_adjustAction f _).2
  refine Amidst.bind_and hadjust ?_
  rintro _ rfl
  refine Amidst.bind_and ((amidst_aside he haside (aside_videoFlags f _)).yields
    (videoFlags_yields f _)) fun flags hflags => ?_
  refine Amidst.bind (hwrite flags hflags) fun written => ?_
  cases written with
  | some writtenLen =>
      refine Amidst.bind (amidst_popBufQueue hJ .videoEs hhead) fun _ => ?_
      exact amidst_pure fun d s h => .inr h
  | none => exact amidst_pure fun d s h => .inl ⟨h.kept, h.sent⟩

/-- `Feed_VideoData` either finds the codec full or goes on with the frame at the head. -/
theorem amidst_feedVideoData (he : ∀ n s, I s → I (e n s))
    (hstamp : ∀ n s, (e n s).ptsUnits = s.ptsUnits ∧ (e n s).pts = s.pts)
    (hheld : ∀ s, I s → (s.component .videoCodec).isSome)
    (hhead : ∀ s, I s → (s.frames .videoEs).head? = some f)
    (hframe : Amidst e (Sending (fun s => I s ∧ Stamped units p s) (· = [])) (feedVideoFrame env f)
      fun r d _ => Ends f Q r d) :
    Amidst e (Sending (fun s => I s ∧ Stamped units p s) (· = [])) (feedVideoData env)
      fun r d _ =>
        (removals d = [] ∧ submissions d = [] ∧
          ∃ t, I t ∧ (t.input .videoCodec).getFreeBufferCount = 0) ∨ Ends f Q r d := by
  have hothers : ∀ n s, (I s ∧ Stamped units p s) → I (e n s) ∧ Stamped units p (e n s) := by
    intro n s ⟨hs, hunits, hpts⟩
    exact ⟨he n s hs, (hstamp n s).1.trans hunits, (hstamp n s).2.trans hpts⟩
  refine Amidst.bind (amidst_looks hothers looks_lockUnlessPlaying) fun _ => ?_
  refine Amidst.bind_and (amidst_read hothers fun s hs => hheld s hs.1) ?_
  rintro _ rfl
  refine Amidst.bind_and (amidst_getBufQueue hothers .videoEs fun s hs => hhead s hs.1) ?_
  rintro _ rfl
  refine Amidst.bind (amidst_looks hothers (does_query (looks_useAction _) _)) fun _ => ?_
  refine Amidst.bind (amidst_query hothers _ _) fun free => Amidst.ite (fun hfree => ?_) fun _ => ?_
  · refine amidst_pure fun d s h => ?_
    obtain ⟨hs, t, ht, hcount⟩ := h
    refine .inl ⟨hs.kept, hs.sent, t, ht.1, ?_⟩
    rw [← t.free_eq, ← hcount, hfree]
  · exact hframe.mono (fun _ _ h => h.1) fun _ _ _ h => .inr h

end FeedVideo

/-! ## Buffers that come back -/

/-- The video codec returns the buffers `returned n` before the `n`-th action. -/
def videoReturns (returned : Nat → List Nat) (n : Nat) (s : Esplayer) : Esplayer :=
  s.returnBuffers .videoCodec (returned n)

/-- The frame `f` is at the head of the queue, and the video codec is there with input buffers of
size `S`. -/
structure AtFrame (S : Nat) (f : Frame) (s : Esplayer) : Prop where
  head : (s.frames .videoEs).head? = some f
  held : (s.component .videoCodec).isSome
  size : (s.component .videoCodec).elim 0 (·.inputBufferSize) = S

section AtFrame

variable {S : Nat} {f : Frame} {s : Esplayer}

theorem AtFrame.onComponent (h : AtFrame S f s) (c : ComponentName) {g : Component → Component}
    (hg : ∀ comp, (g comp).inputBufferSize = comp.inputBufferSize) :
    AtFrame S f (s.onComponent c g) where
  head := h.head
  held := by rw [onComponent_held]; exact h.held
  size := by rw [onComponent_size s c _ hg]; exact h.size

theorem AtFrame.congr {t : Esplayer} (h : AtFrame S f s) (halike : Alike s t) :
    AtFrame S f t where
  head := by rw [halike.frames]; exact h.head
  held := by rw [halike.component]; exact h.held
  size := by rw [halike.component]; exact h.size

theorem AtFrame.returns (h : AtFrame S f s) (returned : Nat → List Nat) (n : Nat) :
    AtFrame S f (videoReturns returned n s) :=
  h.onComponent _ fun _ => rfl

theorem supply_atFrame (S : Nat) (f : Frame) (env : FeedEnv) (returned : Nat → List Nat) :
    Supply S f env (videoReturns returned) fun _ => AtFrame S f where
  head _ _ h := h.head
  held _ _ h := h.held
  size _ _ h := h.size
  others _ n _ h := h.returns returned n
  aside _ _ h := h.congr
  write _ _ _ _ _ h := h.onComponent _ fun _ => rfl

end AtFrame

/-- A call of `Feed_VideoData` while the codec returns buffers. -/
def feedVideoAmid (env : FeedEnv) (returned : Nat → List Nat) (s : Esplayer) :
    Amid Esplayer Event Int :=
  (feedVideoData env).amid (videoReturns returned) 0 s

/-- If none comes back it is the call by itself. -/
theorem feedVideoAmid_undisturbed (env : FeedEnv) (s : Esplayer) :
    ((feedVideoAmid env (fun _ => []) s).result, (feedVideoAmid env (fun _ => []) s).state) =
        (feedVideoData env).run s ∧
      (feedVideoAmid env (fun _ => []) s).events = (feedVideoData env).trace s := by
  have hreturns : videoReturns (fun _ => []) = fun _ s => s :=
    funext₂ fun _ s => returnBuffers_nil s _
  rw [feedVideoAmid, hreturns]
  exact amid_undisturbed (feedVideoData env) 0 s

/-- The PTS in microseconds of the frame `f`. -/
def Esplayer.adjustedPts (s : Esplayer) (f : Frame) : Int :=
  (adjustPtsToMicrosecond s.ptsUnits f.streamType f.timestamp s.pts).1

/-- How the call ends, given what `writeVideo` does. -/
theorem feedVideoAmid_ends {S : Nat} {f : Frame} {env : FeedEnv} {returned : Nat → List Nat}
    {I : Nat → Esplayer → Prop} (H : Supply S f env (videoReturns returned) I) {m : Nat}
    {Q : Option Int → List Submission → Prop} {s : Esplayer} (hs : I 0 s)
    (hwrite : ∀ flags, FlagsOf f flags →
      Amidst (videoReturns returned) (Sending (I 0) (· = []))
        (writeVideo env f (s.adjustedPts f) flags) fun written => Sending (I m) (Q written)) :
    (removals (feedVideoAmid env returned s).history = [] ∧
        submissions (feedVideoAmid env returned s).history = [] ∧
        ∃ t, I 0 t ∧ (t.input .videoCodec).getFreeBufferCount = 0) ∨
      Ends f Q (feedVideoAmid env returned s).result (feedVideoAmid env returned s).history := by
  have hframe := amidst_feedVideoFrame (H.others 0) H.aside (fun _ _ => ⟨rfl, rfl⟩) (H.others m)
    (H.head m) hwrite
  have hdata := amidst_feedVideoData (H.others 0) (fun _ _ => ⟨rfl, rfl⟩) (H.held 0) (H.head 0)
    hframe
  exact hdata [] 0 s ⟨⟨hs, rfl, rfl⟩, rfl, rfl⟩

/-- If the codec is not found full, the frame is submitted in pieces and removed. -/
theorem Supply.feedVideoAmid_submits {S : Nat} {f : Frame} {env : FeedEnv}
    {returned : Nat → List Nat} {I : Nat → Esplayer → Prop}
    (H : Supply S f env (videoReturns returned) I) (hS : 0 < S) (hpos : 0 < f.data.length)
    (hlen : f.data.length < 2 ^ 31) {s : Esplayer} (hs : I 0 s) :
    (removals (feedVideoAmid env returned s).history = [] ∧
        ∃ t, I 0 t ∧ (t.input .videoCodec).getFreeBufferCount = 0) ∨
      (removals (feedVideoAmid env returned s).history = [f] ∧
        ∃ flags, FlagsOf f flags ∧
          Submitted S f env I (s.adjustedPts f) flags (count S f.data.length)
            (feedVideoAmid env returned s).result
            (submissions (feedVideoAmid env returned s).history)) := by
  have hends := feedVideoAmid_ends H (m := count S f.data.length)
    (Q := fun written subs => ∃ total, written = some total ∧
      ∃ flags, FlagsOf f flags ∧
        Submitted S f env I (s.adjustedPts f) flags (count S f.data.length) total subs) hs
    fun flags hflags => (H.amidst_writeVideo hS hpos hlen _ flags).mono (fun _ _ h => h)
      fun written d t h => by
        obtain ⟨total, hwritten, hsubs⟩ := h.sent
        exact ⟨h.player, ⟨total, hwritten, flags, hflags, hsubs⟩, h.kept⟩
  obtain ⟨hkept, _, hfull⟩ | ⟨_, total, hnone, _⟩ | ⟨hremoved, total, hsome, hflags⟩ := hends
  · exact .inl ⟨hkept, hfull⟩
  · cases hnone
  · cases hsome
    exact .inr ⟨hremoved, hflags⟩

/-! ## Lengths and sizes that submit nothing -/

section Nothing

variable {f : Frame} {env : FeedEnv} {e : Nat → Esplayer → Esplayer} {I : Nat → Esplayer → Prop}

/-- A length that is negative as an `int` is taken for a frame without data. -/
theorem amidst_writeVideo_negative {P : Esplayer → Prop} (hlen : f.dataLen < 0) (pts : Int)
    (flags : BitVec 32) :
    Amidst e (Sending P (· = [])) (writeVideo env f pts flags) fun written =>
      Sending P fun subs => written = some 0 ∧ subs = [] := by
  rw [writeVideo, if_neg (by omega), if_neg (by omega)]
  exact amidst_pure fun d s h => ⟨h.player, ⟨rfl, h.sent⟩, h.kept⟩

/-- With input buffers of size 0 the loop does not end. -/
theorem amidst_writeVideo_zero {returned : Nat → List Nat} (hlen : 0 < f.dataLen) (pts : Int)
    (flags : BitVec 32) :
    Amidst (videoReturns returned) (Sending (AtFrame 0 f) (· = [])) (writeVideo env f pts flags)
      fun written => Sending (AtFrame 0 f) fun _ => written = none := by
  have H := supply_atFrame 0 f env returned
  have hloop : ∀ (fuel : Nat) (remaining : Int) (offset : Nat) (writtenLen : Int), 0 < remaining →
      Amidst (videoReturns returned) (Sending (AtFrame 0 f) fun _ => True)
        (writeChunks env f pts flags fuel remaining offset writtenLen)
        fun written => Sending (AtFrame 0 f) fun _ => written = none := by
    intro fuel
    induction fuel with
    | zero =>
        intro _ _ _ _
        exact amidst_pure fun d s h => ⟨h.player, rfl, h.kept⟩
    | succ fuel ih =>
        intro remaining offset writtenLen hrest
        refine Amidst.bind_and (H.amidst_size 0 _) ?_
        rintro _ rfl
        -- nothing is taken off what remains
        rw [Nat.cast_zero, sub_zero, if_neg (by omega)]
        refine Amidst.bind_and (H.amidst_size 0 _) fun size _ => ?_
        refine Amidst.bind (amidst_writeToFreeBuffer (J := AtFrame 0 f) (H.others 0) _ _ _ _ _ _
          fun s hs => hs.onComponent _ fun _ => rfl) fun m => ?_
        exact (ih remaining _ _ hrest).mono (fun d s h => ⟨h.player, trivial, h.kept⟩)
          fun _ _ _ h => h
  rw [writeVideo, if_pos (by omega)]
  exact (hloop _ _ _ _ hlen).mono (fun d s h => ⟨h.player, trivial, h.kept⟩) fun _ _ _ h => h

end Nothing

/-! ## No data is dropped -/

/-- The submission found a free buffer that holds the data. -/
def Finds (c : ComponentName) (data : List UInt8) (x : Submission) : Prop :=
  ∃ b, (x.state.input c).getFreeBuffer = some b ∧ data.length ≤ b.allocLen

/-- An accepted submission takes the data, or what the buffer holds of it. -/
theorem Answers.payload {c : ComponentName} {data : List UInt8} {pts : Int} {flags : BitVec 32}
    {x : Submission} (h : Answers c data pts flags 0 x) :
    x.payload <+: data ∧ (data ≠ [] → (x.payload = data ↔ Finds c data x)) := by
  rw [Submission.payload, h.buffer, Finds]
  cases hfound : (x.state.input c).getFreeBuffer with
  | none =>
      rw [Port.writeToFreeBuffer_full hfound]
      exact ⟨List.nil_prefix, fun hne => ⟨fun hnil => absurd hnil.symm hne, by simp⟩⟩
  | some b =>
      rw [(Port.writeToFreeBuffer_fill hfound data pts flags 0).2, if_pos rfl]
      simp only [Option.elim_some, Option.some.injEq, exists_eq_left']
      unfold Port.fill
      split
      case isTrue hfits => exact ⟨List.prefix_rfl, fun _ => ⟨fun _ => hfits, fun _ => rfl⟩⟩
      case isFalse hlong =>
        refine ⟨List.take_prefix _ _, fun _ => ⟨fun htake => ?_, fun hle => absurd hle hlong⟩⟩
        have := congrArg List.length htake
        simp only [List.length_take] at this
        omega

theorem dataLen_neg {b : StreamBuffer} (h : ¬ b.data.length < 2 ^ 31)
    (h' : b.data.length < 2 ^ 32) : b.dataLen < 0 := by
  unfold StreamBuffer.dataLen
  rw [Int.bmod_def]
  omega

section Delivers

variable {S : Nat} {f : Frame} {env : FeedEnv} {I : Nat → Esplayer → Prop} {pts : Int}
  {flags : BitVec 32} {total : Int} {subs : List Submission}

theorem Submitted.forall₂_pieces
    (h : Submitted S f env I pts flags (count S f.data.length) total subs) :
    List.Forall₂ (fun data x => ∃ k < count S f.data.length, data = piece S f.data k ∧
      SubmissionOf S f env I pts flags k x) (pieces S f.data) subs := by
  rw [pieces, List.forall₂_map_left_iff]
  refine List.Forall₂.imp (fun k x hx => ⟨k, List.mem_range.mp hx.1, rfl, hx.2⟩)
    (List.forall₂_and_left _ _ |>.mpr ⟨fun k hk => hk, h.each⟩)

/-- The payloads make up the frame exactly if every submission found a buffer for its piece. -/
theorem Submitted.delivers_iff (hS : 0 < S) (haccept : ∀ offset, env.accept offset = 0)
    (h : Submitted S f env I pts flags (count S f.data.length) total subs) :
    (subs.map (·.payload)).flatten = f.data ↔
      List.Forall₂ (Finds .videoCodec) (pieces S f.data) subs := by
  have hpieces : List.Forall₂ (fun data x => x.payload <+: data ∧
      (x.payload = data ↔ Finds .videoCodec data x)) (pieces S f.data) subs := by
    refine h.forall₂_pieces.imp fun data x hx => ?_
    obtain ⟨k, hk, rfl, hx⟩ := hx
    have hanswers := hx.answers
    rw [haccept] at hanswers
    have hne := piece_ne_nil hS ((lt_count_iff hS k).mp hk)
    exact ⟨hanswers.payload.1, hanswers.payload.2 hne⟩
  have hprefix : List.Forall₂ (· <+: ·) (subs.map (·.payload)) (pieces S f.data) := by
    rw [List.forall₂_map_left_iff]
    exact (hpieces.imp fun _ _ hx => hx.1).flip
  constructor
  · intro hflat
    -- prefixes of the pieces that make up the frame are the pieces
    have heq := eq_of_flatten_eq hprefix (hflat.trans (flatten_pieces hS f.data).symm)
    have hsame : List.Forall₂ (fun data x => x.payload = data) (pieces S f.data) subs := by
      rw [← heq, List.forall₂_map_left_iff, List.forall₂_same]
      exact fun _ _ => rfl
    exact List.Forall₂.mp (fun _ _ hx => hx.2.mp) hpieces hsame
  · intro hfits
    have hsame : List.Forall₂ (fun data x => data = x.payload) (pieces S f.data) subs :=
      List.Forall₂.mp (fun _ _ hx hfit => (hx.2.mpr hfit).symm) hpieces hfits
    rw [← List.forall₂_map_right_iff, List.forall₂_eq_eq_eq] at hsame
    rw [← hsame, flatten_pieces hS]

end Delivers

theorem atFrame {s : Esplayer} {f : Frame} {comp : Component}
    (hcodec : s.component .videoCodec = some comp) (hhead : (s.frames .videoEs).head? = some f) :
    AtFrame comp.inputBufferSize f s :=
  ⟨hhead, by rw [hcodec]; rfl, by rw [hcodec]; rfl⟩

theorem Ends.of_removal {f : Frame} {Q : Option Int → List Submission → Prop} {r : Int}
    {d : FeedHistory} {P : Prop} (h : (removals d = [] ∧ P) ∨ Ends f Q r d) (hf : f ∈ removals d) :
    Q (some r) (submissions d) := by
  have hne : removals d ≠ [] := List.ne_nil_of_mem hf
  obtain ⟨hkept, _⟩ | ⟨hkept, _⟩ | ⟨_, hQ⟩ := h
  · exact absurd hkept hne
  · exact absurd hkept hne
  · exact hQ

/-- A frame that `Feed_VideoData` removes has been submitted as a whole exactly if its length is
positive as an `int` and every submission found a free buffer that holds its piece. -/
theorem feedVideoData_delivers_iff (env : FeedEnv) (haccept : ∀ offset, env.accept offset = 0)
    (returned : Nat → List Nat) (s : Esplayer) (f : Frame) (comp : Component)
    (hcodec : s.component .videoCodec = some comp)
    (hhead : (s.frames .videoEs).head? = some f) (hpos : 0 < f.data.length)
    (hlen : f.data.length < 2 ^ 32)
    (hremoved : f ∈ removals (feedVideoAmid env returned s).history) :
    ((submissions (feedVideoAmid env returned s).history).map (·.payload)).flatten = f.data ↔
      f.data.length < 2 ^ 31 ∧
        List.Forall₂ (Finds .videoCodec) (pieces comp.inputBufferSize f.data)
          (submissions (feedVideoAmid env returned s).history) := by
  have hat := atFrame hcodec hhead
  have H := supply_atFrame comp.inputBufferSize f env returned
  by_cases hsmall : f.data.length < 2 ^ 31
  · have hdata : f.dataLen = f.data.length := StreamBuffer.dataLen_eq hsmall
    obtain hzero | hS := Nat.eq_zero_or_pos comp.inputBufferSize
    · -- the call does not return, so the frame is not removed
      rw [hzero] at hat
      have hends := feedVideoAmid_ends (supply_atFrame 0 f env returned) (m := 0) hat
        fun flags _ => amidst_writeVideo_zero (by omega) _ flags
      exact absurd (Ends.of_removal hends hremoved) (by simp)
    · have hends := H.feedVideoAmid_submits hS hpos hsmall hat
      obtain ⟨hkept, _⟩ | ⟨_, flags, _, hsubmitted⟩ := hends
      · exact absurd hkept (List.ne_nil_of_mem hremoved)
      · rw [hsubmitted.delivers_iff hS haccept]
        exact ⟨fun h => ⟨hsmall, h⟩, fun h => h.2⟩
  · -- the frame is removed, and nothing of it was submitted
    have hends := feedVideoAmid_ends H (m := 0) hat fun flags _ =>
      amidst_writeVideo_negative (dataLen_neg hsmall hlen) _ flags
    have hsubs := (Ends.of_removal hends hremoved).2
    rw [hsubs]
    have hne : f.data ≠ [] := List.length_pos_iff.mp hpos
    exact ⟨fun h => absurd h.symm hne, fun h => absurd h.1 hsmall⟩

/-- A playing player with the frame `f` and a video codec with the input buffers `port`. -/
def videoPlayer (size : Nat) (port : Port) (f : Frame) : Esplayer :=
  { status := .playing
    component := fun c => if c = .videoCodec then some { inputBufferSize := size, input := port }
      else none
    frames := fun i => if i = .videoEs then [f] else [] }

/-- A video frame of two bytes. -/
def videoBytes : Frame := ⟨{ data := [1, 2], streamType := .videoEs }, 0⟩

theorem feedVideoData_delivers_iff_two :
    ((submissions (feedVideoAmid {} (fun _ => [])
        (videoPlayer 1 [{ allocLen := 1 }, { allocLen := 1 }] videoBytes)).history).map
          (·.payload)).flatten = videoBytes.data ↔
      videoBytes.data.length < 2 ^ 31 ∧
        List.Forall₂ (Finds .videoCodec) (pieces 1 videoBytes.data)
          (submissions (feedVideoAmid {} (fun _ => [])
            (videoPlayer 1 [{ allocLen := 1 }, { allocLen := 1 }] videoBytes)).history) :=
  feedVideoData_delivers_iff {} (fun _ => rfl) (fun _ => [])
    (videoPlayer 1 [{ allocLen := 1 }, { allocLen := 1 }] videoBytes) videoBytes
    { inputBufferSize := 1, input := [{ allocLen := 1 }, { allocLen := 1 }] } rfl rfl (by decide)
    (by decide) (by decide)

/-- With one free buffer for two pieces the second is lost: its `-1` cancels the first length, and
the frame is removed. -/
theorem feedVideoData_drops :
    removals (feedVideoAmid {} (fun _ => [])
        (videoPlayer 1 [{ allocLen := 1 }] videoBytes)).history = [videoBytes] ∧
      ((submissions (feedVideoAmid {} (fun _ => [])
        (videoPlayer 1 [{ allocLen := 1 }] videoBytes)).history).map (·.payload)).flatten ≠
          videoBytes.data ∧
      (feedVideoAmid {} (fun _ => [])
        (videoPlayer 1 [{ allocLen := 1 }] videoBytes)).result = 0 :=
  ⟨by decide, by decide, by decide⟩

/-! ## With buffers for all pieces -/

theorem input_onComponent {s : Esplayer} {c : ComponentName} (h : (s.component c).isSome)
    (g : Component → Component) {k : Port → Port} (hg : ∀ comp, (g comp).input = k comp.input) :
    (s.onComponent c g).input c = k (s.input c) := by
  obtain ⟨comp, hcomp⟩ := Option.isSome_iff_exists.mp h
  simp [Esplayer.input, Esplayer.onComponent, hcomp, hg]

/-- The frame is at the head, the first `n` free buffers hold a piece each, and so do the buffers
that may come back. -/
structure Provided (S : Nat) (f : Frame) (sizes : List Nat) (n : Nat) (s : Esplayer) : Prop where
  base : AtFrame S f s
  free : Port.FirstFree S n (s.input .videoCodec)
  sizes : (s.input .videoCodec).map (·.allocLen) = sizes

theorem firstFree_returns {S n : Nat} {sizes : List Nat} (indices : List Nat)
    (hback : ∀ index ∈ indices, ∀ size, sizes[index]? = some size → S ≤ size) {port : Port}
    (h : Port.FirstFree S n port) (hsizes : port.map (·.allocLen) = sizes) :
    Port.FirstFree S n (indices.foldl Port.emptyBufferDone port) ∧
      (indices.foldl Port.emptyBufferDone port).map (·.allocLen) = sizes := by
  induction indices generalizing port with
  | nil => exact ⟨h, hsizes⟩
  | cons index indices ih =>
      refine ih (fun i hi => hback i (List.mem_cons_of_mem _ hi)) ?_ ?_
      · refine h.emptyBufferDone fun b hb => hback index List.mem_cons_self b.allocLen ?_
        rw [← hsizes, List.getElem?_map, hb]
        rfl
      · rw [Port.emptyBufferDone_sizes, hsizes]

section Provided

variable {S : Nat} {f : Frame} {sizes : List Nat} {env : FeedEnv} {returned : Nat → List Nat}

theorem supply_provided (haccept : ∀ offset, env.accept offset = 0)
    (hback : ∀ n, ∀ index ∈ returned n, ∀ size, sizes[index]? = some size → S ≤ size) :
    Supply S f env (videoReturns returned) fun k => Provided S f sizes (count S f.data.length - k)
    where
  head _ _ h := h.base.head
  held _ _ h := h.base.held
  size _ _ h := h.base.size
  others k n s h := by
    have hinput : (videoReturns returned n s).input .videoCodec =
        (returned n).foldl Port.emptyBufferDone (s.input .videoCodec) :=
      input_onComponent h.base.held _ (k := (returned n).foldl Port.emptyBufferDone) fun _ => rfl
    obtain ⟨hfree, hsizes⟩ := firstFree_returns (returned n) (hback n) h.free h.sizes
    refine ⟨h.base.returns returned n, ?_, ?_⟩
    · rwa [hinput]
    · rwa [hinput]
  aside s t h halike := by
    have hinput : t.input .videoCodec = s.input .videoCodec := by
      rw [Esplayer.input, Esplayer.input, halike.component]
    refine ⟨h.base.congr halike, ?_, ?_⟩
    · rw [hinput]; exact h.free
    · rw [hinput]; exact h.sizes
  write k s pts flags hk h := by
    rw [haccept]
    have hinput : (writeAction .videoCodec f (piece S f.data k) pts flags 0 s).2.input .videoCodec =
        ((s.input .videoCodec).writeToFreeBuffer (piece S f.data k) pts flags 0).2.1 :=
      input_onComponent h.base.held _ (k := fun _ => _) fun _ => rfl
    have hfree := h.free
    rw [show count S f.data.length - k = count S f.data.length - (k + 1) + 1 by omega] at hfree
    refine ⟨h.base.onComponent _ fun _ => rfl, ?_, ?_⟩
    · rw [hinput]
      exact (hfree.write _ _ _).2
    · rw [hinput, Port.writeToFreeBuffer_sizes, h.sizes]

/-- The buffer holds the piece number `k` of the frame. -/
structure Fragment (S : Nat) (f : Frame) (pts : Int) (k : Nat) (b : Buffer) : Prop where
  bytes : b.bytes = piece S f.data k
  filledLen : b.filledLen = b.bytes.length
  timeStamp : b.timeStamp = pts
  endOfFrame : b.flags &&& bufferFlagEndOfFrame ≠ 0 ↔ k + 1 = count S f.data.length

theorem pieceFlags_endOfFrame {flags : BitVec 32} (h : flags &&& bufferFlagEndOfFrame = 0)
    (k : Nat) :
    pieceFlags S f flags k &&& bufferFlagEndOfFrame ≠ 0 ↔ k + 1 = count S f.data.length := by
  unfold pieceFlags
  split
  case isTrue hlast =>
    refine iff_of_true ?_ hlast
    rw [BitVec.and_or_distrib_right, h]
    decide
  case isFalse hmore => exact iff_of_false (fun hne => hne h) hmore

/-- A submission with a buffer provided is a fragment, and its result is the length. -/
theorem SubmissionOf.fragment {pts : Int} {flags : BitVec 32} {k : Nat} {x : Submission}
    (haccept : ∀ offset, env.accept offset = 0) (hk : k < count S f.data.length)
    (hflags : flags &&& bufferFlagEndOfFrame = 0)
    (h : SubmissionOf S f env (fun k => Provided S f sizes (count S f.data.length - k)) pts flags
      k x) :
    ∃ b, x.buffer = some b ∧ Fragment S f pts k b ∧ x.result = (piece S f.data k).length := by
  have hfree := h.player.free
  rw [show count S f.data.length - k = count S f.data.length - (k + 1) + 1 by omega] at hfree
  obtain ⟨⟨b, hfound, hsize⟩, _⟩ := hfree.write (piece S f.data k) pts flags
  have hfits := (length_piece_le S f.data k).trans hsize
  have hanswers := h.answers
  rw [haccept] at hanswers
  obtain ⟨hresult, hbuffer⟩ := Port.writeToFreeBuffer_fill hfound (piece S f.data k) pts
    (pieceFlags S f flags k) 0
  rw [if_pos rfl, Port.fill, if_pos hfits] at hresult hbuffer
  refine ⟨_, hanswers.buffer.trans hbuffer, ⟨rfl, rfl, rfl, pieceFlags_endOfFrame hflags k⟩, ?_⟩
  exact hanswers.result.trans hresult

theorem Submitted.fragments {pts : Int} {flags : BitVec 32} {total : Int}
    {subs : List Submission} (haccept : ∀ offset, env.accept offset = 0) (hS : 0 < S)
    (hflags : flags &&& bufferFlagEndOfFrame = 0)
    (h : Submitted S f env (fun k => Provided S f sizes (count S f.data.length - k)) pts flags
      (count S f.data.length) total subs) :
    total = f.data.length ∧ ∃ bufs : List Buffer, subs.map (·.buffer) = bufs.map some ∧
      List.Forall₂ (Fragment S f pts) (List.range (count S f.data.length)) bufs := by
  have heach : List.Forall₂ (fun k (x : Submission) => ∃ b, x.buffer = some b ∧
      Fragment S f pts k b ∧ x.result = (piece S f.data k).length)
      (List.range (count S f.data.length)) subs :=
    (List.forall₂_and_left _ _ |>.mpr ⟨fun k hk => hk, h.each⟩).imp fun k x hx =>
      hx.2.fragment haccept (List.mem_range.mp hx.1) hflags
  constructor
  · have hresults : (subs.map (·.result)) = (pieces S f.data).map fun p => (p.length : Int) := by
      rw [← List.forall₂_eq_eq_eq, List.forall₂_map_left_iff, List.forall₂_map_right_iff, pieces,
        List.forall₂_map_right_iff]
      refine (heach.imp ?_).flip
      rintro k x ⟨b, _, _, hresult⟩
      exact hresult
    have hsum : ((pieces S f.data).map fun p => (p.length : Int)).sum =
        (pieces S f.data).flatten.length := by
      rw [List.length_flatten, Nat.cast_list_sum, List.map_map]
      rfl
    rw [h.sum, hresults, hsum, flatten_pieces hS]
  · generalize List.range (count S f.data.length) = ks at heach
    clear h
    induction heach with
    | nil => exact ⟨[], rfl, .nil⟩
    | cons hx _ ih =>
        obtain ⟨b, hb, hfragment, _⟩ := hx
        obtain ⟨bufs, hbufs, hrest⟩ := ih
        exact ⟨b :: bufs, by rw [List.map_cons, List.map_cons, hb, hbufs], .cons hfragment hrest⟩

end Provided

/-- The buffers are the frame in pieces: as many as it takes, together its data, each of at most `S`
bytes, all with the PTS, and the last one ends the frame. -/
structure Fragmented (S : Nat) (f : Frame) (pts : Int) (bufs : List Buffer) : Prop where
  length : bufs.length = count S f.data.length
  data : (bufs.map (·.bytes)).flatten = f.data
  bytes : ∀ b ∈ bufs, b.filledLen = b.bytes.length ∧ b.bytes.length ≤ S
  timeStamp : ∀ b ∈ bufs, b.timeStamp = pts
  endOfFrame : ∀ (k : Nat) (h : k < bufs.length),
    bufs[k].flags &&& bufferFlagEndOfFrame ≠ 0 ↔ k + 1 = bufs.length

theorem fragmented {S : Nat} {f : Frame} {pts : Int} {bufs : List Buffer} (hS : 0 < S)
    (h : List.Forall₂ (Fragment S f pts) (List.range (count S f.data.length)) bufs) :
    Fragmented S f pts bufs := by
  have hlength : bufs.length = count S f.data.length := by
    rw [← h.length_eq, List.length_range]
  have heach : ∀ (k : Nat) (hk : k < bufs.length), Fragment S f pts k bufs[k] := by
    intro k hk
    have hget := h.get (by rw [List.length_range, ← hlength]; exact hk) hk
    simpa using hget
  have hmem : ∀ b ∈ bufs, ∃ k, Fragment S f pts k b := by
    intro b hb
    obtain ⟨k, hk, rfl⟩ := List.getElem_of_mem hb
    exact ⟨k, heach k hk⟩
  refine ⟨hlength, ?_, fun b hb => ?_, fun b hb => ?_, fun k hk => ?_⟩
  · have hbytes : bufs.map (·.bytes) = pieces S f.data := by
      rw [← List.forall₂_eq_eq_eq, List.forall₂_map_left_iff, pieces, List.forall₂_map_right_iff]
      exact (h.imp fun k b hb => hb.bytes).flip
    rw [hbytes, flatten_pieces hS]
  · obtain ⟨k, hfragment⟩ := hmem b hb
    refine ⟨hfragment.filledLen, ?_⟩
    rw [hfragment.bytes]
    exact length_piece_le S f.data k
  · obtain ⟨k, hfragment⟩ := hmem b hb
    exact hfragment.timeStamp
  · rw [hlength]
    exact (heach k hk).endOfFrame

/-- **Fragmentation.** If the first free buffers, as many as the frame has pieces, and the buffers
that come back hold a piece each, `Feed_VideoData` submits the frame in pieces, removes it and
returns its length. -/
theorem feedVideoData_fragments (env : FeedEnv) (haccept : ∀ offset, env.accept offset = 0)
    (returned : Nat → List Nat) (s : Esplayer) (f : Frame) (comp : Component)
    (hcodec : s.component .videoCodec = some comp)
    (hhead : (s.frames .videoEs).head? = some f) (hpos : 0 < f.data.length)
    (hlen : f.data.length < 2 ^ 31) (hS : 0 < comp.inputBufferSize)
    (hfree : comp.input.FirstFree comp.inputBufferSize
      (count comp.inputBufferSize f.data.length))
    (hback : ∀ n, ∀ index ∈ returned n, ∀ b, comp.input[index]? = some b →
      comp.inputBufferSize ≤ b.allocLen) :
    (feedVideoAmid env returned s).result = f.data.length ∧
      removals (feedVideoAmid env returned s).history = [f] ∧
      ∃ bufs : List Buffer,
        (submissions (feedVideoAmid env returned s).history).map (·.buffer) = bufs.map some ∧
          Fragmented comp.inputBufferSize f (s.adjustedPts f) bufs := by
  have hinput : s.input .videoCodec = comp.input := by rw [Esplayer.input, hcodec]; rfl
  have hback' : ∀ n, ∀ index ∈ returned n, ∀ size,
      (comp.input.map (·.allocLen))[index]? = some size → comp.inputBufferSize ≤ size := by
    intro n index hindex size hsize
    rw [List.getElem?_map, Option.map_eq_some_iff] at hsize
    obtain ⟨b, hb, rfl⟩ := hsize
    exact hback n index hindex b hb
  have H := supply_provided (f := f) haccept hback'
  have hs : Provided comp.inputBufferSize f (comp.input.map (·.allocLen))
      (count comp.inputBufferSize f.data.length - 0) s :=
    ⟨atFrame hcodec hhead, by rwa [hinput], by rw [hinput]⟩
  obtain ⟨_, t, ht, hfull⟩ | ⟨hremoved, flags, hflags, hsubmitted⟩ :=
    H.feedVideoAmid_submits hS hpos hlen hs
  · -- the first of the buffers provided is free
    have hfree := ht.free
    rw [show count comp.inputBufferSize f.data.length - 0 =
      count comp.inputBufferSize f.data.length - 1 + 1 by
        have := count_pos hS hpos
        omega] at hfree
    obtain ⟨⟨b, hb, _⟩, _⟩ := hfree.write [] 0 0
    have := (Port.getFreeBuffer_isSome_iff _).mp (Option.isSome_iff_exists.mpr ⟨b, hb⟩)
    omega
  · obtain ⟨htotal, bufs, hbufs, hfragments⟩ := hsubmitted.fragments haccept hS hflags.endOfFrame
    exact ⟨htotal, hremoved, bufs, hbufs, fragmented hS hfragments⟩

theorem feedVideoData_fragments_two :
    (feedVideoAmid {} (fun _ => [])
        (videoPlayer 1 [{ allocLen := 1 }, { allocLen := 1 }] videoBytes)).result =
          videoBytes.data.length ∧
      removals (feedVideoAmid {} (fun _ => [])
        (videoPlayer 1 [{ allocLen := 1 }, { allocLen := 1 }] videoBytes)).history =
          [videoBytes] ∧
      ∃ bufs : List Buffer,
        (submissions (feedVideoAmid {} (fun _ => [])
          (videoPlayer 1 [{ allocLen := 1 }, { allocLen := 1 }] videoBytes)).history).map
            (·.buffer) = bufs.map some ∧
        Fragmented 1 videoBytes ((videoPlayer 1 [{ allocLen := 1 }, { allocLen := 1 }]
          videoBytes).adjustedPts videoBytes) bufs :=
  feedVideoData_fragments {} (fun _ => rfl) (fun _ => [])
    (videoPlayer 1 [{ allocLen := 1 }, { allocLen := 1 }] videoBytes) videoBytes
    { inputBufferSize := 1, input := [{ allocLen := 1 }, { allocLen := 1 }] } rfl rfl (by decide)
    (by decide) (by decide) ⟨le_refl 1, le_refl 1, trivial⟩ (fun _ _ h => absurd h (by simp))

/-- A free buffer that holds the frame is not enough if a smaller one comes first. -/
theorem feedVideoData_cuts :
    count 2 videoBytes.data.length ≤
        List.countP (fun b : Buffer => b.status = .ownedByClient ∧ 2 ≤ b.allocLen)
          [{ allocLen := 1 }, { allocLen := 2 }] ∧
      (feedVideoAmid {} (fun _ => [])
        (videoPlayer 2 [{ allocLen := 1 }, { allocLen := 2 }] videoBytes)).result ≠
          videoBytes.data.length ∧
      ((submissions (feedVideoAmid {} (fun _ => [])
        (videoPlayer 2 [{ allocLen := 1 }, { allocLen := 2 }] videoBytes)).history).map
          (·.payload)).flatten ≠ videoBytes.data :=
  ⟨by decide, by decide, by decide⟩

end DirectMedia

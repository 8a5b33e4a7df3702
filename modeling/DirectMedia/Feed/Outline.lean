import DirectMedia.Feed.System

set_option autoImplicit false

/-! # The outline of an attempt

`Feed_VideoData` and `Feed_AudioData` go through the same phases: they look for room in the codec
and for a frame, adjust its PTS, decide on its flags, submit its data and remove the frame. They
differ in the order of the first two and in how the data is submitted.

`FeedRules` lists what has to be shown of an assertion for each phase, one field for one kind of
action or test. `FeedRules.feedMessage` goes through the programs once: an attempt that starts in
the first phase takes its actions as the rules say and ends in one of the last phases.
-/

namespace DirectMedia

open Prog

/-- Where an attempt to feed a frame stands. `room` is set once a free buffer was seen. -/
inductive Phase where
  | start (room : Bool)
  /-- the pointer of the codec was found null -/
  | absent
  | holding (f : Frame) (room : Bool)
  | adjusted (f : Frame)
  | synced (f : Frame)
  /-- the data needs more than one buffer -/
  | chunked (f : Frame)
  | written (f : Frame)
  | removed
  /-- the queue was found empty, or was cleared -/
  | nothing
  deriving DecidableEq, Repr

/-- The phases an attempt can end in, with the value it returns there; `Good` is what is known of
the number of bytes written. -/
inductive Phase.Returns (Good : Int → Prop) : Phase → Int → Prop
  | full : Returns Good (.start false) resultFeedFull
  | holdingFull (f : Frame) : Returns Good (.holding f false) resultFeedFull
  | removed {n : Int} (h : Good n) : Returns Good .removed n
  | nothing : Returns Good .nothing 0
  | endless (f : Frame) : Returns Good (.chunked f) 0

/-- An action that changes nothing and at most tells of the use of a component. -/
def ReadOnly (a : Action) : Prop := ∀ s, (a s).2 = s ∧ ∀ e, (a s).1 = some e → e.isUse = true

theorem readOnly_read : ReadOnly fun s => (none, s) := fun _ => ⟨rfl, fun _ h => by cases h⟩

theorem readOnly_use (c : ComponentName) : ReadOnly (useAction c) :=
  fun _ => ⟨rfl, fun _ h => by cases h; rfl⟩

def clearAction (i : StreamType) : Action := fun s =>
  (some (.cleared i), { s with frames := Function.update s.frames i [] })

def fedAction (i : StreamType) (n : Int) : Action := fun s => (some (.fed i n), s)

/-- The world of the threads that feed. -/
abbrev FeedWorld := World Thread Esplayer Event

/-- What has to be shown of the assertions `Φ` to use them as an outline of an attempt for the
stream `i`, with `Ψ` at its end. -/
structure FeedRules (i : StreamType) (env : FeedEnv) (R G : FeedWorld → FeedWorld → Prop)
    (Φ : Phase → FeedWorld → Prop) (Good : Int → Prop) (Ψ : Int → FeedWorld → Prop) :
    Prop where
  refl : ∀ w, R w w
  stable : ∀ ph w v, R w v → Φ ph w → Φ ph v
  stable_end : ∀ n w v, R w v → Ψ n w → Ψ n v
  good_nonneg : ∀ n, 0 ≤ n → Good n
  good_add : ∀ m n, Good m → Good n → Good (m + n)
  readOnly : ∀ ph w a, ReadOnly a → Φ ph w →
    G w (w.after (.renderer i) a) ∧ Φ ph (w.after (.renderer i) a)
  room : ∀ w, Φ (.start false) w → 0 < (w.state.input i.codec).getFreeBufferCount →
    Φ (.start true) w
  room_holding : ∀ f w, Φ (.holding f false) w →
    0 < (w.state.input i.codec).getFreeBufferCount → Φ (.holding f true) w
  absent : ∀ w, Φ (.start false) w → (w.state.component i.codec).isSome = false → Φ .absent w
  clear : ∀ w, Φ .absent w →
    G w (w.after (.renderer i) (clearAction i)) ∧ Φ .nothing (w.after (.renderer i) (clearAction i))
  got : ∀ r f w, Φ (.start r) w → (w.state.frames i).head? = some f →
    G w (w.after (.renderer i) (getAction i)) ∧
      Φ (.holding f r) (w.after (.renderer i) (getAction i))
  empty : ∀ r w, Φ (.start r) w → (w.state.frames i).head? = none → Φ .nothing w
  adjust : ∀ f w, Φ (.holding f true) w →
    G w (w.after (.renderer i) (adjustAction f)) ∧
      Φ (.adjusted f) (w.after (.renderer i) (adjustAction f))
  skip_adjust : ∀ f w, Φ (.holding f true) w → w.state.enableVideo = false → Φ (.adjusted f) w
  sync : ∀ f pts flags used w, Φ (.adjusted f) w → 0 < f.data.length →
    G w (w.after (.renderer i) (syncAction f pts flags used)) ∧
      Φ (.synced f) (w.after (.renderer i) (syncAction f pts flags used))
  skip_sync : ∀ f w, Φ (.adjusted f) w → f.dataLen ≤ 0 → Φ (.synced f) w
  notify : ∀ f high w, Φ (.synced f) w →
    G w (w.after (.renderer i) (notifyAction high)) ∧
      Φ (.synced f) (w.after (.renderer i) (notifyAction high))
  chunk : ∀ f w, i = .videoEs → Φ (.synced f) w →
    ((w.state.component i.codec).elim 0 (·.inputBufferSize) : Nat) < f.dataLen → Φ (.chunked f) w
  write : ∀ f data pts flags offset w, Φ (.synced f) w →
    G w (w.after (.renderer i) (writeAction i.codec f data pts flags (env.accept offset))) ∧
      Φ (.written f)
        (w.after (.renderer i) (writeAction i.codec f data pts flags (env.accept offset))) ∧
      Good ((w.state.input i.codec).writeToFreeBuffer data pts flags (env.accept offset)).1
  write_chunk : ∀ f data pts flags offset w, Φ (.chunked f) w →
    G w (w.after (.renderer i) (writeAction i.codec f data pts flags (env.accept offset))) ∧
      Φ (.chunked f)
        (w.after (.renderer i) (writeAction i.codec f data pts flags (env.accept offset))) ∧
      Φ (.written f)
        (w.after (.renderer i) (writeAction i.codec f data pts flags (env.accept offset))) ∧
      Good ((w.state.input i.codec).writeToFreeBuffer data pts flags (env.accept offset)).1
  unwritten : ∀ f w, i = .videoEs → Φ (.synced f) w → f.dataLen < 0 → Φ (.written f) w
  pop : ∀ f w, Φ (.written f) w →
    G w (w.after (.renderer i) (popAction i)) ∧ Φ .removed (w.after (.renderer i) (popAction i))
  fed : ∀ ph n w, Φ ph w → ph.Returns Good n →
    G w (w.after (.renderer i) (fedAction i n)) ∧
      Ψ (if n ≥ 0 then resultSuccess else resultFail) (w.after (.renderer i) (fedAction i n))

attribute [local irreducible] StreamBuffer.dataLen

namespace FeedRules

variable {i : StreamType} {env : FeedEnv} {R G : FeedWorld → FeedWorld → Prop}
  {Φ : Phase → FeedWorld → Prop} {Good : Int → Prop} {Ψ : Int → FeedWorld → Prop}
  {w : FeedWorld} {α β : Type} {Q : α → FeedWorld → Prop} {ph : Phase}

/-- A read-only action keeps the phase and the player. -/
theorem readOnly_bind (H : FeedRules i env R G Φ Good Ψ) {a : Action} (ha : ReadOnly a)
    {k : Esplayer → Op β} {g : β → Op α} (h : Φ ph w)
    (hk : ∀ v, Φ ph v → Ensures (.renderer i) R G Q (k v.state >>= g) v) :
    Ensures (.renderer i) R G Q (act a k >>= g) w := by
  intro v hv
  obtain ⟨hG, hΦ⟩ := H.readOnly ph v a ha (H.stable ph w v hv h)
  refine ⟨hG, ?_⟩
  have hstate : (v.after (.renderer i) a).state = v.state := (ha v.state).1
  have := hk _ hΦ
  rwa [hstate] at this

theorem read_bind (H : FeedRules i env R G Φ Good Ψ) {f : Esplayer → β} {g : β → Op α}
    (h : Φ ph w) (hg : ∀ v, Φ ph v → Ensures (.renderer i) R G Q (g (f v.state)) v) :
    Ensures (.renderer i) R G Q (read f >>= g) w :=
  H.readOnly_bind readOnly_read h hg

theorem query_bind (H : FeedRules i env R G Φ Good Ψ) {c : ComponentName} {f : Component → Nat}
    {g : Nat → Op α} (h : Φ ph w)
    (hg : ∀ v, Φ ph v → Ensures (.renderer i) R G Q (g ((v.state.component c).elim 0 f)) v) :
    Ensures (.renderer i) R G Q (query c f >>= g) w :=
  H.readOnly_bind (readOnly_use c) h hg

theorem ensures_pure (H : FeedRules i env R G Φ Good Ψ) {a : α} (h : Φ ph w)
    (hQ : ∀ v, Φ ph v → Q a v) : Ensures (.renderer i) R G Q (pure a : Op α) w :=
  fun v hv => hQ v (H.stable ph w v hv h)

theorem lockUnlessPlaying_bind (H : FeedRules i env R G Φ Good Ψ) {g : Unit → Op α} (h : Φ ph w)
    (hg : ∀ v, Φ ph v → Ensures (.renderer i) R G Q (g ()) v) :
    Ensures (.renderer i) R G Q (lockUnlessPlaying >>= g) w := by
  refine Ensures.bind H.refl (M := fun _ => Φ ph) ?_ fun _ v hv => hg v hv
  refine H.read_bind h fun v hv => ?_
  refine Ensures.ite (fun _ => ?_) fun _ => ?_
  · exact H.ensures_pure hv fun _ hu => hu
  · exact H.ensures_pure hv fun _ hu => hu

theorem ensures_setOmxFlags (H : FeedRules i env R G Φ Good Ψ) {f : Frame} (pts : Int)
    (flags : BitVec 32) (h : Φ (.adjusted f) w) (hlen : 0 < f.data.length) :
    Ensures (.renderer i) R G (fun _ => Φ (.synced f)) (setOmxFlags f pts flags) w := by
  refine H.query_bind h fun v hv => ?_
  refine H.query_bind hv fun u hu => ?_
  refine Ensures.act_bind fun w hw => ?_
  obtain ⟨hG, hΦ⟩ := H.sync f pts flags ((v.state.component .videoCodec).elim 0
    (·.input.getUsedBufferCount)) w (H.stable _ _ _ hw hu) hlen
  refine ⟨hG, Ensures.ret_bind ?_⟩
  dsimp only
  split
  case h_1 high _ =>
      refine Ensures.act_bind fun u hu => ?_
      obtain ⟨hG, hΦ⟩ := H.notify f high u (H.stable _ _ _ hu hΦ)
      exact ⟨hG, H.ensures_pure hΦ fun _ h => h⟩
  case h_2 => exact H.ensures_pure hΦ fun _ h => h

/-- A submission leads from one phase to another if the action does. -/
theorem ensures_write (H : FeedRules i env R G Φ Good Ψ) {f : Frame} {data : List UInt8} {pts : Int}
    {flags : BitVec 32} {accept : Int} {A : FeedWorld → Prop} (hA : ∀ w v, R w v → A w → A v)
    (h : Φ ph w)
    (hwrite : ∀ v, Φ ph v →
      G v (v.after (.renderer i) (writeAction i.codec f data pts flags accept)) ∧
        A (v.after (.renderer i) (writeAction i.codec f data pts flags accept)) ∧
        Good ((v.state.input i.codec).writeToFreeBuffer data pts flags accept).1) :
    Ensures (.renderer i) R G (fun n v => A v ∧ Good n)
      (writeToFreeBuffer i.codec f data pts flags accept) w := by
  refine H.query_bind h fun v hv u hu => ?_
  obtain ⟨hG, hA', hgood⟩ := hwrite u (H.stable _ _ _ hu hv)
  exact ⟨hG, fun u' hu' => ⟨hA _ _ hu' hA', hgood⟩⟩

/-! ## Feed_VideoData -/

/-- After the submissions of a frame: all of its data is written, or the loop does not end. -/
def Wrote (Φ : Phase → FeedWorld → Prop) (Good : Int → Prop) (f : Frame) :
    Option Int → FeedWorld → Prop
  | some n, w => Φ (.written f) w ∧ Good n
  | none, w => Φ (.chunked f) w

theorem ensures_writeChunks (H : FeedRules .videoEs env R G Φ Good Ψ) {f : Frame} (pts : Int)
    (flags : BitVec 32) (fuel : Nat) :
    ∀ remaining offset writtenLen w, Φ (.chunked f) w → Good writtenLen →
      Ensures (.renderer .videoEs) R G (Wrote Φ Good f)
        (writeChunks env f pts flags fuel remaining offset writtenLen) w := by
  induction fuel with
  | zero => exact fun _ _ _ w h _ => H.ensures_pure h fun _ h => h
  | succ fuel ih =>
      intro remaining offset writtenLen w h hgood
      refine H.query_bind h fun v hv => ?_
      refine Ensures.ite (fun _ => ?_) fun _ => ?_
      · refine Ensures.bind H.refl (H.ensures_write (H.stable (.written f)) hv fun u hu => ?_)
          fun n u hu => ?_
        · obtain ⟨hG, _, hΦ, hn⟩ := H.write_chunk f _ pts _ offset u hu
          exact ⟨hG, hΦ, hn⟩
        · exact H.ensures_pure hu.1 fun _ h => ⟨h, H.good_add _ _ hgood hu.2⟩
      · refine H.query_bind hv fun u hu => ?_
        refine Ensures.bind H.refl (H.ensures_write (H.stable (.chunked f)) hu fun u hu => ?_)
          fun n u hu => ?_
        · obtain ⟨hG, hΦ, _, hn⟩ := H.write_chunk f _ pts _ offset u hu
          exact ⟨hG, hΦ, hn⟩
        · exact ih _ _ _ u hu.1 (H.good_add _ _ hgood hu.2)

theorem ensures_writeVideo (H : FeedRules .videoEs env R G Φ Good Ψ) {f : Frame} (pts : Int)
    (flags : BitVec 32) (h : Φ (.synced f) w) :
    Ensures (.renderer .videoEs) R G (Wrote Φ Good f) (writeVideo env f pts flags) w := by
  have hwrite : ∀ {data : List UInt8} {flags : BitVec 32} (offset : Nat) {v : FeedWorld},
      Φ (.synced f) v → Ensures (.renderer .videoEs) R G (fun n v => Φ (.written f) v ∧ Good n)
        (writeToFreeBuffer .videoCodec f data pts flags (env.accept offset)) v :=
    fun offset v hv => H.ensures_write (H.stable (.written f)) hv fun u hu =>
      H.write f _ pts _ offset u hu
  unfold writeVideo
  refine Ensures.ite (fun hpos => ?_) fun hpos => Ensures.ite (fun hzero => ?_) fun hneg => ?_
  · -- the first iteration decides whether there are more
    obtain ⟨fuel, hfuel⟩ := Nat.exists_eq_succ_of_ne_zero (StreamBuffer.length_pos hpos).ne'
    rw [hfuel]
    refine H.query_bind h fun v hv => ?_
    refine Ensures.ite (fun _ => ?_) fun hmore => ?_
    · refine Ensures.bind H.refl (hwrite 0 hv) fun n u hu => ?_
      exact H.ensures_pure hu.1 fun _ h => ⟨h, H.good_add _ _ (H.good_nonneg 0 le_rfl) hu.2⟩
    · have hchunked : Φ (.chunked f) v := by
        refine H.chunk f v rfl hv ?_
        simp only [StreamType.codec]
        omega
      refine H.query_bind hchunked fun u hu => ?_
      refine Ensures.bind H.refl (H.ensures_write (H.stable (.chunked f)) hu fun u hu => ?_)
        fun n u hu => ?_
      · obtain ⟨hG, hΦ, _, hn⟩ := H.write_chunk f _ pts _ 0 u hu
        exact ⟨hG, hΦ, hn⟩
      · exact H.ensures_writeChunks pts flags fuel _ _ _ u hu.1
          (H.good_add _ _ (H.good_nonneg 0 le_rfl) hu.2)
  · refine Ensures.bind H.refl (hwrite 0 h) fun n u hu => ?_
    exact H.ensures_pure hu.1 fun _ h => ⟨h, hu.2⟩
  · exact H.ensures_pure h fun v hv => ⟨H.unwritten f v rfl hv (by omega), H.good_nonneg 0 le_rfl⟩

/-- What an attempt returns, in the phase it ends in. -/
def Returned (Φ : Phase → FeedWorld → Prop) (Good : Int → Prop) (n : Int)
    (w : FeedWorld) : Prop :=
  ∃ ph, Φ ph w ∧ ph.Returns Good n

theorem ensures_return (H : FeedRules i env R G Φ Good Ψ) {n : Int} (h : Φ ph w)
    (hn : ph.Returns Good n) :
    Ensures (.renderer i) R G (Returned Φ Good) (pure n : Op Int) w :=
  H.ensures_pure h fun _ hv => ⟨ph, hv, hn⟩

theorem ensures_popBufQueue (H : FeedRules i env R G Φ Good Ψ) {f : Frame} (h : Φ (.written f) w) :
    Ensures (.renderer i) R G (fun _ => Φ .removed) (popBufQueue i) w := by
  intro v hv
  obtain ⟨hG, hΦ⟩ := H.pop f v (H.stable _ _ _ hv h)
  exact ⟨hG, fun u hu => H.stable _ _ _ hu hΦ⟩

theorem ensures_adjustFrame (H : FeedRules i env R G Φ Good Ψ) {f : Frame}
    (h : Φ (.holding f true) w) :
    Ensures (.renderer i) R G (fun _ => Φ (.adjusted f)) (adjustFrame f) w := by
  intro v hv
  obtain ⟨hG, hΦ⟩ := H.adjust f v (H.stable _ _ _ hv h)
  exact ⟨hG, fun u hu => H.stable _ _ _ hu hΦ⟩

/-- The branch for a null pointer. -/
theorem ensures_absent (H : FeedRules i env R G Φ Good Ψ) (h : Φ (.start false) w)
    (habsent : (w.state.component i.codec).isSome = false) :
    Ensures (.renderer i) R G (Returned Φ Good)
      (do clearBufQueue i; return 0) w := by
  have hclear : Ensures (.renderer i) R G (fun _ => Φ .nothing) (clearBufQueue i) w := by
    intro v hv
    obtain ⟨hG, hΦ⟩ := H.clear v (H.stable _ _ _ hv (H.absent w h habsent))
    exact ⟨hG, fun u hu => H.stable _ _ _ hu hΦ⟩
  exact Ensures.bind H.refl hclear fun _ u hu => H.ensures_return hu .nothing

theorem getBufQueue_bind (H : FeedRules i env R G Φ Good Ψ) {r : Bool} {g : Option Frame → Op α}
    (h : Φ (.start r) w)
    (hsome : ∀ f v, Φ (.holding f r) v → Ensures (.renderer i) R G Q (g (some f)) v)
    (hnone : ∀ v, Φ .nothing v → Ensures (.renderer i) R G Q (g none) v) :
    Ensures (.renderer i) R G Q (getBufQueue i >>= g) w := by
  refine Ensures.act_bind fun v hv => ?_
  have hv := H.stable _ _ _ hv h
  change _ ∧ Ensures _ _ _ _ (g (v.state.frames i).head?) _
  cases hhead : (v.state.frames i).head? with
  | some f =>
      obtain ⟨hG, hΦ⟩ := H.got r f v hv hhead
      exact ⟨hG, hsome f _ hΦ⟩
  | none =>
      have hread : ReadOnly fun s => (none, s) := readOnly_read
      have hafter : v.after (.renderer i) (getAction i) =
          v.after (.renderer i) fun s => (none, s) := by
        simp [World.after, getAction, hhead]
      rw [hafter]
      obtain ⟨hG, hΦ⟩ := H.readOnly _ v _ hread hv
      exact ⟨hG, hnone _ (H.empty r _ hΦ hhead)⟩

theorem ensures_feedVideoFrame (H : FeedRules .videoEs env R G Φ Good Ψ) {f : Frame}
    (h : Φ (.holding f true) w) :
    Ensures (.renderer .videoEs) R G (Returned Φ Good) (feedVideoFrame env f) w := by
  refine Ensures.bind H.refl (H.ensures_adjustFrame h) fun pts v hv => ?_
  have hflags : Ensures (.renderer .videoEs) R G (fun _ => Φ (.synced f)) (videoFlags f pts) v := by
    unfold videoFlags
    refine Ensures.ite (fun hlen => H.ensures_setOmxFlags pts _ hv hlen) fun hlen => ?_
    have hzero : f.dataLen = 0 := by rw [StreamBuffer.dataLen_eq (by omega)]; omega
    exact H.ensures_pure hv fun u hu => H.skip_sync f u hu hzero.le
  refine Ensures.bind H.refl hflags fun flags v hv => ?_
  refine Ensures.bind H.refl (H.ensures_writeVideo pts flags hv) fun written v hv => ?_
  cases written with
  | some n =>
      refine Ensures.bind H.refl (H.ensures_popBufQueue hv.1) fun _ u hu => ?_
      exact H.ensures_return hu (.removed hv.2)
  | none => exact H.ensures_return hv (.endless f)

theorem ensures_feedVideoData (H : FeedRules .videoEs env R G Φ Good Ψ) (h : Φ (.start false) w) :
    Ensures (.renderer .videoEs) R G (Returned Φ Good) (feedVideoData env) w := by
  refine H.lockUnlessPlaying_bind h fun v hv => ?_
  refine H.read_bind hv fun v hv => ?_
  refine Ensures.ite (fun _ => ?_) fun habsent => ?_
  · refine H.getBufQueue_bind hv (fun f v hv => ?_) fun v hv => H.ensures_return hv .nothing
    refine H.query_bind hv fun v hv => ?_
    refine H.query_bind hv fun v hv => ?_
    rw [v.state.free_eq]
    refine Ensures.ite (fun _ => H.ensures_return hv (.holdingFull f)) fun hfree => ?_
    exact H.ensures_feedVideoFrame (H.room_holding f v hv (by simp only [StreamType.codec]; omega))
  · exact H.ensures_absent hv (Bool.eq_false_iff.mpr habsent)

/-! ## Feed_AudioData -/

theorem ensures_audioPts (H : FeedRules i env R G Φ Good Ψ) {f : Frame}
    (h : Φ (.holding f true) w) :
    Ensures (.renderer i) R G (fun _ => Φ (.adjusted f)) (audioPts f) w := by
  refine H.read_bind h fun v hv => ?_
  refine Ensures.ite (fun _ => H.ensures_adjustFrame hv) fun henable => ?_
  exact H.ensures_pure (H.skip_adjust f v hv (by simpa using henable)) fun _ hu => hu

theorem ensures_writeAudio (H : FeedRules .audioEs env R G Φ Good Ψ) {f : Frame} (pts : Int)
    (flags : BitVec 32) (ret : Int) (data : List UInt8) (h : Φ (.synced f) w) :
    Ensures (.renderer .audioEs) R G (Returned Φ Good) (writeAudio env f pts flags ret data) w := by
  refine Ensures.bind H.refl (H.ensures_write (H.stable (.written f)) h fun v hv =>
    H.write f data pts flags 0 v hv) fun n v hv => ?_
  refine Ensures.bind H.refl (H.ensures_popBufQueue hv.1) fun _ u hu => ?_
  refine H.read_bind hu fun u hu => H.ensures_return hu (.removed ?_)
  split
  case isTrue hret => exact H.good_nonneg ret hret.2.1.le
  case isFalse => exact hv.2

theorem ensures_feedAudioFrame (H : FeedRules .audioEs env R G Φ Good Ψ) {f : Frame}
    (h : Φ (.holding f true) w) :
    Ensures (.renderer .audioEs) R G (Returned Φ Good) (feedAudioFrame env f) w := by
  refine Ensures.bind H.refl (H.ensures_audioPts h) fun pts v hv => ?_
  refine Ensures.ite (fun hpos => ?_) fun hpos => ?_
  · refine Ensures.bind H.refl (H.ensures_setOmxFlags pts _ hv (StreamBuffer.length_pos hpos))
      fun flags v hv => ?_
    exact H.read_bind hv fun v hv => H.ensures_writeAudio pts flags _ _ hv
  · exact H.ensures_writeAudio pts _ 0 f.data (H.skip_sync f v hv (by omega))

theorem ensures_feedAudioData (H : FeedRules .audioEs env R G Φ Good Ψ) (h : Φ (.start false) w) :
    Ensures (.renderer .audioEs) R G (Returned Φ Good) (feedAudioData env) w := by
  refine H.lockUnlessPlaying_bind h fun v hv => ?_
  refine H.read_bind hv fun v hv => ?_
  refine Ensures.ite (fun _ => ?_) fun habsent => ?_
  · refine H.query_bind hv fun v hv => ?_
    rw [v.state.free_eq]
    refine Ensures.ite (fun _ => H.ensures_return hv .full) fun hfree => ?_
    have hv := H.room v hv (by simp only [StreamType.codec]; omega)
    exact H.getBufQueue_bind hv (fun f v hv => H.ensures_feedAudioFrame hv) fun v hv =>
      H.ensures_return hv .nothing
  · exact H.ensures_absent hv (Bool.eq_false_iff.mpr habsent)

/-- **The outline of an attempt.** From the first phase on, the handler of a message takes its
actions as the rules say, and returns where `Ψ` holds. -/
theorem feedMessage (H : FeedRules i env R G Φ Good Ψ) (h : Φ (.start false) w) :
    Ensures (.renderer i) R G Ψ (feedMessage env i) w := by
  have hfeed : Ensures (.renderer i) R G (Returned Φ Good) (feedStream env i) w := by
    cases i with
    | videoEs => exact H.ensures_feedVideoData h
    | audioEs => exact H.ensures_feedAudioData h
  refine Ensures.bind H.refl hfeed fun n v ⟨ph, hph, hn⟩ => Ensures.act_bind fun u hu => ?_
  obtain ⟨hG, hΨ⟩ := H.fed ph n u (H.stable _ _ _ hu hph) hn
  exact ⟨hG, fun u' hu' => H.stable_end _ _ _ hu' hΨ⟩

end FeedRules

end DirectMedia

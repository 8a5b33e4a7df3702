import DirectMedia.Feed.Operations

set_option autoImplicit false

/-! # What `setOmxFlags` decides and what it commits

The branches of `setOmxFlags` name a state for the video. Some write it to `sync_state_` at once,
some to the local `sync_state_new`, and the end of the function compares the two and knows only the
way into `HOLD_VIDEO` and the way from there to `ALLOW_VIDEO`. So a decision to skip taken while the
video is held is undone by the local that still says hold, and a decision to leave `SKIP_VIDEO` is
never carried out (`setOmxFlags_agrees_iff`).
-/

namespace DirectMedia

open Prog

/-- The state that the branches of `setOmxFlags` name, past the first video frame. -/
def SyncState.decision (i : StreamType) (state : SyncState) (avDelta : Int) (used : Nat) :
    SyncState :=
  match i with
  | .videoEs =>
      if avDelta < videoInBufferMksecSkip then .skipVideo
      else if avDelta > videoInBufferMksecHigh then .holdVideo
      else if state = .skipVideo ∧ avDelta < videoInBufferMksecLow then .allowVideo
      else if state = .allowVideo ∧ used > videoInBufferCountHigh then .holdVideo
      else state
  | .audioEs =>
      if state ≠ .allowVideo ∧
          (videoInBufferMksecSkip < avDelta ∧ avDelta < videoInBufferMksecLow) ∧
          used ≤ videoInBufferCountHigh then .allowVideo
      else state

/-- The decisions that are lost: to skip while the video is held, and to leave `SKIP_VIDEO`. -/
def SyncState.Lost (i : StreamType) (state : SyncState) (avDelta : Int) (used : Nat) : Prop :=
  match i with
  | .videoEs =>
      (state = .holdVideo ∧ avDelta < videoInBufferMksecSkip) ∨
        (state = .skipVideo ∧ videoInBufferMksecSkip ≤ avDelta ∧ avDelta < videoInBufferMksecLow)
  | .audioEs =>
      state = .skipVideo ∧ videoInBufferMksecSkip < avDelta ∧ avDelta < videoInBufferMksecLow ∧
        used ≤ videoInBufferCountHigh

/-- From the state `before`, the state committed is the one decided, and a notice is posted exactly
on the way into `HOLD_VIDEO` and on the way from there to `ALLOW_VIDEO`. -/
@[mk_iff committed_iff]
structure Committed (before decided after : SyncState) (high low : Prop) : Prop where
  state : after = decided
  high : high ↔ before ≠ .holdVideo ∧ after = .holdVideo
  low : low ↔ before = .holdVideo ∧ after = .allowVideo

/-! ## The branches -/

/-- Past its first frame, the branch for video writes `sync_state_` only to skip. -/
theorem sync_video (s : Esplayer) (used : Nat) (flags : BitVec 32)
    (hfirst : s.lastPts .videoEs ≠ 0) :
    (s.sync .videoEs used flags).syncState =
        (if avDelta s.lastPts < videoInBufferMksecSkip then .skipVideo else s.syncState) ∧
      (s.sync .videoEs used flags).syncStateNew =
        if avDelta s.lastPts < videoInBufferMksecSkip then s.syncState
        else if avDelta s.lastPts > videoInBufferMksecHigh then .holdVideo
        else if s.syncState = .skipVideo ∧ avDelta s.lastPts < videoInBufferMksecLow then
          .allowVideo
        else if s.syncState = .allowVideo ∧ used > videoInBufferCountHigh then .holdVideo
        else s.syncState := by
  simp only [Esplayer.sync, syncVideo, hfirst, if_false]
  cases hstate : s.syncState <;> split_ifs <;> simp_all

theorem committed_video_iff (s : Esplayer) (used : Nat) (flags : BitVec 32)
    (hfirst : s.lastPts .videoEs ≠ 0) :
    Committed s.syncState (.decision .videoEs s.syncState (avDelta s.lastPts) used)
        (s.sync .videoEs used flags).commit.1
        ((s.sync .videoEs used flags).commit.2 = some true)
        ((s.sync .videoEs used flags).commit.2 = some false) ↔
      ¬ SyncState.Lost .videoEs s.syncState (avDelta s.lastPts) used := by
  obtain ⟨hstate, hnew⟩ := sync_video s used flags hfirst
  generalize s.sync .videoEs used flags = d at *
  generalize avDelta s.lastPts = delta at *
  have hthresholds : videoInBufferMksecSkip < videoInBufferMksecLow ∧
      videoInBufferMksecLow < videoInBufferMksecHigh := by decide
  rw [committed_iff, SyncDecision.commit, hstate, hnew]
  cases s.syncState with
  | holdVideo =>
      -- the local still says hold
      by_cases hs : delta < videoInBufferMksecSkip
      · simp [SyncState.decision, SyncState.Lost, hs]
      · simp [SyncState.decision, SyncState.Lost, hs]
  | allowVideo =>
      by_cases hs : delta < videoInBufferMksecSkip
      · simp [SyncState.decision, SyncState.Lost, hs]
      · by_cases hh : delta > videoInBufferMksecHigh
        · simp [SyncState.decision, SyncState.Lost, hs, hh]
        · by_cases hu : used > videoInBufferCountHigh
          · simp [SyncState.decision, SyncState.Lost, hs, hh, hu]
          · simp [SyncState.decision, SyncState.Lost, hs, hh, hu]
  | skipVideo =>
      by_cases hs : delta < videoInBufferMksecSkip
      · simp [SyncState.decision, SyncState.Lost, hs, not_le.mpr hs]
      · by_cases hh : delta > videoInBufferMksecHigh
        · have hl : ¬ delta < videoInBufferMksecLow := by omega
          simp [SyncState.decision, SyncState.Lost, hs, hh, hl]
        · by_cases hl : delta < videoInBufferMksecLow
          · simp [SyncState.decision, SyncState.Lost, hs, hh, hl, not_lt.mp hs]
          · simp [SyncState.decision, SyncState.Lost, hs, hh, hl]

/-- The branch for audio leaves `sync_state_` to the end. -/
theorem sync_audio (s : Esplayer) (used : Nat) (flags : BitVec 32) :
    (s.sync .audioEs used flags).syncState = s.syncState ∧
      (s.sync .audioEs used flags).syncStateNew =
        .decision .audioEs s.syncState (avDelta s.lastPts) used := by
  simp only [Esplayer.sync, syncAudio, SyncState.decision, gt_iff_lt]
  cases s.syncState <;> split_ifs <;> simp_all

theorem committed_audio_iff (s : Esplayer) (used : Nat) (flags : BitVec 32) :
    Committed s.syncState (.decision .audioEs s.syncState (avDelta s.lastPts) used)
        (s.sync .audioEs used flags).commit.1
        ((s.sync .audioEs used flags).commit.2 = some true)
        ((s.sync .audioEs used flags).commit.2 = some false) ↔
      ¬ SyncState.Lost .audioEs s.syncState (avDelta s.lastPts) used := by
  obtain ⟨hstate, hnew⟩ := sync_audio s used flags
  generalize s.sync .audioEs used flags = d at *
  generalize avDelta s.lastPts = delta at *
  rw [committed_iff, SyncDecision.commit, hstate, hnew]
  by_cases hin : (videoInBufferMksecSkip < delta ∧ delta < videoInBufferMksecLow) ∧
      used ≤ videoInBufferCountHigh
  · cases s.syncState with
    | holdVideo => simp [SyncState.decision, SyncState.Lost, hin]
    | allowVideo => simp [SyncState.decision, SyncState.Lost]
    | skipVideo => simp [SyncState.decision, SyncState.Lost, hin]
  · have hlost : ¬ SyncState.Lost .audioEs s.syncState delta used :=
      fun h => hin ⟨⟨h.2.1, h.2.2.1⟩, h.2.2.2⟩
    have hkeep : SyncState.decision .audioEs s.syncState delta used = s.syncState :=
      if_neg fun h => hin h.2
    rw [hkeep]
    cases hbefore : s.syncState <;> simp_all

/-! ## A call -/

/-- The buffers of the video codec that are in use. -/
def Esplayer.videoUsed (s : Esplayer) : Nat :=
  (s.component .videoCodec).elim 0 (·.input.getUsedBufferCount)

/-- What `setOmxFlags` leaves and shows is what its section on `sync_state_` commits. -/
theorem setOmxFlags_commit (f : Frame) (pts : Int) (flags : BitVec 32) (s : Esplayer) :
    ((setOmxFlags f pts flags).run s).2.syncState =
        (s.sync f.streamType s.videoUsed flags).commit.1 ∧
      ∀ high, .notifyVideo high ∈ (setOmxFlags f pts flags).trace s ↔
        (s.sync f.streamType s.videoUsed flags).commit.2 = some high := by
  have hused : ((getUsedBufferCount .videoCodec).run s).1 = s.videoUsed := rfl
  have hcodec : ∀ c, ((getUsedBufferCount c).run s).2 = s := fun _ => rfl
  have hshown : ∀ c, (getUsedBufferCount c).trace s = [.use c (s.component c).isSome] :=
    fun _ => rfl
  simp only [setOmxFlags, run_bind, trace_bind, hused, hcodec, hshown, Prog.run, Prog.trace,
    syncAction]
  generalize s.sync f.streamType s.videoUsed flags = d
  cases hnotice : d.commit.2 with
  | some notice =>
      have hpost : (act (notifyAction notice) fun _ => ret () : Op Unit).run = fun t =>
          ((), t.onMessages .videoEs .postNow) := rfl
      simp only [run_bind, trace_bind, hpost, run_pure, trace_pure]
      refine ⟨rfl, fun high => ?_⟩
      simp [Prog.trace, notifyAction, eq_comm]
  | none =>
      refine ⟨rfl, fun high => ?_⟩
      simp

/-- `setOmxFlags` leaves the state its branches name, and posts a notice exactly when it moves into
`HOLD_VIDEO` or from there to `ALLOW_VIDEO`. -/
def SyncAgrees (f : Frame) (pts : Int) (flags : BitVec 32) (s : Esplayer) : Prop :=
  Committed s.syncState (.decision f.streamType s.syncState (avDelta s.lastPts) s.videoUsed)
    ((setOmxFlags f pts flags).run s).2.syncState
    (.notifyVideo true ∈ (setOmxFlags f pts flags).trace s)
    (.notifyVideo false ∈ (setOmxFlags f pts flags).trace s)

/-- **The decision and the committed state.** Past the first video frame they agree, and the client
is told, exactly if the decision is not one of the three that are lost. -/
theorem setOmxFlags_agrees_iff (f : Frame) (pts : Int) (flags : BitVec 32) (s : Esplayer)
    (hfirst : f.streamType = .videoEs → s.lastPts .videoEs ≠ 0) :
    SyncAgrees f pts flags s ↔
      ¬ SyncState.Lost f.streamType s.syncState (avDelta s.lastPts) s.videoUsed := by
  obtain ⟨hstate, hnotice⟩ := setOmxFlags_commit f pts flags s
  rw [SyncAgrees, hstate, propext (hnotice true), propext (hnotice false)]
  cases hstream : f.streamType with
  | videoEs => exact committed_video_iff s s.videoUsed flags (hfirst hstream)
  | audioEs => exact committed_audio_iff s s.videoUsed flags

/-- Video `delta` microseconds ahead of audio. -/
def aheadPlayer (state : SyncState) (delta : Int) : Esplayer :=
  { syncState := state
    lastPts := fun i => if i = .videoEs then 5000000 + delta else 5000000 }

/-- A video frame of one byte. -/
def videoByte : Frame := ⟨{ data := [0], streamType := .videoEs }, 0⟩

theorem setOmxFlags_agrees_ahead :
    SyncAgrees videoByte 0 0 (aheadPlayer .allowVideo 1500000) ↔
      ¬ SyncState.Lost .videoEs .allowVideo (avDelta (aheadPlayer .allowVideo 1500000).lastPts)
        (aheadPlayer .allowVideo 1500000).videoUsed :=
  setOmxFlags_agrees_iff videoByte 0 0 (aheadPlayer .allowVideo 1500000) (fun _ => by decide)

/-- The video is held and falls two tenths of a second behind: the decision to skip is undone, and
the client is told a second time to stop. -/
theorem setOmxFlags_disagrees :
    ((setOmxFlags videoByte 0 0).run (aheadPlayer .holdVideo (-200000))).2.syncState = .holdVideo ∧
      .notifyVideo true ∈ (setOmxFlags videoByte 0 0).trace (aheadPlayer .holdVideo (-200000)) ∧
      SyncState.decision .videoEs .holdVideo (-200000) 0 = .skipVideo ∧
      ¬ SyncAgrees videoByte 0 0 (aheadPlayer .holdVideo (-200000)) := by
  have hstate : ((setOmxFlags videoByte 0 0).run (aheadPlayer .holdVideo (-200000))).2.syncState =
      .holdVideo := by decide
  refine ⟨hstate, by decide, by decide, fun h => ?_⟩
  have := h.state
  rw [hstate] at this
  exact absurd this (by decide)

end DirectMedia

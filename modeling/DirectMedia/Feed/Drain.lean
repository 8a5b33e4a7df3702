import DirectMedia.Feed.Live

set_option autoImplicit false

/-! # Feeding does not get stuck

Wherever a run of `feedData` calls, attempts and returned buffers stops between two attempts, the
threads can go on by themselves until every frame that was pushed has reached its codec: the calls
under way return, each looper takes the messages from its queue, and all the codec has to do is to
return one buffer before each attempt.
-/

namespace DirectMedia

open Prog

/-! ## An attempt that nobody disturbs -/

section Attempt

attribute [local irreducible] StreamBuffer.dataLen

variable {size : Nat} {i : StreamType} {s : Esplayer} {env : FeedEnv} {f : Frame}

theorem run_lockUnlessPlaying (s : Esplayer) : lockUnlessPlaying.run s = ((), s) := by
  simp only [lockUnlessPlaying, run_bind, run_read, run_onlyIf]
  split <;> rfl

theorem run_query (c : ComponentName) (g : Component → Nat) (s : Esplayer) :
    (query c g).run s = ((s.component c).elim 0 g, s) := rfl

theorem run_getBufQueue (i : StreamType) (s : Esplayer) :
    (getBufQueue i).run s = ((s.frames i).head?, s) := rfl

/-- With a free buffer and an OMX that accepts it, the result of a submission is not negative. -/
theorem run_writeToFreeBuffer_nonneg {c : ComponentName}
    (hfree : 0 < (s.input c).getFreeBufferCount) (f : Frame) (data : List UInt8) (pts : Int)
    (flags : BitVec 32) : 0 ≤ ((writeToFreeBuffer c f data pts flags 0).run s).1 :=
  (Port.writeToFreeBuffer_accepted hfree data pts flags).1

theorem keeps_component_setOmxFlags (f : Frame) (pts : Int) (flags : BitVec 32) :
    (setOmxFlags f pts flags).Keeps (·.component) :=
  does_setOmxFlags (fun _ _ => rfl) (fun _ _ => rfl) fun _ _ => rfl

theorem keeps_component_adjustFrame (f : Frame) : (adjustFrame f).Keeps (·.component) :=
  ⟨fun _ => rfl, fun _ => trivial⟩

theorem keeps_component_videoFlags (f : Frame) (pts : Int) :
    (videoFlags f pts).Keeps (·.component) :=
  Keeps.ite (keeps_component_setOmxFlags f pts _) (keeps_pure _ _)

theorem keeps_component_audioPts (f : Frame) : (audioPts f).Keeps (·.component) :=
  Keeps.bind (keeps_read _ _) fun _ => Keeps.ite (keeps_component_adjustFrame f) (keeps_pure _ _)

theorem input_congr {t : Esplayer} (h : t.component = s.component) (c : ComponentName) :
    t.input c = s.input c := by
  rw [Esplayer.input, Esplayer.input, h]

/-- A video frame that fits is submitted at once. -/
theorem run_writeVideo (hsize : (s.component .videoCodec).elim 0 (·.inputBufferSize) = size)
    (hfree : 0 < (s.input .videoCodec).getFreeBufferCount) (hfits : f.data.length < 2 ^ 31)
    (hle : f.data.length ≤ size) (henv : ∀ offset, env.accept offset = 0) (pts : Int)
    (flags : BitVec 32) :
    ∃ n, 0 ≤ n ∧ ((writeVideo env f pts flags).run s).1 = some n := by
  have hlen := StreamBuffer.dataLen_eq hfits
  by_cases hpos : f.dataLen > 0
  · obtain ⟨k, hk⟩ : ∃ k, f.data.length = k + 1 := ⟨f.data.length - 1, by omega⟩
    have hremaining : f.dataLen - (size : Int) ≤ 0 := by omega
    refine ⟨0 + ((writeToFreeBuffer .videoCodec f (f.data.drop 0) pts
      (flags ||| bufferFlagEndOfFrame) 0).run s).1, ?_, ?_⟩
    · have := run_writeToFreeBuffer_nonneg hfree f (f.data.drop 0) pts
        (flags ||| bufferFlagEndOfFrame)
      omega
    · simp only [writeVideo, if_pos hpos, hk, writeChunks, getInputBufferSize, run_bind, run_query,
        hsize, if_pos hremaining, henv, run_pure]
  · have hzero : f.dataLen = 0 := by omega
    refine ⟨((writeToFreeBuffer .videoCodec f [] pts (flags ||| bufferFlagEndOfFrame) 0).run s).1,
      run_writeToFreeBuffer_nonneg hfree f _ pts _, ?_⟩
    simp only [writeVideo, if_neg hpos, if_pos hzero, run_bind, henv, run_pure]

theorem run_feedVideoFrame (hready : Ready size s)
    (hfree : 0 < (s.input .videoCodec).getFreeBufferCount) (hfits : Fits size f.toStreamBuffer)
    (hstream : f.streamType = .videoEs) (henv : ∀ offset, env.accept offset = 0) :
    0 ≤ ((feedVideoFrame env f).run s).1 := by
  simp only [feedVideoFrame, run_bind]
  -- the adjustment and the sync update leave the codec alone
  have hcomponent := ((keeps_component_videoFlags f ((adjustFrame f).run s).1).run _).trans
    ((keeps_component_adjustFrame f).run s)
  obtain ⟨n, hn, hwritten⟩ := run_writeVideo
    (by rw [hcomponent]; exact hready.size) (by rw [input_congr hcomponent]; exact hfree) hfits.1
    (hfits.2 hstream) henv ((adjustFrame f).run s).1
    ((videoFlags f ((adjustFrame f).run s).1).run ((adjustFrame f).run s).2).1
  rw [hwritten]
  exact hn

theorem run_writeAudio (hfree : 0 < (s.input .audioCodec).getFreeBufferCount)
    (henv : ∀ offset, env.accept offset = 0) (f : Frame) (pts : Int) (flags : BitVec 32)
    (ret : Int) (data : List UInt8) : 0 ≤ ((writeAudio env f pts flags ret data).run s).1 := by
  simp only [writeAudio, run_bind, run_read, run_pure, henv]
  have := run_writeToFreeBuffer_nonneg hfree f data pts flags
  split <;> omega

theorem run_feedAudioFrame (hfree : 0 < (s.input .audioCodec).getFreeBufferCount)
    (henv : ∀ offset, env.accept offset = 0) (f : Frame) :
    0 ≤ ((feedAudioFrame env f).run s).1 := by
  have hpts := (keeps_component_audioPts f).run s
  simp only [feedAudioFrame, run_bind, run_ite]
  split
  · simp only [run_read]
    refine run_writeAudio ?_ henv f _ _ _ _
    rw [input_congr (((keeps_component_setOmxFlags f _ _).run _).trans hpts)]
    exact hfree
  · refine run_writeAudio ?_ henv f _ _ _ _
    rw [input_congr hpts]
    exact hfree

/-- **An attempt that finds a frame and a free buffer succeeds**, if nobody interferes. -/
theorem run_feedMessage (hready : Ready size s) (hfree : 0 < s.free i)
    (hhead : (s.frames i).head? = some f) (hfits : f.streamType = i ∧ Fits size f.toStreamBuffer)
    (henv : ∀ offset, env.accept offset = 0) : ((feedMessage env i).run s).1 = resultSuccess := by
  have hnonneg : 0 ≤ ((feedStream env i).run s).1 := by
    cases i with
    | audioEs =>
        have hne : (s.input .audioCodec).getFreeBufferCount ≠ 0 := Nat.ne_of_gt hfree
        simp only [feedStream, feedAudioData, run_bind, run_lockUnlessPlaying, run_read,
          hready.audio, if_true, getFreeBufferCount, run_query, s.free_eq, if_neg hne,
          run_getBufQueue, hhead]
        exact run_feedAudioFrame hfree henv f
    | videoEs =>
        have hne : (s.input .videoCodec).getFreeBufferCount ≠ 0 := Nat.ne_of_gt hfree
        simp only [feedStream, feedVideoData, run_bind, run_lockUnlessPlaying, run_read,
          hready.video, if_true, getFreeBufferCount, getUsedBufferCount, run_query, s.free_eq,
          if_neg hne, run_getBufQueue, hhead]
        exact run_feedVideoFrame hready hfree hfits.2 hfits.1 henv
  simp only [feedMessage, run_bind, run_emit, run_pure]
  exact if_pos hnonneg

/-- An attempt leaves the loopers alone. -/
theorem keeps_renderer_feedMessage (env : FeedEnv) (i : StreamType) :
    (feedMessage env i).Keeps (·.renderer) := by
  have hfeed : OfFeed i fun a => ∀ s, (a s).2.renderer = s.renderer :=
    ⟨fun _ => rfl, fun _ => rfl, fun _ => rfl, fun _ => rfl, fun _ _ => rfl,
      fun _ _ _ _ _ _ => rfl, fun _ => rfl, fun _ _ => rfl⟩
  exact hfeed.feedMessage env fun f pts flags =>
    does_setOmxFlags (fun _ _ => rfl) (fun _ _ => rfl) fun _ _ => rfl

end Attempt

/-! ## Runs without new calls -/

/-- The threads go on from `x` to `y`: nobody calls, and the OMX accepts every buffer. -/
def GoesOn (size : Nat) (x y : FeedSystem) : Prop :=
  ∃ bs, (∀ b ∈ bs, FeedOnly size b ∧ ∀ n c, b ≠ .call n c) ∧
    Lts.exec FeedSystem.step x bs = some y

section GoesOn

variable {size : Nat} {x y z : FeedSystem} {i : StreamType}

theorem GoesOn.refl (x : FeedSystem) : GoesOn size x x := ⟨[], by simp, rfl⟩

theorem GoesOn.trans (h : GoesOn size x y) (h' : GoesOn size y z) : GoesOn size x z := by
  obtain ⟨bs, hbs, hy⟩ := h
  obtain ⟨cs, hcs, hz⟩ := h'
  refine ⟨bs ++ cs, fun b hb => ?_, Lts.exec_append_iff.mpr ⟨y, hy, hz⟩⟩
  rcases List.mem_append.mp hb with hb | hb
  · exact hbs b hb
  · exact hcs b hb

theorem goesOn_step {a : FeedAct} (ha : FeedOnly size a) (hcall : ∀ n c, a ≠ .call n c)
    (hy : FeedSystem.step x a = some y) : GoesOn size x y :=
  ⟨[a], by simpa using ⟨ha, hcall⟩, Lts.exec_cons_iff.mpr ⟨y, hy, rfl⟩⟩

/-- A thread goes on with its program. -/
theorem goesOn_thread {t : Thread} {k : Nat}
    (hy : Lts.exec Pool.step x (List.replicate k t) = some y) : GoesOn size x y := by
  refine ⟨(List.replicate k t).map .step, fun b hb => ?_, ?_⟩
  · obtain ⟨_, _, rfl⟩ := List.mem_map.mp hb
    exact ⟨trivial, by simp⟩
  · exact (Lts.exec_map (fun _ _ => rfl) _ _).trans hy

theorem GoesOn.live (h : GoesOn size x y) (hx : Live size x) : Live size y := by
  obtain ⟨bs, hbs, hy⟩ := h
  exact Lts.exec_invariant (fun _ _ _ ha hlive hstep => hlive.step ha.1 hstep) hbs hx hy

end GoesOn

/-! ## The calls under way return -/

/-- No thread runs a program. -/
def AllIdle (x : FeedSystem) : Prop := ∀ t, x.running t = none

section Return

variable {size : Nat} {x : FeedSystem}

/-- Once the mutex is free, the calls of the first `m` clients return, one after the other. -/
theorem Live.clients_return (m : Nat) : ∀ {x : FeedSystem}, Live size x → x.owner = none →
    (∀ i, x.running (.renderer i) = none) → (∀ n, m ≤ n → x.running (.client n) = none) →
    ∃ y, GoesOn size x y ∧ AllIdle y := by
  induction m with
  | zero =>
      intro x _ _ hrenderers hclients
      refine ⟨x, .refl x, fun t => ?_⟩
      cases t with
      | renderer i => exact hrenderers i
      | client n => exact hclients n (Nat.zero_le n)
  | succ m ih =>
      intro x hx howner hrenderers hclients
      cases hp : x.running (.client m) with
      | none =>
          refine ih hx howner hrenderers fun n hn => ?_
          rcases Nat.eq_or_lt_of_le hn with rfl | hlt
          · exact hp
          · exact hclients n hlt
      | some p =>
          obtain ⟨k, y, hy, hret, _, hfree, hothers⟩ := hx.sound.alone hp (.inl howner)
          have hon : GoesOn size x y := goesOn_thread hy
          have hstep : FeedSystem.step y (.returned m) =
              some (y.setRunning (.client m) none) := by
            simp only [FeedSystem.step, Pool.finish, hret, Option.map_some]
          have hdone : GoesOn size x (y.setRunning (.client m) none) :=
            hon.trans (goesOn_step (a := .returned m) trivial (by simp) hstep)
          have hyrenderers : ∀ i, (y.setRunning (.client m) none).running (.renderer i) = none := by
            intro i
            rw [Pool.running_setRunning_ne y (by simp), hothers _ (by simp), hrenderers]
          have hyclients : ∀ n, m ≤ n →
              (y.setRunning (.client m) none).running (.client n) = none := by
            intro n hn
            by_cases hnm : n = m
            · rw [hnm, Pool.running_setRunning_self]
            · rw [Pool.running_setRunning_ne y (by simpa using hnm), hothers _ (by simpa using hnm)]
              exact hclients n (by omega)
          obtain ⟨z, hz, hidle⟩ := ih (hdone.live hx) hfree hyrenderers hyclients
          exact ⟨z, hdone.trans hz, hidle⟩

/-- All calls under way return: the one that holds the mutex first. -/
theorem Live.calls_return (h : Live size x) (hrenderers : ∀ i, x.running (.renderer i) = none) :
    ∃ y, GoesOn size x y ∧ AllIdle y := by
  obtain ⟨m, hm⟩ := h.clients
  cases howner : x.owner with
  | none => exact h.clients_return m howner hrenderers hm
  | some t =>
      obtain ⟨p, hp⟩ := Option.isSome_iff_exists.mp (h.sound.owner t howner)
      obtain ⟨k, y, hy, _, _, hfree, hothers⟩ := h.sound.alone hp (.inr howner)
      have hidle : ∀ u, x.running u = none → y.running u = none := by
        intro u hu
        have hne : u ≠ t := by
          rintro rfl
          rw [hp] at hu
          cases hu
        rw [hothers u hne, hu]
      obtain ⟨z, hz, hall⟩ := ((goesOn_thread hy).live h).clients_return m hfree
        (fun i => hidle _ (hrenderers i)) fun n hn => hidle _ (hm n hn)
      exact ⟨z, (goesOn_thread hy).trans hz, hall⟩

end Return

/-! ## A looper serves its queue -/

section Serve

variable {size : Nat} {x y : FeedSystem} {i : StreamType} {l : Looper}

/-- Between two attempts the looper comes to the head of its loop. -/
theorem Live.to_top (h : Live size x) (hpc : (x.looper i).pc.inFlight = none) :
    ∃ y, GoesOn size x y ∧ y.running = x.running ∧
      y.looper i = { x.looper i with pc := .top } ∧ ∀ j, j ≠ i → y.looper j = x.looper j := by
  -- a wake-up, the end of the sleep, or nothing
  have hset : ∀ b : LooperAct, b.own = true →
      (x.looper i).step b = some { x.looper i with pc := .top } →
      ∃ y, GoesOn size x y ∧ y.running = x.running ∧
        y.looper i = { x.looper i with pc := .top } ∧ ∀ j, j ≠ i → y.looper j = x.looper j := by
    intro b hb hl
    have hy : FeedSystem.step x (.looper i b) =
        some (x.setLooper i { x.looper i with pc := .top }) := by
      simp only [FeedSystem.step, hb, hl, if_true, Option.map_some]
    exact ⟨_, goesOn_step (a := .looper i b) trivial (by simp) hy, rfl, looper_setLooper x i _,
      fun j hj => Function.update_of_ne hj _ _⟩
  have hexited := (h.serving i).pc
  cases hl : (x.looper i).pc with
  | top => exact ⟨x, .refl x, rfl, by rw [← hl], fun _ _ => rfl⟩
  | waitState => exact hset .wake rfl (by simp [Looper.step, Looper.wake, hl])
  | waitQueue => exact hset .wake rfl (by simp [Looper.step, Looper.wake, hl])
  | waitUntil runAt => exact hset .wake rfl (by simp [Looper.step, Looper.wake, hl])
  | sleeping => exact hset .resume rfl (by simp [Looper.step, hl])
  | handling m v => rw [hl] at hpc; cases hpc
  | popping m => rw [hl] at hpc; cases hpc
  | exited => exact absurd hl hexited

/-- The message is removed once its handler has succeeded. -/
theorem goesOn_popFront {m : Message} (hpc : (x.looper i).pc = .popping m) :
    GoesOn size x (x.setLooper i { x.looper i with queue := (x.looper i).queue.tail, pc := .top })
    := by
  refine goesOn_step (a := .looper i .popFront) trivial (by simp) ?_
  simp only [FeedSystem.step, LooperAct.own, if_true, Looper.step, hpc, Option.map_some]

theorem emptyBufferDone_free {port : Port} (h : port ≠ []) :
    0 < (port.emptyBufferDone 0).getFreeBufferCount := by
  obtain ⟨b, port, rfl⟩ := List.exists_cons_of_ne_nil h
  simp only [Port.emptyBufferDone, Port.getFreeBufferCount, List.modify_zero_cons,
    List.countP_cons]
  split <;> simp_all

/-- A buffer of the codec comes back. -/
theorem Live.buffer_back (h : Live size x) (i : StreamType) :
    ∃ y, GoesOn size x y ∧ y.running = x.running ∧ (∀ j, y.looper j = x.looper j) ∧
      0 < y.world.state.free i := by
  refine ⟨_, goesOn_step (a := .emptyBufferDone i 0) trivial (by simp) rfl, rfl, fun _ => rfl, ?_⟩
  have hbuffers := h.buffers i
  simp only [Esplayer.input, Esplayer.free, FeedSystem.setState, Esplayer.onComponent,
    Function.update_self] at hbuffers ⊢
  cases hc : x.world.state.component i.codec with
  | none => rw [hc] at hbuffers; exact absurd rfl hbuffers
  | some comp =>
      rw [hc] at hbuffers
      exact emptyBufferDone_free hbuffers

/-- The looper hands a message to its handler. -/
theorem Live.attempt_start (h : Live size x) (hidle : x.running (.renderer i) = none)
    (htop : (x.looper i).pc = .top) (hqueue : (x.looper i).queue ≠ []) :
    ∃ m y, GoesOn size x y ∧ y.owner = x.owner ∧
      y.running = Function.update x.running (.renderer i) (some (feedMessage {} i)) ∧
      y.world.state = x.world.state.onRenderer i fun _ =>
        { x.looper i with pc := .handling m resultSuccess } := by
  -- the message at the front is due
  obtain ⟨e, q, hq⟩ := List.exists_cons_of_ne_nil hqueue
  obtain ⟨m, rfl, hdue⟩ := (h.serving i).due e (by simp [hq])
  have hlook : (x.looper i).look resultSuccess = .handling m resultSuccess := by
    unfold Looper.look
    rw [if_neg (by simp [(h.serving i).running]), hq]
    simp only
    rw [if_neg (by omega)]
  have hstep : (x.looper i).step (.look resultSuccess) =
      some { x.looper i with pc := .handling m resultSuccess } := by
    simp only [Looper.step, htop, if_true, hlook]
  have hy : FeedSystem.step x (.look i resultSuccess {}) =
      some ((x.setLooper i { x.looper i with pc := .handling m resultSuccess }).setRunning
        (.renderer i) (some (feedMessage {} i))) := by
    have hnone : (x.setLooper i { x.looper i with
        pc := .handling m resultSuccess }).running (.renderer i) = none := hidle
    simp only [FeedSystem.step, hstep, Option.bind_some, LoopPc.inFlight, Option.isSome_some,
      if_true, Pool.start, hnone, Option.isNone_none]
  exact ⟨m, _, goesOn_step (a := .look i resultSuccess {}) (fun _ => rfl) (by simp) hy, rfl, rfl,
    rfl⟩

variable (size) in
/-- The handler has succeeded, and its message is removed. -/
theorem attempt_end {m : Message} (hrun : x.running (.renderer i) = some (ret resultSuccess))
    (hpc : (x.looper i).pc = .handling m resultSuccess) :
    ∃ y, GoesOn size x y ∧ y.running = Function.update x.running (.renderer i) none ∧
      (y.looper i).queue = (x.looper i).queue.tail ∧ ∀ j, j ≠ i → y.looper j = x.looper j := by
  have hhandled : FeedSystem.step x (.handled i) =
      some (FeedSystem.setLooper (x.setRunning (.renderer i) none) i
        { x.looper i with pc := .popping m }) := by
    simp only [FeedSystem.step, Pool.finish, hrun, Option.bind_some, hpc, if_true, Looper.step,
      Option.map_some]
  have hpopping : ((FeedSystem.setLooper (x.setRunning (.renderer i) none) i
      { x.looper i with pc := .popping m }).looper i).pc = .popping m := by
    rw [looper_setLooper]
  refine ⟨_, (goesOn_step (a := .handled i) trivial (by simp) hhandled).trans
    (goesOn_popFront hpopping), rfl, ?_, fun j hj => ?_⟩
  · rw [looper_setLooper, looper_setLooper]
  · exact (Function.update_of_ne hj _ _).trans (Function.update_of_ne hj _ _)

/-- An attempt with a free buffer, from its start to the removal of its message. -/
theorem Live.attempt (h : Live size x) (hidle : AllIdle x) (htop : (x.looper i).pc = .top)
    (hqueue : (x.looper i).queue ≠ []) (hfree : 0 < x.world.state.free i) :
    ∃ y, GoesOn size x y ∧ AllIdle y ∧
      (y.looper i).queue = (x.looper i).queue.tail ∧ ∀ j, j ≠ i → y.looper j = x.looper j := by
  obtain ⟨n, hcount, hat⟩ := (h.inv.streams i).progress
  cases hat with
  | attempt m v p pc queue running run => rw [htop] at pc; cases pc
  | popping m pc queue running line => rw [htop] at pc; cases pc
  | waiting pc running line =>
      obtain ⟨f, fs, hf⟩ :=
        List.exists_cons_of_ne_nil (h.inv.frames_ne_nil hcount hqueue line)
      obtain ⟨m, y, hy, howner, hrun, hstate⟩ := h.attempt_start (hidle _) htop hqueue
      have hnobody : x.owner = none := by
        rw [Option.eq_none_iff_forall_ne_some]
        exact fun t => h.sound.owner_ne (hidle t)
      have hprog : y.running (.renderer i) = some (feedMessage {} i) := by
        rw [hrun, Function.update_self]
      -- the handler runs alone, succeeds and leaves the loopers as they are
      obtain ⟨k, z, hz, hret, hworld, _, hothers⟩ :=
        (hy.live h).sound.alone hprog (.inl (howner.trans hnobody))
      have hresult : ((feedMessage {} i).run y.world.state).1 = resultSuccess := by
        rw [hstate]
        exact run_feedMessage ⟨line.ready.audio, line.ready.video, line.ready.size,
          line.ready.enableVideo⟩ hfree (List.head?_eq_some_iff.mpr ⟨fs, hf⟩)
          (line.fits f (by simp [hf])) fun _ => rfl
      rw [hresult] at hret
      have hlooper : ∀ j, FeedSystem.looper z j = y.looper j := by
        intro j
        rw [FeedSystem.looper, hworld]
        exact congrFun ((keeps_renderer_feedMessage {} i).run _) j
      have hyi : y.looper i = { x.looper i with pc := .handling m resultSuccess } := by
        rw [FeedSystem.looper, hstate]
        exact Function.update_self _ _ _
      obtain ⟨u, hu, hurun, huqueue, hulooper⟩ :=
        attempt_end size hret (by rw [hlooper, hyi])
      refine ⟨u, (hy.trans (goesOn_thread hz)).trans hu, fun t => ?_, ?_, fun j hj => ?_⟩
      · by_cases ht : t = .renderer i
        · rw [hurun, ht, Function.update_self]
        · rw [hurun, Function.update_of_ne ht, hothers t ht, hrun, Function.update_of_ne ht]
          exact hidle t
      · rw [huqueue, hlooper, hyi]
      · rw [hulooper j hj, hlooper, FeedSystem.looper, hstate]
        exact Function.update_of_ne hj _ _

/-- A looper with messages can serve one of them. -/
theorem Live.serve (h : Live size x) (hidle : AllIdle x) (hqueue : (x.looper i).queue ≠ []) :
    ∃ y, GoesOn size x y ∧ AllIdle y ∧
      (y.looper i).queue = (x.looper i).queue.tail ∧ ∀ j, j ≠ i → y.looper j = x.looper j := by
  obtain ⟨n, _, hat⟩ := (h.inv.streams i).progress
  cases hat with
  | attempt m v p pc queue running run => rw [hidle] at running; cases running
  | popping m pc queue running line =>
      exact ⟨_, goesOn_popFront pc, hidle, by rw [looper_setLooper], fun j hj =>
        Function.update_of_ne hj _ _⟩
  | waiting pc running line =>
      obtain ⟨y, hy, hyrun, hyi, hyj⟩ := h.to_top pc
      obtain ⟨z, hz, hzrun, hzlooper, hfree⟩ := (hy.live h).buffer_back i
      have hlive := (hy.trans hz).live h
      have hzi : z.looper i = { x.looper i with pc := .top } := (hzlooper i).trans hyi
      obtain ⟨u, hu, huidle, huqueue, huj⟩ := hlive.attempt (fun t => by rw [hzrun, hyrun, hidle])
        (by rw [hzi]) (by rw [hzi]; exact hqueue) hfree
      refine ⟨u, (hy.trans hz).trans hu, huidle, by rw [huqueue, hzi], fun j hj => ?_⟩
      rw [huj j hj, hzlooper, hyj j hj]

/-- The looper of a stream can serve all of its messages. -/
theorem Live.serve_all (k : Nat) : ∀ {x : FeedSystem}, Live size x → AllIdle x →
    (x.looper i).queue.length = k →
    ∃ y, GoesOn size x y ∧ AllIdle y ∧ (y.looper i).queue = [] ∧
      ∀ j, j ≠ i → y.looper j = x.looper j := by
  induction k with
  | zero =>
      intro x _ hidle hlen
      exact ⟨x, .refl x, hidle, List.eq_nil_of_length_eq_zero hlen, fun _ _ => rfl⟩
  | succ k ih =>
      intro x h hidle hlen
      obtain ⟨y, hy, hyidle, hyqueue, hyj⟩ := h.serve (i := i) hidle (by
        intro hnil
        rw [hnil] at hlen
        cases hlen)
      obtain ⟨z, hz, hzidle, hzqueue, hzj⟩ := ih (hy.live h) hyidle (by
        rw [hyqueue, List.length_tail, hlen, Nat.add_sub_cancel])
      exact ⟨z, hy.trans hz, hzidle, hzqueue, fun j hj => (hzj j hj).trans (hyj j hj)⟩

end Serve

/-! ## The theorem -/

/-- A start from which nothing stops the threads: playback, loopers that run, codecs with input
buffers. -/
structure Fed (size : Nat) (s : Esplayer) : Prop extends Started size s where
  running : ∀ i, (s.renderer i).running = true
  loops : ∀ i, (s.renderer i).pc ≠ .exited
  buffers : ∀ i : StreamType, s.input i.codec ≠ []

theorem Fed.live {size : Nat} {s : Esplayer} (h : Fed size s) : Live size (Pool.init s) where
  inv := h.toStarted.feedInv
  sound := Pool.sound_init s
  programs _ _ hp := by cases hp
  buffers := h.buffers
  serving i := by
    refine ⟨h.running i, h.loops i, fun e he => ?_⟩
    change e ∈ (s.renderer i).queue at he
    rw [h.queue i] at he
    cases he
  clients := ⟨0, fun _ _ => rfl⟩

/-- Both loopers can empty their queues, and the streams are quiet then. -/
theorem Live.drains {size : Nat} {x : FeedSystem} (h : Live size x)
    (hrenderers : ∀ i, x.running (.renderer i) = none) :
    ∃ y, GoesOn size x y ∧ ∀ i, Quiescent i y := by
  obtain ⟨y, hy, hyidle⟩ := h.calls_return hrenderers
  obtain ⟨z, hz, hzidle, hzaudio, hzvideo⟩ :=
    Live.serve_all (i := .audioEs) _ (hy.live h) hyidle rfl
  obtain ⟨u, hu, huidle, huvideo, huaudio⟩ :=
    Live.serve_all (i := .videoEs) _ (hz.live (hy.live h)) hzidle rfl
  have hon := (hy.trans hz).trans hu
  have hqueue : ∀ i, (u.looper i).queue = [] := by
    intro i
    cases i with
    | audioEs => rw [huaudio .audioEs (by decide), hzaudio]
    | videoEs => exact huvideo
  refine ⟨u, hon, fun i => ⟨fun n => huidle _, hqueue i, ?_⟩⟩
  -- a looper that is in the middle of a message would have it in its queue
  obtain ⟨n, _, hat⟩ := ((hon.live h).inv.streams i).progress
  cases hat with
  | waiting pc running line => exact pc
  | attempt m v p pc queue running run => exact absurd (hqueue i) queue
  | popping m pc queue running line => exact absurd (hqueue i) queue

/-- Nothing that happened is forgotten. -/
theorem log_step {x y : FeedSystem} {a : FeedAct} (hy : FeedSystem.step x a = some y) :
    x.world.log <+: y.world.log := by
  cases FeedSystem.effect hy with
  | step t label taken => exact log_extends taken
  | call n c label idle eq => subst eq; exact List.prefix_rfl
  | returned n v label done eq => subst eq; exact List.prefix_rfl
  | attempt i v env m label top front idle eq => subst eq; exact List.prefix_rfl
  | handled i v m label handling done eq => subst eq; exact List.prefix_rfl
  | popFront i m label popping eq => subst eq; exact List.prefix_rfl
  | wait i l label queue calls pc eq => subst eq; exact List.prefix_rfl
  | emptyBufferDone i index label eq => subst eq; exact List.prefix_rfl

theorem GoesOn.pushed {size : Nat} {x y : FeedSystem} (h : GoesOn size x y) (i : StreamType) :
    passed x.world i .pushed <+: passed y.world i .pushed := by
  obtain ⟨bs, _, hy⟩ := h
  have hlog : x.world.log <+: y.world.log :=
    Lts.exec_invariant (P := fun z : FeedSystem => x.world.log <+: z.world.log)
      (Q := fun _ => True) (fun _ _ _ _ hz hstep => hz.trans (log_step hstep))
      (fun _ _ => trivial) List.prefix_rfl hy
  exact hlog.filterMap _

/-- **Feeding does not get stuck.** The start has both codecs (`Fed`), the frames fit and OMX
accepts every buffer (`FeedOnly`). From every state that `feedData` calls, attempts and returned
buffers lead to, if no attempt is under way, the threads can go on without a further call until no
call is in progress, both loopers have served their queues and every frame that was pushed has been
submitted to its codec, in order. -/
theorem feedingDrains {size : Nat} {s : Esplayer} {as : List FeedAct} {x : FeedSystem}
    (hs : Fed size s) (hlabels : ∀ a ∈ as, FeedOnly size a)
    (hrun : Lts.exec FeedSystem.step (Pool.init s) as = some x)
    (hrenderers : ∀ i, x.running (.renderer i) = none) :
    ∃ y, GoesOn size x y ∧ ∀ i, Quiescent i y ∧ y.world.state.frames i = [] ∧
      passed x.world i .pushed <+: passed y.world i .submitted ∧
      passed y.world i .submitted = passed y.world i .pushed := by
  have hlive : Live size x :=
    Lts.exec_invariant (fun _ _ _ ha h hstep => h.step ha hstep) hlabels hs.live hrun
  obtain ⟨y, hy, hquiet⟩ := hlive.drains hrenderers
  refine ⟨y, hy, fun i => ?_⟩
  obtain ⟨hframes, _, hsubmitted, _, _⟩ := (hy.live hlive).inv.drained (hquiet i)
  refine ⟨hquiet i, hframes, ?_, hsubmitted⟩
  rw [hsubmitted]
  exact hy.pushed i

/-- Two frames wait for a codec with one buffer. -/
theorem feedingDrains_twoFrames : ∃ x y,
    Lts.exec FeedSystem.step (Pool.init (feedingPlayer 1)) (feedOne 1 ++ feedOne 2) = some x ∧
      GoesOn 2 x y ∧ [⟨oneByte 1, 0⟩, ⟨oneByte 2, 1⟩] <+: passed y.world .videoEs .submitted := by
  have hbuffers : ∀ i : StreamType, (feedingPlayer 1).input i.codec ≠ [] := by
    intro i
    cases i <;> decide
  have hfed : Fed 2 (feedingPlayer 1) :=
    ⟨⟨⟨rfl, rfl, rfl, rfl⟩, fun _ => rfl, fun _ => rfl, fun _ => rfl⟩, fun _ => rfl,
      fun _ => LoopPc.noConfusion, hbuffers⟩
  have hlabels : ∀ a ∈ feedOne 1 ++ feedOne 2, FeedOnly 2 a := fun a ha =>
    (List.mem_append.mp ha).elim (feedOnly_feedOne 1 a) (feedOnly_feedOne 2 a)
  have hpushed : (Lts.exec FeedSystem.step (Pool.init (feedingPlayer 1))
      (feedOne 1 ++ feedOne 2)).map (fun x => passed x.world .videoEs .pushed) =
        some [⟨oneByte 1, 0⟩, ⟨oneByte 2, 1⟩] := by
    rfl
  have hidle : ∀ i, (Lts.exec FeedSystem.step (Pool.init (feedingPlayer 1))
      (feedOne 1 ++ feedOne 2)).map (fun x => (x.running (.renderer i)).isNone) = some true := by
    intro i
    cases i <;> rfl
  obtain ⟨x, hx, hpushed⟩ := Option.map_eq_some_iff.mp hpushed
  obtain ⟨y, hy, hdone⟩ := feedingDrains hfed hlabels hx fun i => by
    have := hidle i
    rw [hx, Option.map_some, Option.some.injEq] at this
    exact Option.isNone_iff_eq_none.mp this
  exact ⟨x, y, hx, hy, hpushed ▸ (hdone .videoEs).2.2.1⟩

end DirectMedia

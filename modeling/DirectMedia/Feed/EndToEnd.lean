import DirectMedia.Feed.Account

set_option autoImplicit false

/-! # From feedData to the codec

The renderer looper of a stream takes the messages from the front of its queue and retries each
until an attempt has removed a frame. Any number of clients call `feedData` meanwhile.

The two queues are kept in balance: a client appends a message only for a frame that it has pushed,
and the looper removes a message only after its attempt has removed a frame. So no attempt finds
the queue of the frames empty, and once all messages are removed no frame is left. `FeedInv` is the
invariant, `FeedInv.step` the step lemma.
-/

namespace DirectMedia

open Prog

/-! ## The invariant -/

/-- Frames are named by the number of the push. -/
def Numbered (w : FeedWorld) : Prop :=
  ∀ i, (passed w i .pushed).Nodup ∧ ∀ f ∈ passed w i .pushed, f.id < w.state.pushed

/-- What the others do to the looper of a stream: they append messages. -/
structure LooperRely (i : StreamType) (w v : FeedWorld) : Prop where
  pc : (v.state.renderer i).pc = (w.state.renderer i).pc
  queue : ∃ es, (v.state.renderer i).queue = (w.state.renderer i).queue ++ es ∧
    appended v i = appended w i + es.length

/-- Where the looper of the stream stands when `n` frames have been removed for messages that have
left its queue. -/
inductive StreamAt (size : Nat) (i : StreamType) (n : Nat) (x : FeedSystem) : Prop
  | waiting (pc : (x.looper i).pc.inFlight = none) (running : x.running (.renderer i) = none)
      (line : Line size i n [] [] [] x.world)
  | attempt (m : Message) (v : Int) (p : Op Int) (pc : (x.looper i).pc = .handling m v)
      (queue : (x.looper i).queue ≠ []) (running : x.running (.renderer i) = some p)
      (run : Ensures (.renderer i) (LineRely size i) (LineGuar size i n) (LineEnd size i n) p
        x.world)
  | popping (m : Message) (pc : (x.looper i).pc = .popping m) (queue : (x.looper i).queue ≠ [])
      (running : x.running (.renderer i) = none) (line : Line size i (n + 1) [] [] [] x.world)

/-- What holds of a stream. Every message that was appended is in the queue, or a frame has been
removed for it. -/
structure FeedStream (size : Nat) (i : StreamType) (x : FeedSystem) : Prop where
  inOrder : InOrder i x.world
  progress : ∃ n, appended x.world i = (x.looper i).queue.length + n ∧ StreamAt size i n x

/-- What holds of a client thread. -/
structure ClientInv (size n : Nat) (x : FeedSystem) : Prop where
  le : ∀ i, appends x.world (.client n) i ≤ pushes x.world (.client n) i
  idle : x.running (.client n) = none → Owes (.client n) none x.world
  calling : ∀ p, x.running (.client n) = some p →
    Ensures (.client n) (ClientRely n) (ClientGuar size n) (fun _ => Owes (.client n) none) p
      x.world

/-- What holds between two steps. -/
structure FeedInv (size : Nat) (x : FeedSystem) : Prop where
  numbered : Numbered x.world
  renderers : ∀ i, Owes (.renderer i) none x.world
  clients : ∀ n, ClientInv size n x
  streams : ∀ i, FeedStream size i x

section Stable

variable {size : Nat} {i : StreamType} {w v : FeedWorld} {x y : FeedSystem}

theorem Numbered.congr (h : Numbered w) (htransfers : transfers v = transfers w)
    (hpushed : v.state.pushed = w.state.pushed) : Numbered v := by
  intro i
  rw [pushed_of_transfers htransfers, hpushed]
  exact h i

theorem looperRely_of_same (htransfers : transfers v = transfers w)
    (hlooper : v.state.renderer i = w.state.renderer i) : LooperRely i w v where
  pc := by rw [hlooper]
  queue := ⟨[], by rw [hlooper, List.append_nil], appended_of_transfers htransfers i⟩

/-- A step that only changes loopers. -/
theorem lineRely_of_same (i : StreamType) (hlog : v.log = w.log)
    (hframes : v.state.frames = w.state.frames)
    (hcomponent : v.state.component = w.state.component)
    (henable : v.state.enableVideo = w.state.enableVideo) : LineRely size i w v where
  queue := ⟨[], by simp [passed_congr hlog], by simp [hframes], by simp⟩
  stages st _ := passed_congr hlog i st
  ready h := by
    refine ⟨?_, ?_, ?_, by rw [henable]; exact h.enableVideo⟩
    all_goals rw [hcomponent]
    · exact h.audio
    · exact h.video
    · exact h.size
  free := by rw [Esplayer.free, Esplayer.input, Esplayer.free, Esplayer.input, hcomponent]

theorem InOrder.stable (h : InOrder i w) (hR : LineRely size i w v) : InOrder i v := by
  obtain ⟨fs, hpushed, _, _⟩ := hR.queue
  have hadjusted := hR.stages .adjusted (by decide)
  have hsynced := hR.stages .synced (by decide)
  have hsubmitted := hR.stages .submitted (by decide)
  have hpopped := hR.stages .popped (by decide)
  constructor
  · rw [hadjusted, hpushed]
    exact h.adjusted.trans (List.prefix_append _ _)
  · rw [hsynced, hadjusted]
    exact h.synced
  · rw [hsubmitted, hadjusted]
    exact h.submitted_adjusted
  · rw [hsubmitted, hsynced]
    exact h.submitted_synced
  · rw [hpopped, hsubmitted]
    exact h.popped
  · rw [hadjusted, hpopped]
    exact h.one

theorem StreamAt.stable {n : Nat} (h : StreamAt size i n x)
    (hline : LineRely size i x.world y.world)
    (hlooper : LooperRely i x.world y.world)
    (hrun : y.running (.renderer i) = x.running (.renderer i)) : StreamAt size i n y := by
  obtain ⟨es, hqueue, _⟩ := hlooper.queue
  have hpc : (y.looper i).pc = (x.looper i).pc := hlooper.pc
  have hne : (x.looper i).queue ≠ [] → (y.looper i).queue ≠ [] := by
    intro hx hy
    exact hx (List.append_eq_nil_iff.mp (hqueue.symm.trans hy)).1
  cases h with
  | waiting pc running line =>
      exact .waiting (by rw [hpc, pc]) (by rw [hrun, running]) (line.stable hline)
  | attempt m v p pc queue running run =>
      exact .attempt m v p (hpc.trans pc) (hne queue) (hrun.trans running)
        (run.stable (lineRely_trans size i) hline)
  | popping m pc queue running line =>
      exact .popping m (hpc.trans pc) (hne queue) (hrun.trans running) (line.stable hline)

/-- The others do not matter to a stream. -/
theorem FeedStream.stable (h : FeedStream size i x) (hline : LineRely size i x.world y.world)
    (hlooper : LooperRely i x.world y.world)
    (hrun : y.running (.renderer i) = x.running (.renderer i)) : FeedStream size i y := by
  obtain ⟨n, hcount, hat⟩ := h.progress
  obtain ⟨es, hqueue, happended⟩ := hlooper.queue
  have hqueue : (y.looper i).queue = (x.looper i).queue ++ es := hqueue
  refine ⟨h.inOrder.stable hline, n, ?_, hat.stable hline hlooper hrun⟩
  rw [happended, hcount, hqueue, List.length_append]
  omega

theorem ClientInv.stable {n : Nat} (h : ClientInv size n x) (hR : ClientRely n x.world y.world)
    (hrun : y.running (.client n) = x.running (.client n)) : ClientInv size n y where
  le i := by
    rw [appends, pushes, World.count, World.count, hR]
    exact h.le i
  idle hnone := (h.idle (hrun ▸ hnone)).congr hR
  calling p hp := (h.calling p (hrun ▸ hp)).stable (fun _ _ _ h h' => h'.trans h) hR

/-- A step that transfers nothing and changes one stream only. -/
theorem FeedInv.setStream (h : FeedInv size x) (htransfers : transfers y.world = transfers x.world)
    (hpushed : y.world.state.pushed = x.world.state.pushed)
    (hevents : ∀ n, ClientRely n x.world y.world) (hi : FeedStream size i y)
    (hothers : ∀ j, j ≠ i → LineRely size j x.world y.world ∧ LooperRely j x.world y.world)
    (hrun : ∀ t, t ≠ .renderer i → y.running t = x.running t) : FeedInv size y where
  numbered := h.numbered.congr htransfers hpushed
  renderers j := (h.renderers j).of_transfers htransfers
  clients n := (h.clients n).stable (hevents n) (hrun _ (by simp))
  streams j := by
    by_cases hj : j = i
    · subst hj
      exact hi
    · exact (h.streams j).stable (hothers j hj).1 (hothers j hj).2 (hrun _ (by simpa using hj))

/-- A step that only changes the looper of one stream. -/
theorem FeedInv.setLooper (h : FeedInv size x) {l : Looper}
    (hw : y.world = (x.setLooper i l).world)
    (hrun : ∀ t, t ≠ .renderer i → y.running t = x.running t)
    (hi : FeedStream size i y) : FeedInv size y := by
  refine h.setStream (by rw [hw]; rfl) (by rw [hw]; rfl) (fun _ => by rw [ClientRely, hw]; rfl) hi
    (fun j hj => ?_) hrun
  rw [hw]
  exact ⟨lineRely_of_same j rfl rfl rfl rfl,
    looperRely_of_same rfl (Function.update_of_ne hj _ _)⟩

end Stable

/-! ## The clients -/

/-- What a push adds to a stream. -/
def StreamBuffer.pushedOn (b : StreamBuffer) (id : Nat) (i : StreamType) : List Frame :=
  if b.streamType = i then [⟨b, id⟩] else []

theorem StreamBuffer.mem_pushedOn {b : StreamBuffer} {id : Nat} {i : StreamType} {f : Frame}
    (h : f ∈ b.pushedOn id i) : b.streamType = i ∧ f = ⟨b, id⟩ := by
  unfold pushedOn at h
  split at h
  case isTrue hb => exact ⟨hb, List.mem_singleton.mp h⟩
  case isFalse => cases h

theorem frames_push (b : StreamBuffer) (s : Esplayer) (i : StreamType) :
    (pushAction b s).2.frames i = s.frames i ++ b.pushedOn s.pushed i := by
  by_cases hb : b.streamType = i
  · subst hb
    simp [pushAction, StreamBuffer.pushedOn]
  · simp [pushAction, StreamBuffer.pushedOn, hb, Function.update_of_ne (Ne.symm hb)]

theorem pushed_push (b : StreamBuffer) (w : FeedWorld) (t : Thread) (i : StreamType) :
    passed (w.after t (pushAction b)) i .pushed =
      passed w i .pushed ++ b.pushedOn w.state.pushed i := by
  rw [passed_after]
  by_cases hb : b.streamType = i <;>
    simp [pushAction, Stage.frame, StreamBuffer.pushedOn, hb]

theorem appended_after (w : FeedWorld) (t : Thread) (a : Action) (i : StreamType) :
    appended (w.after t a) i = appended w i + (a w.state).1.toList.countP (·.isAppend i) := by
  rw [appended, World.total, World.after_log, List.countP_append, List.countP_map]
  rfl

namespace FeedDataAction

variable {size : Nat} {a : Action}

/-- A stream sees a client push frames that fit. -/
theorem line (h : FeedDataAction size a) (w : FeedWorld) (t : Thread) (j : StreamType) :
    LineRely size j w (w.after t a) := by
  cases h with
  | silent h => exact h.rely t
  | @push b h =>
      refine ⟨⟨b.pushedOn w.state.pushed j, pushed_push b w t j, frames_push b w.state j, ?_⟩,
        fun st hst => ?_, fun h => ⟨h.audio, h.video, h.size, h.enableVideo⟩, le_rfl⟩
      · intro f hf
        obtain ⟨hb, rfl⟩ := StreamBuffer.mem_pushedOn hf
        exact ⟨hb, h⟩
      · rw [passed_after]
        cases st <;> simp_all [pushAction, Stage.frame]
  | append i =>
      have hpassed : ∀ st, passed (w.after t (appendAction i)) j st = passed w j st := by
        intro st
        rw [passed_after]
        cases st <;> simp [appendAction, Stage.frame]
      exact ⟨⟨[], by simp [hpassed], by simp [appendAction, Esplayer.onRenderer], by simp⟩,
        fun st _ => hpassed st, fun h => ⟨h.audio, h.video, h.size, h.enableVideo⟩, le_rfl⟩

/-- A looper sees a client append messages. -/
theorem looper (h : FeedDataAction size a) (w : FeedWorld) (t : Thread) (j : StreamType) :
    LooperRely j w (w.after t a) := by
  cases h with
  | silent h => exact looperRely_of_same (h.apart t).transfers (congrFun (h.apart t).renderer j)
  | push h =>
      refine ⟨rfl, [], (List.append_nil _).symm, ?_⟩
      rw [appended_after]
      rfl
  | append i =>
      by_cases hi : i = j
      · subst hi
        refine ⟨?_, [some ⟨(w.state.renderer i).calls, (w.state.renderer i).now⟩], ?_, ?_⟩
        · simp [appendAction, Esplayer.onRenderer, Looper.appendNow_eq]
        · simp [appendAction, Esplayer.onRenderer, Looper.appendNow_eq]
        · rw [appended_after]
          simp [appendAction, Event.isAppend]
      · have hlooper : (w.after t (appendAction i)).state.renderer j = w.state.renderer j :=
          Function.update_of_ne (Ne.symm hi) _ _
        refine ⟨by rw [hlooper], [], by rw [hlooper, List.append_nil], ?_⟩
        rw [appended_after]
        simp [appendAction, Event.isAppend, hi]

theorem numbered (h : FeedDataAction size a) {w : FeedWorld} (hw : Numbered w) (t : Thread) :
    Numbered (w.after t a) := by
  cases h with
  | silent h => exact hw.congr (h.apart t).transfers (h.apart t).pushed
  | @push b h =>
      intro j
      obtain ⟨hnodup, hlt⟩ := hw j
      have hnew : ∀ f ∈ b.pushedOn w.state.pushed j, f.id = w.state.pushed := by
        intro f hf
        rw [(StreamBuffer.mem_pushedOn hf).2]
      rw [pushed_push]
      change _ ∧ ∀ f : Frame, _ → f.id < w.state.pushed + 1
      constructor
      · refine List.nodup_append.mpr ⟨hnodup, ?_, fun f hf g hg hfg => ?_⟩
        · unfold StreamBuffer.pushedOn
          split <;> simp
        · have := hlt f hf
          rw [hfg, hnew g hg] at this
          exact lt_irrefl _ this
      · intro f hf
        rcases List.mem_append.mp hf with hf | hf
        · exact (hlt f hf).trans (Nat.lt_succ_self _)
        · rw [hnew f hf]
          exact Nat.lt_succ_self _
  | append i =>
      intro j
      rw [passed_after]
      exact (List.append_nil (passed w j .pushed)).symm ▸ hw j

end FeedDataAction

/-! ## The steps -/

/-- The labels: calls of `feedData` with frames that fit, attempts with an OMX that accepts every
buffer, and every other step of the clients, the loopers and the codecs. Nobody flushes. -/
def FeedOnly (size : Nat) : FeedAct → Prop
  | .call _ (.feedData buff) => ∀ b, buff = some b → Fits size b
  | .call _ (.flush _) => False
  | .look _ _ env => ∀ offset, env.accept offset = 0
  | _ => True

section Steps

variable {size : Nat} {i : StreamType} {x y : FeedSystem} {a : FeedAct}

/-- A step of an attempt. -/
theorem StreamAt.step {n : Nat} (h : StreamAt size i n x)
    (hy : Pool.step x (.renderer i) = some y) :
    StreamAt size i n y ∧ (y.world = x.world ∨ LineGuar size i n x.world y.world) := by
  obtain ⟨⟨q, hq⟩, _⟩ := Pool.step_running hy
  cases h with
  | waiting pc running line => rw [running] at hq; cases hq
  | popping m pc queue running line => rw [running] at hq; cases hq
  | attempt m v p pc queue running run =>
      obtain ⟨hG, p', hp', hrun⟩ := Pool.step_ensures (lineRely_refl size i) hy running run
      have hlooper : y.looper i = x.looper i := by
        rw [FeedSystem.looper, FeedSystem.looper]
        rcases hG with hw | hG
        · rw [hw]
        · rw [hG.apart.renderer]
      exact ⟨.attempt m v p' (by rw [hlooper, pc]) (by rw [hlooper]; exact queue) hp' hrun, hG⟩

/-- A step of a client. -/
theorem ClientInv.step {n : Nat} (h : ClientInv size n x)
    (hy : Pool.step x (.client n) = some y) :
    ClientInv size n y ∧
      (y.world = x.world ∨ ∃ act, FeedDataAction size act ∧
        y.world = x.world.after (.client n) act) := by
  obtain ⟨⟨p, hp⟩, _⟩ := Pool.step_running hy
  obtain ⟨hG, q, hq, hrun⟩ := Pool.step_ensures (clientRely_refl n) hy hp (h.calling p hp)
  refine ⟨⟨?_, fun hnone => ?_, fun q' hq' => ?_⟩, ?_⟩
  · rcases hG with hw | hG
    · rw [hw]; exact h.le
    · exact hG.le
  · rw [hq] at hnone
    cases hnone
  · rw [hq, Option.some.injEq] at hq'
    exact hq' ▸ hrun
  · exact hG.imp id (·.action)

theorem lineRely_emptyBufferDone (x : FeedSystem) (i j : StreamType) (index : Nat) :
    LineRely size i x.world (x.setState (x.world.state.onComponent j.codec fun comp =>
      { comp with input := comp.input.emptyBufferDone index })).world where
  queue := ⟨[], (List.append_nil _).symm, (List.append_nil _).symm, by simp⟩
  stages _ _ := rfl
  ready h := h.onComponent _ fun _ => rfl
  free := by
    by_cases hij : i = j
    · subst hij
      simp only [FeedSystem.setState, Esplayer.free, Esplayer.input, Esplayer.onComponent,
        Function.update_self]
      cases x.world.state.component i.codec with
      | none => exact le_rfl
      | some comp => exact comp.input.getFreeBufferCount_emptyBufferDone index
    · refine le_of_eq (congrArg Port.getFreeBufferCount ?_)
      exact (input_onComponent_ne (codec_ne hij) x.world.state _).symm

/-- To a stream every step is one of the others', but for those of its own attempts. -/
theorem FeedInv.line_step (h : FeedInv size x) (hy : FeedSystem.step x a = some y)
    (ha : a ≠ .step (.renderer i)) : LineRely size i x.world y.world := by
  cases FeedSystem.effect hy with
  | call n c label idle eq => subst eq; exact lineRely_refl size i _
  | returned n v label done eq => subst eq; exact lineRely_refl size i _
  | step t label taken =>
      subst label
      cases t with
      | client n =>
          obtain ⟨_, hw | ⟨act, hact, hw⟩⟩ := (h.clients n).step taken
          · rw [hw]; exact lineRely_refl size i _
          · rw [hw]; exact hact.line _ _ i
      | renderer j =>
          have hij : i ≠ j := by
            rintro rfl
            exact ha rfl
          obtain ⟨n, _, hat⟩ := (h.streams j).progress
          obtain ⟨_, hw | hG⟩ := hat.step taken
          · rw [hw]; exact lineRely_refl size i _
          · exact hG.others i hij
  | attempt j v env m label top front idle eq =>
      subst eq; exact lineRely_of_same i rfl rfl rfl rfl
  | handled j v m label handling done eq => subst eq; exact lineRely_of_same i rfl rfl rfl rfl
  | popFront j m label popping eq => subst eq; exact lineRely_of_same i rfl rfl rfl rfl
  | wait j l label queue calls pc eq => subst eq; exact lineRely_of_same i rfl rfl rfl rfl
  | emptyBufferDone j index label eq => subst eq; exact lineRely_emptyBufferDone x i j index

theorem looper_setLooper (x : FeedSystem) (i : StreamType) (l : Looper) :
    (x.setLooper i l).looper i = l :=
  Function.update_self _ _ _

/-- There are no more messages than frames. -/
theorem FeedInv.appended_le (h : FeedInv size x) (i : StreamType) :
    appended x.world i ≤ (passed x.world i .pushed).length := by
  refine DirectMedia.appended_le fun t => ?_
  cases t with
  | renderer j => exact (h.renderers j).le i
  | client n => exact (h.clients n).le i

/-- A message in the queue stands for a frame that has not been removed. -/
theorem FeedInv.frames_ne_nil (h : FeedInv size x) {n : Nat}
    (hcount : appended x.world i = (x.looper i).queue.length + n)
    (hqueue : (x.looper i).queue ≠ []) (hline : Line size i n [] [] [] x.world) :
    x.world.state.frames i ≠ [] := by
  intro hnil
  have hle := h.appended_le i
  have hpos := List.length_pos_iff.mpr hqueue
  rw [hline.queue, hnil, List.append_nil, hline.count] at hle
  omega

/-- The looper hands the front message to its handler: an attempt starts. -/
theorem FeedInv.attempt (h : FeedInv size x) {m : Message} {v : Int} {env : FeedEnv}
    (henv : ∀ offset, env.accept offset = 0) (top : (x.looper i).pc = .top)
    (front : ∃ q, (x.looper i).queue = some m :: q) {l : Looper}
    (hl : l = { x.looper i with pc := .handling m v }) :
    FeedStream size i ((x.setLooper i l).setRunning (.renderer i) (some (feedMessage env i))) := by
  obtain ⟨n, hcount, hat⟩ := (h.streams i).progress
  have hqueue : (x.looper i).queue ≠ [] := by
    obtain ⟨q, hq⟩ := front
    simp [hq]
  have hsame : LineRely size i x.world (x.setLooper i l).world :=
    lineRely_of_same i rfl rfl rfl rfl
  have hlooper := looper_setLooper x i l
  refine ⟨(h.streams i).inOrder.stable hsame, n, ?_, ?_⟩
  · change _ = ((x.setLooper i l).looper i).queue.length + n
    rw [hlooper, hl]
    exact hcount
  · cases hat with
    | attempt m v p pc queue running run => rw [top] at pc; cases pc
    | popping m pc queue running line => rw [top] at pc; cases pc
    | waiting pc running line =>
        refine .attempt m v (feedMessage env i) ?_ ?_ (Pool.running_setRunning_self _ _ _) ?_
        · exact (congrArg (·.pc) hlooper).trans (congrArg (·.pc) hl)
        · change ((x.setLooper i l).looper i).queue ≠ []
          rw [hlooper, hl]
          exact hqueue
        · have hphase : LinePhase size i n (.start false) x.world :=
            ⟨line, h.frames_ne_nil hcount hqueue line, fun hr => by cases hr⟩
          exact (lineRules size i n henv).feedMessage (hphase.stable hsame)

/-- The handler has returned: a message that succeeded will be removed, as its frame was. -/
theorem FeedStream.handled (h : FeedStream size i x) {m : Message} {v : Int} {l : Looper}
    (handling : (x.looper i).pc = .handling m v) (done : x.running (.renderer i) = some (ret v))
    (hl : l = { x.looper i with pc := if v = resultSuccess then .popping m else .sleeping })
    (hw : y.world = (x.setLooper i l).world) (hrun : y.running (.renderer i) = none) :
    FeedStream size i y := by
  obtain ⟨n, hcount, hat⟩ := h.progress
  have hsame : LineRely size i x.world y.world := by
    rw [hw]
    exact lineRely_of_same i rfl rfl rfl rfl
  have hlooper : y.looper i = l := by
    rw [FeedSystem.looper, hw]
    exact looper_setLooper x i l
  refine ⟨h.inOrder.stable hsame, n, ?_, ?_⟩
  · rw [hlooper, hw, hl]
    exact hcount
  · cases hat with
    | waiting pc running line => rw [done] at running; cases running
    | popping m pc queue running line => rw [done] at running; cases running
    | attempt m' v' p pc queue running run =>
        rw [done, Option.some.injEq] at running
        subst running
        rcases run _ hsame with ⟨rfl, hline⟩ | ⟨rfl, hline⟩
        · exact .popping m (by rw [hlooper, hl]; rfl) (by rw [hlooper, hl]; exact queue) hrun hline
        · exact .waiting (by rw [hlooper, hl]; rfl) hrun hline

theorem FeedStream.popFront (h : FeedStream size i x) {m : Message} {l : Looper}
    (popping : (x.looper i).pc = .popping m)
    (hl : l = { x.looper i with queue := (x.looper i).queue.tail, pc := .top }) :
    FeedStream size i (x.setLooper i l) := by
  obtain ⟨n, hcount, hat⟩ := h.progress
  have hsame : LineRely size i x.world (x.setLooper i l).world :=
    lineRely_of_same i rfl rfl rfl rfl
  have hlooper := looper_setLooper x i l
  cases hat with
  | waiting pc running line => rw [popping] at pc; cases pc
  | attempt m v p pc queue running run => rw [popping] at pc; cases pc
  | popping m pc queue running line =>
      refine ⟨h.inOrder.stable hsame, n + 1, ?_, .waiting ?_ running (line.stable hsame)⟩
      · have hpos := List.length_pos_iff.mpr queue
        rw [hlooper, hl, List.length_tail]
        change appended x.world i = _
        omega
      · rw [hlooper, hl]
        rfl

/-- A step of the looper between two messages. -/
theorem FeedStream.wait (h : FeedStream size i x) {l : Looper}
    (queue : l.queue = (x.looper i).queue)
    (pc : l.pc = (x.looper i).pc ∨ (x.looper i).pc.inFlight = none ∧ l.pc.inFlight = none) :
    FeedStream size i (x.setLooper i l) := by
  have hsame : LineRely size i x.world (x.setLooper i l).world :=
    lineRely_of_same i rfl rfl rfl rfl
  have hlooper := looper_setLooper x i l
  rcases pc with hpc | ⟨hnone, hpc⟩
  · refine h.stable hsame ⟨(congrArg (·.pc) hlooper).trans hpc, [], ?_, rfl⟩ rfl
    rw [List.append_nil]
    exact (congrArg (·.queue) hlooper).trans queue
  · obtain ⟨n, hcount, hat⟩ := h.progress
    refine ⟨h.inOrder.stable hsame, n, ?_, ?_⟩
    · rw [hlooper, queue]
      exact hcount
    · cases hat with
      | waiting pc running line =>
          exact .waiting (by rw [hlooper, hpc]) running (line.stable hsame)
      | attempt m v p pc queue running run => rw [pc] at hnone; cases hnone
      | popping m pc queue running line => rw [pc] at hnone; cases hnone

/-- A client's call starts or returns. -/
theorem FeedInv.setClient (h : FeedInv size x) {n : Nat} {p : Option (Op Int)}
    (hn : ClientInv size n (x.setRunning (.client n) p)) :
    FeedInv size (x.setRunning (.client n) p) where
  numbered := h.numbered
  renderers := h.renderers
  clients m := by
    by_cases hm : m = n
    · exact hm ▸ hn
    · exact (h.clients m).stable rfl (Pool.running_setRunning_ne x (by simpa using hm) p)
  streams i :=
    (h.streams i).stable (lineRely_refl size i _) ⟨rfl, [], (List.append_nil _).symm, rfl⟩
    (Pool.running_setRunning_ne x (by simp) p)

theorem FeedInv.stepClient (h : FeedInv size x) {n : Nat}
    (hy : Pool.step x (.client n) = some y) : FeedInv size y := by
  obtain ⟨hn, hG⟩ := (h.clients n).step hy
  have hevents : ∀ t, t ≠ .client n → y.world.events t = x.world.events t :=
    fun t ht => Pool.step_events_ne hy ht
  have hrun : ∀ t, t ≠ .client n → y.running t = x.running t :=
    fun t ht => Pool.step_running_ne hy ht
  refine ⟨?_, fun i => (h.renderers i).congr (hevents _ (by simp)), fun m => ?_, fun i => ?_⟩
  · rcases hG with hw | ⟨act, hact, hw⟩
    · rw [hw]; exact h.numbered
    · rw [hw]; exact hact.numbered h.numbered _
  · by_cases hm : m = n
    · exact hm ▸ hn
    · exact (h.clients m).stable (hevents _ (by simpa using hm)) (hrun _ (by simpa using hm))
  · refine (h.streams i).stable (h.line_step (a := .step (.client n)) hy (by simp)) ?_
      (hrun _ (by simp))
    rcases hG with hw | ⟨act, hact, hw⟩
    · rw [hw]; exact looperRely_of_same rfl rfl
    · rw [hw]; exact hact.looper _ _ i

theorem FeedInv.stepRenderer (h : FeedInv size x) (hy : Pool.step x (.renderer i) = some y) :
    FeedInv size y := by
  obtain ⟨n, hcount, hat⟩ := (h.streams i).progress
  obtain ⟨hat, hG⟩ := hat.step hy
  have hrun : ∀ t, t ≠ .renderer i → y.running t = x.running t :=
    fun t ht => Pool.step_running_ne hy ht
  have hevents : ∀ n, ClientRely n x.world y.world :=
    fun n => Pool.step_events_ne hy (by simp)
  have hapart : Apart x.world y.world := by
    rcases hG with hw | hG
    · rw [hw]; exact ⟨rfl, rfl, rfl⟩
    · exact hG.apart
  refine h.setStream hapart.transfers hapart.pushed hevents ⟨?_, n, ?_, hat⟩ (fun j hj => ⟨?_, ?_⟩)
    hrun
  · rcases hG with hw | hG
    · rw [hw]; exact (h.streams i).inOrder
    · exact hG.inOrder
  · have hlooper : y.looper i = x.looper i := congrFun hapart.renderer i
    rw [appended_of_transfers hapart.transfers, hcount, hlooper]
  · exact h.line_step (a := .step (.renderer i)) hy (by simpa using hj.symm)
  · exact looperRely_of_same hapart.transfers (congrFun hapart.renderer j)

/-- The step lemma. -/
theorem FeedInv.step (h : FeedInv size x) (ha : FeedOnly size a)
    (hy : FeedSystem.step x a = some y) : FeedInv size y := by
  cases FeedSystem.effect hy with
  | call n c label idle eq =>
      subst label eq
      -- the thread of the application starts a call
      refine h.setClient ⟨(h.clients n).le, fun hnone => ?_, fun p hp => ?_⟩
      · rw [Pool.running_setRunning_self] at hnone
        cases hnone
      · rw [Pool.running_setRunning_self, Option.some.injEq] at hp
        subst hp
        cases c with
        | feedData buff => exact ensures_feedData ha ((h.clients n).idle idle)
        | flush env => exact ha.elim
  | returned n v label done eq =>
      subst eq
      refine h.setClient ⟨(h.clients n).le, fun _ => ?_, fun p hp => ?_⟩
      · exact (h.clients n).calling _ done _ (clientRely_refl n _)
      · rw [Pool.running_setRunning_self] at hp
        cases hp
  | step t label taken =>
      cases t with
      | client n => exact h.stepClient taken
      | renderer i => exact h.stepRenderer taken
  | attempt i v env m label top front idle eq =>
      subst label eq
      exact h.setLooper rfl (fun t ht => Pool.running_setRunning_ne _ ht _)
        (h.attempt ha top front rfl)
  | handled i v m label handling done eq =>
      subst eq
      exact h.setLooper rfl (fun t ht => Pool.running_setRunning_ne _ ht _)
        ((h.streams i).handled handling done rfl rfl (Pool.running_setRunning_self _ _ _))
  | popFront i m label popping eq =>
      subst eq
      exact h.setLooper rfl (fun _ _ => rfl) ((h.streams i).popFront popping rfl)
  | wait i l label queue calls pc eq =>
      subst eq
      exact h.setLooper rfl (fun _ _ => rfl) ((h.streams i).wait queue pc)
  | emptyBufferDone i index label eq =>
      subst eq
      refine ⟨h.numbered, h.renderers, fun n => (h.clients n).stable rfl rfl, fun j => ?_⟩
      -- a returned buffer frees a place and touches no queue
      exact (h.streams j).stable (lineRely_emptyBufferDone x j i index)
        (looperRely_of_same rfl rfl) rfl

end Steps

/-! ## Attempts that find the codec full -/

/-- An attempt that started when `n` frames had been removed is under way and has adjusted one. -/
structure Advanced (size : Nat) (i : StreamType) (n : Nat) (x : FeedSystem) : Prop where
  inv : FeedInv size x
  attempt : ∃ p, x.running (.renderer i) = some p ∧
    Ensures (.renderer i) (LineRely size i) (LineGuar size i n) (LineEnd size i n) p x.world
  adjusted : n < (passed x.world i .adjusted).length

section Advanced

variable {size : Nat} {i : StreamType} {n : Nat} {x y : FeedSystem} {a : FeedAct}

theorem log_extends {t : Thread} (hy : Pool.step x t = some y) : x.world.log <+: y.world.log := by
  rw [Pool.step_log hy]
  exact List.prefix_append _ _

theorem length_passed_le {w v : FeedWorld} (h : w.log <+: v.log) (i : StreamType) (st : Stage) :
    (passed w i st).length ≤ (passed v i st).length :=
  (h.filterMap _).length_le

/-- Only `handled` ends an attempt. -/
theorem running_step (hy : FeedSystem.step x a = some y) (ha : a ≠ .step (.renderer i))
    (hhandled : a ≠ .handled i) {p : Op Int} (hp : x.running (.renderer i) = some p) :
    y.running (.renderer i) = some p := by
  cases FeedSystem.effect hy with
  | call m c label idle eq =>
      subst eq
      rwa [Pool.running_setRunning_ne x (by simp)]
  | returned m v label done eq =>
      subst eq
      rwa [Pool.running_setRunning_ne x (by simp)]
  | step t label taken =>
      subst label
      rwa [Pool.step_running_ne taken fun ht => ha (by rw [ht])]
  | attempt j v env m label top front idle eq =>
      have hij : i ≠ j := by
        rintro rfl
        rw [idle] at hp
        cases hp
      subst eq
      rwa [Pool.running_setRunning_ne _ (by simpa using hij)]
  | handled j v m label handling done eq =>
      have hij : i ≠ j := by
        rintro rfl
        exact hhandled label
      subst eq
      exact (Pool.running_setRunning_ne x (by simpa using hij) none).trans hp
  | popFront j m label popping eq => subst eq; exact hp
  | wait j l label queue calls pc eq => subst eq; exact hp
  | emptyBufferDone j index label eq => subst eq; exact hp

theorem Advanced.step (h : Advanced size i n x) (ha : FeedOnly size a) (hhandled : a ≠ .handled i)
    (hy : FeedSystem.step x a = some y) : Advanced size i n y := by
  obtain ⟨p, hp, hrun⟩ := h.attempt
  by_cases hstep : a = .step (.renderer i)
  · subst hstep
    obtain ⟨_, q, hq, hrun⟩ := Pool.step_ensures (lineRely_refl size i) hy hp hrun
    exact ⟨h.inv.step ha hy, ⟨q, hq, hrun⟩,
      h.adjusted.trans_le (length_passed_le (log_extends hy) i .adjusted)⟩
  · have hline := h.inv.line_step hy hstep
    refine ⟨h.inv.step ha hy, ⟨p, running_step hy hstep hhandled hp,
      hrun.stable (lineRely_trans size i) hline⟩, ?_⟩
    rw [hline.stages .adjusted (by decide)]
    exact h.adjusted

/-- An attempt that has adjusted a frame does not report a full codec. -/
theorem Advanced.not_full (h : Advanced size i n x) :
    x.shows (.renderer i) ≠ some (.fed i resultFeedFull) := by
  intro hshows
  obtain ⟨p, hp, hrun⟩ := h.attempt
  obtain ⟨f, k, y, _, hf, hy, hw⟩ := Pool.step_of_shows hshows
  have hlog : y.world.log = x.world.log ++ [(.renderer i, .fed i resultFeedFull)] := by
    rw [Pool.step_log hy, hshows]
    rfl
  have hle : (passed y.world i .adjusted).length ≤ n := by
    rcases (Pool.step_ensures (lineRely_refl size i) hy hp hrun).1 with hsame | hG
    · rw [hsame] at hlog
      exact absurd hlog (by simp)
    · exact hG.full hlog
  have hmono := length_passed_le (log_extends hy) i .adjusted
  have := h.adjusted
  omega

/-- The steps of an attempt that reports a full codec, whatever happens in between, change
nothing. -/
theorem FeedInv.full {bs : List FeedAct} :
    ∀ {x}, FeedInv size x → (∀ b ∈ bs, FeedOnly size b) → (∀ b ∈ bs, b ≠ .handled i) →
      Lts.exec FeedSystem.step x bs = some y →
      y.shows (.renderer i) = some (.fed i resultFeedFull) →
      Lts.Along FeedSystem.step (fun z b => b = .step (.renderer i) →
        ∀ z', FeedSystem.step z b = some z' → z'.world.state = z.world.state) x bs := by
  induction bs with
  | nil => intros; trivial
  | cons b bs ih =>
      intro x h hlabels hhandled hexec hshows
      obtain ⟨z, hz, hrest⟩ := Lts.exec_cons_iff.mp hexec
      have hzinv := h.step (hlabels b (by simp)) hz
      have hlabels' : ∀ c ∈ bs, FeedOnly size c := fun c hc => hlabels c (by simp [hc])
      have hhandled' : ∀ c ∈ bs, c ≠ .handled i := fun c hc => hhandled c (by simp [hc])
      refine ⟨fun hb z' hz' => ?_, fun t ht => ?_⟩
      · rw [hz, Option.some.injEq] at hz'
        subst hz' hb
        obtain ⟨n, _, hat⟩ := (h.streams i).progress
        obtain ⟨hat, hsame | hG⟩ := hat.step hz
        · rw [hsame]
        · refine hG.quiet.resolve_right fun hlt => ?_
          -- the frame that was adjusted would have to be removed before the report
          have hadvanced : Advanced size i n z := by
            refine ⟨hzinv, ?_, hlt⟩
            obtain ⟨_, q, hq⟩ := Pool.step_running hz
            cases hat with
            | waiting pc running line => rw [running] at hq; cases hq
            | popping m pc queue running line => rw [running] at hq; cases hq
            | attempt m v p pc queue running run => exact ⟨p, running, run⟩
          have hy := Lts.exec_invariant (P := Advanced size i n)
            (Q := fun c => FeedOnly size c ∧ c ≠ .handled i)
            (fun _ c _ hc hadv hstep => hadv.step hc.1 hc.2 hstep)
            (fun c hc => ⟨hlabels' c hc, hhandled' c hc⟩) hadvanced hrest
          exact hy.not_full hshows
      · rw [hz, Option.some.injEq] at ht
        exact ht ▸ ih hzinv hlabels' hhandled' hrest hshows

end Advanced

/-! ## The theorem -/

/-- The start: playback with both codecs, nothing is queued yet and the loopers are between two
messages. -/
structure Started (size : Nat) (s : Esplayer) : Prop where
  ready : Ready size s
  frames : ∀ i, s.frames i = []
  queue : ∀ i, (s.renderer i).queue = []
  pc : ∀ i, (s.renderer i).pc.inFlight = none

theorem Started.feedInv {size : Nat} {s : Esplayer} (h : Started size s) :
    FeedInv size (Pool.init s) where
  numbered _ := ⟨List.nodup_nil, fun f hf => by cases hf⟩
  renderers _ _ := rfl
  clients _ := ⟨fun _ => le_rfl, fun _ _ => rfl, fun p hp => by cases hp⟩
  streams i := by
    have hline : Line size i 0 [] [] [] (Pool.init s : FeedSystem).world := by
      refine ⟨h.ready, (h.frames i).symm, fun f hf => ?_, rfl, rfl, rfl, rfl⟩
      change f ∈ s.frames i at hf
      rw [h.frames i] at hf
      cases hf
    refine ⟨hline.inOrder_nil, 0, ?_, .waiting (h.pc i) rfl hline⟩
    exact (congrArg List.length (h.queue i)).symm

/-- No `feedData` is in progress, and the looper of the stream has no message left. -/
structure Quiescent (i : StreamType) (x : FeedSystem) : Prop where
  clients : ∀ n, x.running (.client n) = none
  queue : (x.looper i).queue = []
  pc : (x.looper i).pc.inFlight = none

/-- Every frame that was pushed has passed all stages. -/
theorem FeedInv.drained {size : Nat} {i : StreamType} {x : FeedSystem} (h : FeedInv size x)
    (hquiet : Quiescent i x) : x.world.state.frames i = [] ∧
      passed x.world i .popped = passed x.world i .pushed ∧
      passed x.world i .submitted = passed x.world i .pushed ∧
      passed x.world i .adjusted = passed x.world i .pushed ∧
      passed x.world i .synced = (passed x.world i .pushed).filter Frame.nonempty := by
  obtain ⟨n, hcount, hat⟩ := (h.streams i).progress
  have howes : ∀ t, Owes t none x.world := by
    intro t
    cases t with
    | renderer j => exact h.renderers j
    | client m => exact (h.clients m).idle (hquiet.clients m)
  rw [appended_eq howes, hquiet.queue, List.length_nil, Nat.zero_add] at hcount
  -- a looper that has a message would have it in its queue
  cases hat with
  | attempt m v p pc queue running run => exact absurd hquiet.queue queue
  | popping m pc queue running line => exact absurd hquiet.queue queue
  | waiting pc running line =>
      -- as many frames were removed as messages were handled, and these are as many as were pushed
      have hframes : x.world.state.frames i = [] := by
        rw [← List.length_eq_zero_iff]
        have := congrArg List.length line.queue
        rw [List.length_append, hcount, line.count] at this
        omega
      have hpopped : passed x.world i .popped = passed x.world i .pushed := by
        rw [line.queue, hframes, List.append_nil]
      refine ⟨hframes, hpopped, ?_, ?_, ?_⟩
      · rw [line.submitted, List.append_nil, hpopped]
      · rw [line.adjusted, List.append_nil, hpopped]
      · rw [line.synced, List.append_nil, hpopped]

/-- **The frames of a stream, from end to end.** In every run of `feedData` calls, attempts and
returned buffers: the frames submitted are a prefix of the frames pushed; no frame is pushed twice
and each passes the stages once, in the order of the pushes; the steps of an attempt that reports
a full codec (since `handled` ended the one before) change nothing of the player; and once nobody
feeds and the looper has no message, no frame is left. -/
theorem framesInOrder {size : Nat} {s : Esplayer} {as : List FeedAct} {x : FeedSystem}
    (hs : Started size s) (hlabels : ∀ a ∈ as, FeedOnly size a)
    (hrun : Lts.exec FeedSystem.step (Pool.init s) as = some x) (i : StreamType) :
    passed x.world i .submitted <+: passed x.world i .pushed ∧
      (passed x.world i .pushed).Nodup ∧ InOrder i x.world ∧
      (∀ pre mid y, as = pre ++ mid → Lts.exec FeedSystem.step (Pool.init s) pre = some y →
        (∀ a ∈ mid, a ≠ .handled i) → x.shows (.renderer i) = some (.fed i resultFeedFull) →
        Lts.Along FeedSystem.step (fun z a => a = .step (.renderer i) →
          ∀ z', FeedSystem.step z a = some z' → z'.world.state = z.world.state) y mid) ∧
      (Quiescent i x → x.world.state.frames i = [] ∧
        passed x.world i .popped = passed x.world i .pushed ∧
        passed x.world i .submitted = passed x.world i .pushed ∧
        passed x.world i .adjusted = passed x.world i .pushed ∧
        passed x.world i .synced = (passed x.world i .pushed).filter Frame.nonempty) := by
  have hinv : ∀ {bs y}, (∀ b ∈ bs, FeedOnly size b) →
      Lts.exec FeedSystem.step (Pool.init s) bs = some y → FeedInv size y := fun hbs hy =>
    Lts.exec_invariant (fun _ _ _ ha h hstep => h.step ha hstep) hbs hs.feedInv hy
  have hx := hinv hlabels hrun
  have horder := (hx.streams i).inOrder
  refine ⟨horder.submitted_adjusted.trans horder.adjusted, (hx.numbered i).1, horder, ?_,
    hx.drained⟩
  -- the run is cut where `handled` ended the attempt before
  intro pre mid y has hy hhandled hshows
  subst has
  obtain ⟨y', hy', hmid⟩ := Lts.exec_append_iff.mp hrun
  rw [hy, Option.some.injEq] at hy'
  subst hy'
  exact (hinv (fun b hb => hlabels b (by simp [hb])) hy).full (fun b hb => hlabels b (by simp [hb]))
    hhandled hmid hshows

/-- A frame of one byte is fed. -/
def feedOne (b : UInt8) : List FeedAct :=
  [.call 0 (.feedData (some (oneByte b)))] ++ List.replicate 7 (.step (.client 0)) ++ [.returned 0]

/-- An attempt of `k` steps that returns `v`. -/
def attemptOne (v : Int) (k : Nat) : List FeedAct :=
  [.look .videoEs v {}] ++ List.replicate k (.step (.renderer .videoEs)) ++ [.handled .videoEs]

/-- Two frames are fed to a codec with one buffer. The second attempt finds it full; once the buffer
is returned the attempt is made again. -/
def twoFrames : List FeedAct :=
  feedOne 1 ++ feedOne 2 ++ attemptOne resultSuccess 14 ++ [.looper .videoEs .popFront] ++
    attemptOne resultFail 6 ++ [.looper .videoEs .resume, .emptyBufferDone .videoEs 0] ++
    attemptOne resultSuccess 14 ++ [.looper .videoEs .popFront]

theorem feedOnly_feedOne (b : UInt8) : ∀ a ∈ feedOne b, FeedOnly 2 a := by
  have hfits : Fits 2 (oneByte b) := ⟨(by decide : 1 < 2 ^ 31), fun _ => (by decide : 1 ≤ 2)⟩
  intro a ha
  simp only [feedOne, List.mem_append, List.mem_singleton, List.mem_replicate] at ha
  rcases ha with (rfl | ⟨_, rfl⟩) | rfl
  · exact fun _ hb => Option.some.inj hb ▸ hfits
  · trivial
  · trivial

theorem feedOnly_attemptOne (v : Int) (k : Nat) : ∀ a ∈ attemptOne v k, FeedOnly 2 a := by
  intro a ha
  simp only [attemptOne, List.mem_append, List.mem_singleton, List.mem_replicate] at ha
  rcases ha with (rfl | ⟨_, rfl⟩) | rfl
  · exact fun _ => rfl
  · trivial
  · trivial

theorem feedOnly_twoFrames : ∀ a ∈ twoFrames, FeedOnly 2 a := by
  intro a ha
  simp only [twoFrames, List.mem_append, List.mem_cons, List.not_mem_nil, or_false] at ha
  rcases ha with ((((((ha | ha) | ha) | rfl) | ha) | rfl | rfl) | ha) | rfl
  · exact feedOnly_feedOne 1 a ha
  · exact feedOnly_feedOne 2 a ha
  · exact feedOnly_attemptOne _ _ a ha
  · trivial
  · exact feedOnly_attemptOne _ _ a ha
  · trivial
  · trivial
  · exact feedOnly_attemptOne _ _ a ha
  · trivial

/-- Both frames are submitted, and no frame is left. -/
theorem framesInOrder_twoFrames : ∃ x,
    Lts.exec FeedSystem.step (Pool.init (feedingPlayer 1)) twoFrames = some x ∧
      passed x.world .videoEs .submitted = [⟨oneByte 1, 0⟩, ⟨oneByte 2, 1⟩] ∧
      InOrder .videoEs x.world ∧ x.world.state.frames .videoEs = [] := by
  have hrun : ((Lts.exec FeedSystem.step (Pool.init (feedingPlayer 1)) twoFrames).map fun x =>
      (passed x.world .videoEs .submitted, (x.looper .videoEs).queue, (x.looper .videoEs).pc)) =
        some ([⟨oneByte 1, 0⟩, ⟨oneByte 2, 1⟩], [], .top) := by
    rfl
  have hclients : ∀ n, ((Lts.exec FeedSystem.step (Pool.init (feedingPlayer 1)) twoFrames).map
      fun x => (x.running (.client n)).isNone) = some true := by
    intro n
    cases n <;> rfl
  have hstarted : Started 2 (feedingPlayer 1) :=
    ⟨⟨rfl, rfl, rfl, rfl⟩, fun _ => rfl, fun _ => rfl, fun _ => rfl⟩
  obtain ⟨x, hx, hrun⟩ := Option.map_eq_some_iff.mp hrun
  simp only [Prod.mk.injEq] at hrun
  obtain ⟨hsubmitted, hqueue, hpc⟩ := hrun
  obtain ⟨_, _, horder, _, hdrained⟩ :=
    framesInOrder hstarted feedOnly_twoFrames hx .videoEs
  have hquiet : Quiescent .videoEs x := by
    refine ⟨fun n => ?_, hqueue, by rw [hpc]; rfl⟩
    have := hclients n
    rw [hx, Option.map_some, Option.some.injEq] at this
    exact Option.isNone_iff_eq_none.mp this
  exact ⟨x, hx, hsubmitted, horder, (hdrained hquiet).1⟩

end DirectMedia

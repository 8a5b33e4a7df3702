import DirectMedia.Feed.EndToEnd
import DirectMedia.Feed.Driving
import DirectMedia.Lib.Alone

set_option autoImplicit false

/-! # What keeps the feeding threads going

Three things could stop a thread that feeds for good: a mutex that nobody leaves, a looper that has
left its loop or waits for `setRunningState`, and a codec without buffers. `Live` says that none of
them is the case; every step of `feedData` calls, attempts and returned buffers keeps it.
-/

namespace DirectMedia

open Prog

/-! ## The programs leave the mutex -/

section Balanced

attribute [local irreducible] StreamBuffer.dataLen

theorem balanced_lockUnlessPlaying : lockUnlessPlaying.Balanced false :=
  Balanced.bind (balanced_read _) fun _ => Balanced.onlyIf ⟨rfl, rfl, rfl⟩

theorem balanced_query (c : ComponentName) (g : Component → Nat) : (query c g).Balanced false :=
  balanced_act

theorem balanced_writeToFreeBuffer (c : ComponentName) (f : Frame) (data : List UInt8) (pts : Int)
    (flags : BitVec 32) (accept : Int) :
    (writeToFreeBuffer c f data pts flags accept).Balanced false :=
  Balanced.bind (balanced_query c _) fun _ => balanced_act

theorem balanced_setOmxFlags (f : Frame) (pts : Int) (flags : BitVec 32) :
    (setOmxFlags f pts flags).Balanced false := by
  refine Balanced.bind (balanced_query _ _) fun used => ?_
  refine Balanced.bind (balanced_query _ _) fun _ => ?_
  refine Balanced.bind balanced_act fun d => ?_
  obtain ⟨flags, notify⟩ := d
  cases notify with
  | none => exact balanced_pure _
  | some high => exact Balanced.bind balanced_act fun _ => balanced_pure _

theorem balanced_writeChunks (env : FeedEnv) (f : Frame) (pts : Int) (flags : BitVec 32)
    (fuel : Nat) : ∀ remaining offset writtenLen,
      (writeChunks env f pts flags fuel remaining offset writtenLen).Balanced false := by
  induction fuel with
  | zero => exact fun _ _ _ => balanced_pure _
  | succ fuel ih =>
      intro remaining offset writtenLen
      refine Balanced.bind (balanced_query _ _) fun size => Balanced.ite ?_ ?_
      · exact Balanced.bind (balanced_writeToFreeBuffer _ _ _ _ _ _) fun _ => balanced_pure _
      · refine Balanced.bind (balanced_query _ _) fun _ => ?_
        exact Balanced.bind (balanced_writeToFreeBuffer _ _ _ _ _ _) fun _ => ih _ _ _

theorem balanced_feedVideoFrame (env : FeedEnv) (f : Frame) :
    (feedVideoFrame env f).Balanced false := by
  refine Balanced.bind balanced_act fun pts => Balanced.bind (p := videoFlags f pts) ?_ fun flags =>
    Balanced.bind (p := writeVideo env f pts flags) ?_ fun written => ?_
  · exact Balanced.ite (balanced_setOmxFlags _ _ _) (balanced_pure _)
  · refine Balanced.ite (balanced_writeChunks _ _ _ _ _ _ _ _) (Balanced.ite ?_ (balanced_pure _))
    exact Balanced.bind (balanced_writeToFreeBuffer _ _ _ _ _ _) fun _ => balanced_pure _
  · cases written with
    | none => exact balanced_pure _
    | some n => exact Balanced.bind (p := popBufQueue _) balanced_act fun _ => balanced_pure _

theorem balanced_writeAudio (env : FeedEnv) (f : Frame) (pts : Int) (flags : BitVec 32) (ret : Int)
    (data : List UInt8) : (writeAudio env f pts flags ret data).Balanced false :=
  Balanced.bind (balanced_writeToFreeBuffer _ _ _ _ _ _) fun _ =>
    Balanced.bind (p := popBufQueue _) balanced_act fun _ =>
      Balanced.bind (balanced_read _) fun _ => balanced_pure _

theorem balanced_feedAudioFrame (env : FeedEnv) (f : Frame) :
    (feedAudioFrame env f).Balanced false := by
  refine Balanced.bind (p := audioPts f) ?_ fun pts => Balanced.ite ?_ ?_
  · exact Balanced.bind (balanced_read _) fun _ =>
      Balanced.ite (p := adjustFrame f) balanced_act (balanced_pure _)
  · refine Balanced.bind (balanced_setOmxFlags _ _ _) fun flags => ?_
    exact Balanced.bind (balanced_read _) fun _ => balanced_writeAudio _ _ _ _ _ _
  · exact balanced_writeAudio _ _ _ _ _ _

theorem balanced_feedStream (env : FeedEnv) (i : StreamType) :
    (feedStream env i).Balanced false := by
  cases i with
  | audioEs =>
      refine Balanced.bind balanced_lockUnlessPlaying fun _ =>
        Balanced.bind (balanced_read _) fun _ => Balanced.ite ?_ ?_
      · refine Balanced.bind (balanced_query _ _) fun free => Balanced.ite (balanced_pure _) ?_
        refine Balanced.bind (p := getBufQueue _) balanced_act fun buff => ?_
        cases buff with
        | none => exact balanced_pure _
        | some f => exact balanced_feedAudioFrame env f
      · exact Balanced.bind (balanced_emit _ _) fun _ => balanced_pure _
  | videoEs =>
      refine Balanced.bind balanced_lockUnlessPlaying fun _ =>
        Balanced.bind (balanced_read _) fun _ => Balanced.ite ?_ ?_
      · refine Balanced.bind (p := getBufQueue _) balanced_act fun buff => ?_
        cases buff with
        | none => exact balanced_pure _
        | some f =>
            refine Balanced.bind (balanced_query _ _) fun _ =>
              Balanced.bind (balanced_query _ _) fun free => ?_
            exact Balanced.ite (balanced_pure _) (balanced_feedVideoFrame env f)
      · exact Balanced.bind (balanced_emit _ _) fun _ => balanced_pure _

theorem balanced_feedMessage (env : FeedEnv) (i : StreamType) :
    (feedMessage env i).Balanced false :=
  Balanced.bind (balanced_feedStream env i) fun _ =>
    Balanced.bind (balanced_emit _ _) fun _ => balanced_pure _

theorem balanced_feedData (buff : Option StreamBuffer) : (feedData buff).Balanced false := by
  cases buff with
  | none => exact balanced_pure _
  | some b =>
      refine Balanced.ite (balanced_pure _) ?_
      refine Balanced.bind (p := readLoaded) balanced_act fun _ =>
        Balanced.bind (balanced_read _) fun _ => Balanced.bind (balanced_read _) fun _ =>
        Balanced.bind (balanced_read _) fun _ => Balanced.ite (balanced_pure _) ?_
      refine Balanced.bind balanced_lockUnlessPlaying fun _ => ?_
      refine Balanced.bind (p := pushBufQueue b) balanced_act fun _ => ?_
      exact Balanced.bind balanced_act fun _ => balanced_pure _

end Balanced

namespace FeedSystem

variable {x y : FeedSystem}

/-- The threads' programs stay balanced, if those of the calls are. -/
theorem sound_step {a : FeedAct} (hcall : ∀ n c, a = .call n c → c.prog.Balanced false)
    (h : x.Sound) (hy : FeedSystem.step x a = some y) : y.Sound := by
  cases effect hy with
  | call n c label idle eq => exact eq ▸ h.start (hcall n c label) idle
  | returned n v label done eq => exact eq ▸ h.finish done
  | step t label taken => exact h.step taken
  | attempt i v env m label top front idle eq =>
      subst eq
      exact Pool.Sound.start (h.setWorld _) (balanced_feedMessage env i) idle
  | handled i v m label handling done eq => exact eq ▸ (h.finish done).setWorld _
  | popFront i m label popping eq => exact eq ▸ h.setWorld _
  | wait i l label queue calls pc eq => exact eq ▸ h.setWorld _
  | emptyBufferDone i index label eq => exact eq ▸ h.setWorld _

end FeedSystem

/-! ## The loopers serve their queues -/

/-- The thread of the looper is in its loop and handles messages, and each message in the queue is
due. -/
structure Looper.Serving (l : Looper) : Prop where
  running : l.running = true
  pc : l.pc ≠ .exited
  due : ∀ e ∈ l.queue, ∃ m : Message, e = some m ∧ m.runAt ≤ l.now

/-- The steps of the looper's own thread, and the clock. -/
def LooperAct.ofThread : LooperAct → Bool
  | .tick _ | .look _ | .wake | .handled | .popFront | .resume => true
  | _ => false

/-- They leave it to the others whether the looper is to run. -/
theorem Looper.running_of_thread {l l' : Looper} {b : LooperAct} (hb : b.ofThread = true)
    (hl : l.step b = some l') : l'.running = l.running := by
  cases b with
  | post r => cases hb
  | append r => cases hb
  | clearAll => cases hb
  | setRunningState run => cases hb
  | destroy => cases hb
  | tick d =>
      cases hl
      rfl
  | look ret =>
      simp only [Looper.step, Option.ite_none_right_eq_some, Option.some.injEq] at hl
      rw [← hl.2]
  | wake =>
      simp only [Looper.step, Option.map_eq_some_iff] at hl
      obtain ⟨pc, -, rfl⟩ := hl
      rfl
  | handled =>
      simp only [Looper.step] at hl
      split at hl
      case h_1 =>
          cases hl
          rfl
      case h_2 => cases hl
  | popFront =>
      simp only [Looper.step] at hl
      split at hl
      case h_1 =>
          cases hl
          rfl
      case h_2 => cases hl
  | resume =>
      simp only [Looper.step, Option.ite_none_right_eq_some, Option.some.injEq] at hl
      rw [← hl.2]

theorem Looper.Serving.look {l : Looper} (h : l.Serving) (ret : Int) : l.look ret ≠ .exited := by
  unfold Looper.look
  rw [if_neg (by simp [h.running])]
  split
  case h_1 => simp
  case h_2 q hq =>
      obtain ⟨m, hm, _⟩ := h.due none (by simp [hq])
      cases hm
  case h_3 => split <;> simp

theorem Looper.Serving.step {l l' : Looper} {b : LooperAct} (h : l.Serving)
    (hb : b.ofThread = true) (hl : l.step b = some l') : l'.Serving := by
  cases b with
  | post r => cases hb
  | append r => cases hb
  | clearAll => cases hb
  | setRunningState run => cases hb
  | destroy => cases hb
  | tick d =>
      cases hl
      refine ⟨h.running, h.pc, fun e he => ?_⟩
      obtain ⟨m, rfl, hm⟩ := h.due e he
      exact ⟨m, rfl, by simp only; omega⟩
  | look ret =>
      simp only [Looper.step, Option.ite_none_right_eq_some, Option.some.injEq] at hl
      obtain ⟨_, rfl⟩ := hl
      exact ⟨h.running, h.look ret, h.due⟩
  | wake =>
      simp only [Looper.step, Option.map_eq_some_iff] at hl
      obtain ⟨pc, hpc, rfl⟩ := hl
      refine ⟨h.running, ?_, h.due⟩
      cases hl : l.pc <;> simp_all [Looper.wake]
      all_goals simp [← hpc]
  | handled =>
      simp only [Looper.step] at hl
      split at hl
      case h_1 m ret _ =>
          cases hl
          refine ⟨h.running, ?_, h.due⟩
          simp only
          split <;> simp
      case h_2 => cases hl
  | popFront =>
      simp only [Looper.step] at hl
      split at hl
      case h_1 m _ =>
          cases hl
          exact ⟨h.running, by simp, fun e he => h.due e (List.mem_of_mem_tail he)⟩
      case h_2 => cases hl
  | resume =>
      simp only [Looper.step, Option.ite_none_right_eq_some, Option.some.injEq] at hl
      obtain ⟨_, rfl⟩ := hl
      exact ⟨h.running, by simp, h.due⟩

theorem Looper.Serving.appendNow {l : Looper} (h : l.Serving) : l.appendNow.Serving := by
  rw [Looper.appendNow_eq]
  refine ⟨h.running, h.pc, fun e he => ?_⟩
  rcases List.mem_append.mp he with he | he
  · exact h.due e he
  · exact ⟨_, List.mem_singleton.mp he, le_rfl⟩

/-- Where no thread takes a step of its program, the looper of a stream stands still or takes a step
of its own. -/
theorem FeedSystem.looper_step {x y : FeedSystem} {a : FeedAct} (hy : FeedSystem.step x a = some y)
    (ha : ∀ t, a ≠ .step t) (i : StreamType) : y.looper i = x.looper i ∨
      ∃ b : LooperAct, b.ofThread = true ∧ (x.looper i).step b = some (y.looper i) := by
  -- a step of the looper of `j` is one of the looper of `i`, or none of its business
  have hset : ∀ {z : FeedSystem} {j : StreamType} {b : LooperAct} {l : Looper},
      b.ofThread = true → (x.looper j).step b = some l → z.world = x.world →
      (z.setLooper j l).looper i = x.looper i ∨
        ∃ b : LooperAct, b.ofThread = true ∧
          (x.looper i).step b = some ((z.setLooper j l).looper i) := by
    intro z j b l hb hl hz
    by_cases hij : i = j
    · subst hij
      exact .inr ⟨b, hb, by rw [looper_setLooper, hl]⟩
    · refine .inl ((Function.update_of_ne hij _ _).trans ?_)
      rw [hz]
      rfl
  cases a with
  | call n c =>
      obtain ⟨_, rfl⟩ := Pool.start_cases hy
      exact .inl rfl
  | returned n =>
      simp only [FeedSystem.step, Option.map_eq_some_iff] at hy
      obtain ⟨⟨v, z⟩, hz, rfl⟩ := hy
      obtain ⟨_, rfl⟩ := Pool.finish_cases hz
      exact .inl rfl
  | step t => exact absurd rfl (ha t)
  | look j v env =>
      simp only [FeedSystem.step, Option.bind_eq_some_iff] at hy
      obtain ⟨l, hl, hy⟩ := hy
      split at hy
      case isTrue =>
          obtain ⟨_, rfl⟩ := Pool.start_cases hy
          exact hset (z := x) rfl hl rfl
      case isFalse =>
          cases hy
          exact hset (z := x) rfl hl rfl
  | handled j =>
      simp only [FeedSystem.step, Option.bind_eq_some_iff] at hy
      obtain ⟨⟨v, z⟩, hz, hy⟩ := hy
      obtain ⟨_, rfl⟩ := Pool.finish_cases hz
      split at hy
      case h_1 =>
          simp only [Option.ite_none_right_eq_some, Option.map_eq_some_iff] at hy
          obtain ⟨_, l, hl, rfl⟩ := hy
          exact hset rfl hl rfl
      case h_2 => cases hy
  | looper j b =>
      simp only [FeedSystem.step, Option.ite_none_right_eq_some, Option.map_eq_some_iff] at hy
      obtain ⟨hown, l, hl, rfl⟩ := hy
      have hb : b.ofThread = true := by
        cases b <;> first | rfl | cases hown
      exact hset (z := x) hb hl rfl
  | emptyBufferDone j index =>
      cases hy
      exact .inl rfl

/-! ## The invariant -/

/-- Nothing stops the threads for good. -/
structure Live (size : Nat) (x : FeedSystem) : Prop where
  inv : FeedInv size x
  sound : Pool.Sound x
  programs : ∀ t p, x.running t = some p → p.Does KeepsShape
  buffers : ∀ i : StreamType, x.world.state.input i.codec ≠ []
  serving : ∀ i, (x.looper i).Serving
  clients : ∃ m, ∀ n, m ≤ n → x.running (.client n) = none

section Live

variable {size : Nat} {x y : FeedSystem} {a : FeedAct}

theorem SameShape.input_ne_nil {i : StreamType} {s t : Esplayer} (h : SameShape i s t)
    (hs : s.input i.codec ≠ []) : t.input i.codec ≠ [] := by
  intro ht
  have hroom := h.room
  rw [ht, List.map_nil, eq_comm, List.map_eq_nil_iff] at hroom
  exact hs hroom

theorem sameShape_emptyBufferDone (s : Esplayer) (j i : StreamType) (index : Nat) :
    SameShape i s (s.onComponent j.codec fun comp =>
      { comp with input := comp.input.emptyBufferDone index }) :=
  sameShape_onComponent i s j.codec (fun _ => rfl) fun comp _ =>
    comp.input.emptyBufferDone_sizes index

/-- The loopers after a step. -/
theorem Live.serving_step (h : Live size x) (hy : FeedSystem.step x a = some y) (i : StreamType) :
    (y.looper i).Serving := by
  by_cases hstep : ∃ t, a = .step t
  · obtain ⟨t, rfl⟩ := hstep
    cases t with
    | renderer j =>
        -- an attempt leaves the loopers alone
        obtain ⟨n, _, hat⟩ := (h.inv.streams j).progress
        have hrenderer : y.world.state.renderer = x.world.state.renderer := by
          obtain ⟨_, hw | hG⟩ := hat.step hy
          · rw [hw]
          · exact hG.apart.renderer
        rw [FeedSystem.looper, hrenderer]
        exact h.serving i
    | client n =>
        obtain ⟨_, hw | ⟨act, hact, hw⟩⟩ := (h.inv.clients n).step hy
        · rw [FeedSystem.looper, hw]
          exact h.serving i
        · rw [FeedSystem.looper, hw]
          cases hact with
          | silent hsilent =>
              rw [(hsilent.apart (w := x.world) (.client n)).renderer]
              exact h.serving i
          | push => exact h.serving i
          | append j =>
              by_cases hij : i = j
              · subst hij
                have happend : (appendAction i x.world.state).2.renderer i =
                    (x.looper i).appendNow := Function.update_self _ _ _
                rw [World.after_state, happend]
                exact (h.serving i).appendNow
              · have hsame : (appendAction j x.world.state).2.renderer i = x.looper i :=
                  Function.update_of_ne hij _ _
                rw [World.after_state, hsame]
                exact h.serving i
  · rcases FeedSystem.looper_step hy (fun t ht => hstep ⟨t, ht⟩) i with hsame | ⟨b, hb, hl⟩
    · rw [hsame]
      exact h.serving i
    · exact (h.serving i).step hb hl

/-- **The step lemma.** -/
theorem Live.step (h : Live size x) (ha : FeedOnly size a) (hy : FeedSystem.step x a = some y) :
    Live size y := by
  have hinv := h.inv.step ha hy
  have hsound : y.Sound := by
    refine FeedSystem.sound_step (fun n c hc => ?_) h.sound hy
    subst hc
    cases c with
    | feedData buff => exact balanced_feedData buff
    | flush env => exact ha.elim
  have hserving := h.serving_step hy
  have hclients : ∀ z : FeedSystem, (∀ n, z.running (.client n) = none ∨
      z.running (.client n) = x.running (.client n)) →
      ∃ m, ∀ n, m ≤ n → z.running (.client n) = none := by
    intro z hz
    obtain ⟨m, hm⟩ := h.clients
    exact ⟨m, fun n hn => (hz n).elim id fun hsame => hsame.trans (hm n hn)⟩
  -- a thread that starts a program
  have hprograms : ∀ {z : FeedSystem} {t : Thread} {p : Op Int}, z.running = x.running →
      p.Does KeepsShape → ∀ u q, (z.setRunning t (some p)).running u = some q →
      q.Does KeepsShape := by
    intro z t p hz hp u q hq
    rcases Pool.setRunning_cases hq with ⟨_, hpq⟩ | ⟨_, hq⟩
    · cases hpq
      exact hp
    · exact h.programs u q (hz ▸ hq)
  cases FeedSystem.effect hy with
  | call n c label idle eq =>
      subst label eq
      cases c with
      | flush env => exact ha.elim
      | feedData buff =>
          refine ⟨hinv, hsound,
            hprograms rfl (does_drivingCall (.feedData buff)), h.buffers, hserving, ?_⟩
          obtain ⟨m, hm⟩ := h.clients
          refine ⟨max m (n + 1), fun k hk => ?_⟩
          have hne : Thread.client k ≠ .client n := by
            intro heq
            cases heq
            omega
          rw [Pool.running_setRunning_ne x hne]
          exact hm k (by omega)
  | returned n v label done eq =>
      subst eq
      refine ⟨hinv, hsound, fun t p hp => ?_, h.buffers, hserving,
        hclients _ fun k => ?_⟩
      · rcases Pool.setRunning_cases hp with ⟨_, hnone⟩ | ⟨_, hp⟩
        · cases hnone
        · exact h.programs t p hp
      · by_cases hk : Thread.client k = .client n
        · rw [hk]
          exact .inl (Pool.running_setRunning_self x _ _)
        · exact .inr (Pool.running_setRunning_ne x hk _)
  | step t label taken =>
      obtain ⟨⟨p, hp⟩, _⟩ := Pool.step_running taken
      obtain ⟨hw, q, hq, hdoes⟩ := Pool.step_does taken hp (h.programs t p hp)
      refine ⟨hinv, hsound, fun u r hr => ?_, fun i => ?_, hserving, ?_⟩
      · rcases Pool.step_running_cases taken hr with rfl | ⟨_, hr⟩
        · rw [hq, Option.some.injEq] at hr
          exact hr ▸ hdoes
        · exact h.programs u r hr
      · rcases hw with hw | ⟨f, hf, hw⟩
        · rw [hw]
          exact h.buffers i
        · rw [hw]
          exact (hf x.world.state i).input_ne_nil (h.buffers i)
      · obtain ⟨m, hm⟩ := h.clients
        refine ⟨m, fun n hn => ?_⟩
        have hidle := hm n hn
        have hne : Thread.client n ≠ t := by
          rintro rfl
          rw [hp] at hidle
          cases hidle
        rw [Pool.step_running_ne taken hne]
        exact hidle
  | attempt i v env m label top front idle eq =>
      subst eq
      refine ⟨hinv, hsound,
        hprograms rfl (does_feedMessage env i), h.buffers, hserving, hclients _ fun n => ?_⟩
      exact .inr (Pool.running_setRunning_ne _ (by simp) _)
  | handled i v m label handling done eq =>
      subst eq
      refine ⟨hinv, hsound, fun t p hp => ?_, h.buffers, hserving,
        hclients _ fun n => ?_⟩
      · rcases Pool.setRunning_cases (x := x) hp with ⟨_, hnone⟩ | ⟨_, hp⟩
        · cases hnone
        · exact h.programs t p hp
      · have hne : Thread.client n ≠ .renderer i := by simp
        exact .inr (Pool.running_setRunning_ne x hne none)
  | popFront i m label popping eq =>
      subst eq
      exact ⟨hinv, hsound, h.programs, h.buffers, hserving, h.clients⟩
  | wait i l label queue calls pc eq =>
      subst eq
      exact ⟨hinv, hsound, h.programs, h.buffers, hserving, h.clients⟩
  | emptyBufferDone i index label eq =>
      subst eq
      refine ⟨hinv, hsound, h.programs, fun j => ?_, hserving, h.clients⟩
      exact (sameShape_emptyBufferDone x.world.state i j index).input_ne_nil (h.buffers j)

end Live

end DirectMedia

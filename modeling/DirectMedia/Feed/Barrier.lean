import DirectMedia.Feed.Head
import DirectMedia.Feed.Threads
import DirectMedia.Lib.History

set_option autoImplicit false

/-! # What a flush leaves behind

`flush` clears the frame queues while attempts may be under way, and nothing tells these attempts.
The frames of before are gone from the queue then, but an attempt goes on with the frame that
`getBufQueue` returned to it. This is the only one: whatever the threads do, no other frame that was
fed before a queue was cleared is handed to the codec afterwards (`cleared_barrier`).

All that is needed can be told from the log: the queues (`queueOf`), the frame an attempt holds
(`held`), and that every frame handed to the codec is the one held then (`WritesHeld`).
-/

namespace DirectMedia

open Prog

/-! ## The queues, told from the log -/

/-- The queue of a stream after an event. -/
def queueAfter (i : StreamType) : List Frame → Event → List Frame
  | q, .pushed j f => if j = i then q ++ [f] else q
  | q, .popped j _ => if j = i then q.tail else q
  | q, .cleared j => if j = i then [] else q
  | q, _ => q

/-- The queue of a stream after the events of the log. -/
def queueOf (i : StreamType) (q : List Frame) (log : List (Thread × Event)) : List Frame :=
  log.foldl (fun q e => queueAfter i q e.2) q

theorem queueOf_append_toList (i : StreamType) (q : List Frame) (log : List (Thread × Event))
    (t : Thread) (o : Option Event) :
    queueOf i q (log ++ o.toList.map (t, ·)) =
      o.elim (queueOf i q log) (queueAfter i (queueOf i q log)) := by
  cases o <;> simp [queueOf]

theorem queueOf_cleared (i : StreamType) (q : List Frame) (before after : List (Thread × Event))
    (t : Thread) : queueOf i q (before ++ (t, .cleared i) :: after) = queueOf i [] after := by
  simp [queueOf, queueAfter]

/-- What is in the queue after an event was in it before, or is pushed. -/
theorem mem_queueAfter {i : StreamType} {f : Frame} {q : List Frame} {e : Event}
    (h : f ∈ queueAfter i q e) : e = .pushed i f ∨ f ∈ q := by
  cases e with
  | pushed j g =>
      simp only [queueAfter] at h
      split at h
      case isTrue hj =>
        subst hj
        rcases List.mem_append.mp h with h | h
        · exact .inr h
        · exact .inl (by rw [List.mem_singleton.mp h])
      case isFalse => exact .inr h
  | popped j g =>
      simp only [queueAfter] at h
      split at h
      · exact .inr (List.mem_of_mem_tail h)
      · exact .inr h
  | cleared j =>
      simp only [queueAfter] at h
      split at h
      · cases h
      · exact .inr h
  | _ => exact .inr h

/-- What is in a queue that was empty has been pushed since. -/
theorem pushed_of_mem_queueOf {i : StreamType} {f : Frame} {log : List (Thread × Event)}
    (h : f ∈ queueOf i [] log) : ∃ u, (u, .pushed i f) ∈ log := by
  have horigin : f ∈ ([] : List Frame) ∨ ∃ e ∈ log, e.2 = .pushed i f :=
    History.foldl_origin (f ∈ ·) (fun q e hf => mem_queueAfter hf) h
  rcases horigin with hnil | ⟨⟨u, e⟩, hmem, rfl⟩
  · cases hnil
  · exact ⟨u, hmem⟩

/-- The event is about the frames of a queue. -/
def Event.aboutQueue : Event → Bool
  | .pushed _ _ | .popped _ _ | .cleared _ | .got _ _ => true
  | _ => false

theorem queueAfter_of_not_about (i : StreamType) (q : List Frame) {e : Event}
    (he : e.aboutQueue = false) : queueAfter i q e = q := by
  cases e with
  | pushed | popped | cleared | got => cases he
  | _ => rfl

/-- What an action of the thread does to the queues is what it shows of them. -/
structure TracksQueues (t : Thread) (a : Action) : Prop where
  frames : ∀ s i, (a s).2.frames i = (a s).1.elim (s.frames i) (queueAfter i (s.frames i))
  got : ∀ s i f, (a s).1 = some (.got i f) → (s.frames i).head? = some f ∧ t = .renderer i
  pushed : ∀ s, ((∀ i f, (a s).1 ≠ some (.pushed i f)) ∧ (a s).2.pushed = s.pushed) ∨
    ∃ i f, (a s).1 = some (.pushed i f) ∧ f.id = s.pushed ∧ (a s).2.pushed = s.pushed + 1

/-- An action that leaves the queues alone. -/
theorem tracksQueues_of_frames {t : Thread} {a : Action}
    (hkeep : ∀ s, (a s).2.frames = s.frames ∧ (a s).2.pushed = s.pushed)
    (hevent : ∀ s, ∀ e ∈ (a s).1, e.aboutQueue = false) : TracksQueues t a where
  frames s i := by
    rw [(hkeep s).1]
    cases he : (a s).1 with
    | none => rfl
    | some e => exact (queueAfter_of_not_about i _ (hevent s e he)).symm
  got s i f h := by cases hevent s _ h
  pushed s := .inl ⟨fun i f h => (by cases hevent s _ h), (hkeep s).2⟩

theorem tracksQueues_silent {t : Thread} {f : Esplayer → Esplayer}
    (hkeep : ∀ s, (f s).frames = s.frames ∧ (f s).pushed = s.pushed) :
    TracksQueues t fun s => (none, f s) :=
  tracksQueues_of_frames hkeep fun _ _ h => by cases h

theorem tracksQueues_shown {t : Thread} {e : Esplayer → Event} {f : Esplayer → Esplayer}
    (hkeep : ∀ s, (f s).frames = s.frames ∧ (f s).pushed = s.pushed)
    (he : ∀ s, (e s).aboutQueue = false) : TracksQueues t fun s => (some (e s), f s) :=
  tracksQueues_of_frames hkeep fun s _ h => Option.some.inj h ▸ he s

theorem untouched_pushed : Untouched Esplayer.pushed :=
  ⟨fun _ _ => rfl, fun _ _ => rfl, fun _ _ => rfl⟩

theorem tracksQueues_perform (t : Thread) (env : Env) (call : Call) :
    TracksQueues t (performAction env call) := by
  refine tracksQueues_of_frames (fun s => ⟨(untouched_frames.perform env call).1 s,
    (untouched_pushed.perform env call).1 s⟩) fun s e he => ?_
  obtain ⟨c, -, rfl⟩ := Option.map_eq_some_iff.mp he
  rfl

theorem tracksQueues_clear (t : Thread) (i : StreamType) : TracksQueues t fun s =>
    (some (.cleared i), { s with frames := Function.update s.frames i [] }) where
  frames s j := by
    by_cases hj : i = j
    · subst hj
      simp [queueAfter]
    · simp [queueAfter, hj, Function.update_of_ne (Ne.symm hj)]
  got s j f h := by cases h
  pushed s := .inl ⟨fun j f h => (by cases h), rfl⟩

theorem tracksQueues_push (t : Thread) (b : StreamBuffer) : TracksQueues t (pushAction b) where
  frames s j := by
    by_cases hj : b.streamType = j
    · subst hj
      simp [pushAction, queueAfter]
    · simp [pushAction, queueAfter, hj, Function.update_of_ne (Ne.symm hj)]
  got s j f h := by cases h
  pushed s := .inr ⟨_, _, rfl, rfl, rfl⟩

theorem tracksQueues_pop (t : Thread) (i : StreamType) : TracksQueues t (popAction i) where
  frames s j := by
    by_cases hj : i = j
    · subst hj
      simp [popAction, queueAfter]
    · simp [popAction, queueAfter, hj, Function.update_of_ne (Ne.symm hj)]
  got s j f h := by cases h
  pushed s := .inl ⟨fun j f h => (by cases h), rfl⟩

theorem tracksQueues_get (i : StreamType) : TracksQueues (.renderer i) (getAction i) where
  frames s j := by
    simp only [getAction]
    cases (s.frames i).head? <;> rfl
  got s j f h := by
    obtain ⟨g, hg, heq⟩ := Option.map_eq_some_iff.mp h
    cases heq
    exact ⟨hg, rfl⟩
  pushed s := by
    refine .inl ⟨fun j f h => ?_, rfl⟩
    obtain ⟨g, -, heq⟩ := Option.map_eq_some_iff.mp h
    cases heq

theorem ofThreads_tracksQueues : OfThreads TracksQueues where
  clients n :=
    { read := tracksQueues_silent fun _ => ⟨rfl, rfl⟩
      call := fun env call _ => tracksQueues_perform _ env call
      rate := fun env rate => tracksQueues_perform _ env _
      admitted := fun status => by
        refine tracksQueues_of_frames (fun _ => ⟨rfl, rfl⟩) fun s e he => ?_
        split at he
        · cases he
          rfl
        · cases he
      loadedRead := tracksQueues_shown (fun _ => ⟨rfl, rfl⟩) fun _ => rfl
      cleared := tracksQueues_clear _
      clearRenderer := fun _ => tracksQueues_silent fun _ => ⟨rfl, rfl⟩
      runRenderer := fun _ _ => tracksQueues_silent fun _ => ⟨rfl, rfl⟩
      runMessages := fun _ _ => tracksQueues_silent fun _ => ⟨rfl, rfl⟩
      pts := fun _ => tracksQueues_silent fun _ => ⟨rfl, rfl⟩
      lastPts := fun _ => tracksQueues_silent fun _ => ⟨rfl, rfl⟩
      eos := fun _ => tracksQueues_silent fun _ => ⟨rfl, rfl⟩
      trickMode := fun _ => tracksQueues_silent fun _ => ⟨rfl, rfl⟩
      allowVideo := tracksQueues_silent fun _ => ⟨rfl, rfl⟩
      targetPlaybackRate := fun _ => tracksQueues_silent fun _ => ⟨rfl, rfl⟩
      transit := fun _ => tracksQueues_shown (fun _ => ⟨rfl, rfl⟩) fun _ => rfl
      unloaded := tracksQueues_silent fun _ => ⟨rfl, rfl⟩
      callback := tracksQueues_silent fun _ => ⟨rfl, rfl⟩
      destroy := fun _ => tracksQueues_shown (fun _ => ⟨rfl, rfl⟩) fun _ => rfl
      push := tracksQueues_push _
      append := fun _ => tracksQueues_shown (fun _ => ⟨rfl, rfl⟩) fun _ => rfl }
  feed i :=
    { read := tracksQueues_silent fun _ => ⟨rfl, rfl⟩
      use := tracksQueues_shown (fun _ => ⟨rfl, rfl⟩) fun _ => rfl
      get := tracksQueues_get i
      pop := tracksQueues_pop _ i
      adjust := fun _ => tracksQueues_shown (fun _ => ⟨rfl, rfl⟩) fun _ => rfl
      write := fun _ _ _ _ _ => tracksQueues_shown (fun _ => ⟨rfl, rfl⟩) fun _ => rfl
      cleared := tracksQueues_clear _ i
      fed := fun _ => tracksQueues_shown (fun _ => ⟨rfl, rfl⟩) fun _ => rfl }
  use i c := tracksQueues_shown (fun _ => ⟨rfl, rfl⟩) fun _ => rfl
  sync i f pts flags used := tracksQueues_shown (fun _ => ⟨rfl, rfl⟩) fun _ => rfl
  notify i high := tracksQueues_shown (fun _ => ⟨rfl, rfl⟩) fun _ => rfl

/-- What the log tells of the queues, from the player `s` on. -/
structure QueueLog (s : Esplayer) (w : World Thread Esplayer Event) : Prop where
  frames : ∀ i, w.state.frames i = queueOf i (s.frames i) w.log
  got : History.Each (fun past e => ∀ i f, e.2 = .got i f →
    (queueOf i (s.frames i) past).head? = some f ∧ e.1 = .renderer i) w.log
  numbered : ∀ u i f, (u, .pushed i f) ∈ w.log → f.id < w.state.pushed
  once : History.Each (fun past e => ∀ i f, e.2 = .pushed i f → ∀ u, (u, .pushed i f) ∉ past) w.log

theorem QueueLog.act {s : Esplayer} {w : World Thread Esplayer Event} {t : Thread} {a : Action}
    (h : QueueLog s w) (ha : TracksQueues t a) : QueueLog s (w.after t a) := by
  have hlog : (w.after t a).log = w.log ++ ((a w.state).1.map (t, ·)).toList := by
    rw [World.after_log]
    cases (a w.state).1 <;> rfl
  refine ⟨fun i => ?_, ?_, fun u i f hf => ?_, ?_⟩
  · rw [World.after_log, queueOf_append_toList, World.after_state, ha.frames, ← h.frames i]
  · rw [hlog]
    refine h.got.append_toList fun e he i f hf => ?_
    obtain ⟨d, hd, rfl⟩ := Option.map_eq_some_iff.mp he
    obtain rfl : d = .got i f := hf
    obtain ⟨hhead, ht⟩ := ha.got _ _ _ hd
    exact ⟨by rw [← h.frames i]; exact hhead, ht⟩
  · rw [hlog] at hf
    rw [World.after_state]
    rcases ha.pushed w.state with ⟨hnone, hsame⟩ | ⟨j, g, hshow, hid, hnext⟩
    · rcases List.mem_append.mp hf with hf | hf
      · rw [hsame]
        exact h.numbered u i f hf
      · obtain ⟨d, hd, heq⟩ := Option.map_eq_some_iff.mp (Option.mem_toList.mp hf)
        cases heq
        exact absurd hd (hnone i f)
    · rcases List.mem_append.mp hf with hf | hf
      · have := h.numbered u i f hf
        omega
      · rw [hshow] at hf
        simp only [Option.map_some, Option.toList_some, List.mem_singleton, Prod.mk.injEq,
          Event.pushed.injEq] at hf
        obtain ⟨-, -, rfl⟩ := hf
        omega
  · rw [hlog]
    refine h.once.append_toList fun e he i f hf u hu => ?_
    obtain ⟨d, hd, rfl⟩ := Option.map_eq_some_iff.mp he
    obtain rfl : d = .pushed i f := hf
    have hlt := h.numbered u i f hu
    -- the number of a push is not that of an earlier one
    rcases ha.pushed w.state with ⟨hnone, -⟩ | ⟨j, g, hshow, hid, -⟩
    · exact hnone i f hd
    · rw [hd, Option.some.injEq, Event.pushed.injEq] at hshow
      obtain ⟨-, rfl⟩ := hshow
      omega

theorem QueueLog.besides {s : Esplayer} {w v : World Thread Esplayer Event} (h : QueueLog s w)
    (hlog : v.log = w.log) (hstate : Besides w.state v.state) : QueueLog s v := by
  have hkeep : v.state.frames = w.state.frames ∧ v.state.pushed = w.state.pushed := by
    rcases hstate with heq | ⟨i, l, heq⟩ | ⟨i, index, heq⟩
    · exact ⟨by rw [heq], by rw [heq]⟩
    · exact ⟨by rw [heq]; rfl, by rw [heq]; rfl⟩
    · exact ⟨by rw [heq]; rfl, by rw [heq]; rfl⟩
  refine ⟨fun i => ?_, ?_, fun u i f hf => ?_, ?_⟩
  · rw [hkeep.1, hlog]
    exact h.frames i
  · rw [hlog]
    exact h.got
  · rw [hkeep.2]
    exact h.numbered u i f (hlog ▸ hf)
  · rw [hlog]
    exact h.once

/-! ## The frame that is handed to the codec -/

/-- Every frame of which data is handed to the codec is the one held then. -/
def WritesHeld (es : List Event) : Prop :=
  History.Each (fun past e => ∀ i f n b, e = .written i f n b → ∃ c, held past = some (f, c)) es

/-- The others leave the events of an attempt to it. -/
def SameEvents (i : StreamType) (w v : FeedWorld) : Prop :=
  v.events (.renderer i) = w.events (.renderer i)

/-- What an attempt does. -/
def HeldGuar (i : StreamType) (_ v : FeedWorld) : Prop := WritesHeld (v.events (.renderer i))

/-- The assertion of each phase. -/
structure HeldPhase (i : StreamType) (ph : Phase) (w : FeedWorld) : Prop where
  writes : WritesHeld (w.events (.renderer i))
  holds : ph.Holds i (held (w.events (.renderer i)))

section HeldPhase

variable {i : StreamType} {ph ph' : Phase} {w : FeedWorld} {a : Action}

theorem HeldPhase.stable {v : FeedWorld} (hR : SameEvents i w v) (h : HeldPhase i ph w) :
    HeldPhase i ph v :=
  ⟨hR ▸ h.writes, hR ▸ h.holds⟩

theorem HeldPhase.act (h : HeldPhase i ph w)
    (hwrite : ∀ j f n b, (a w.state).1 = some (.written j f n b) →
      ∃ c, held (w.events (.renderer i)) = some (f, c))
    (hholds : ph'.Holds i (heldNext i w a)) :
    HeldGuar i w (w.after (.renderer i) a) ∧ HeldPhase i ph' (w.after (.renderer i) a) := by
  have hwrites : WritesHeld ((w.after (.renderer i) a).events (.renderer i)) := by
    rw [World.events_after_self]
    refine h.writes.append_toList fun e he j f n b heq => ?_
    exact hwrite j f n b (heq ▸ he)
  refine ⟨hwrites, hwrites, ?_⟩
  rw [held_after]
  exact hholds

/-- An action that shows nothing about the frame held. -/
theorem HeldPhase.keep (h : HeldPhase i ph w)
    (hevent : heldNext i w a = held (w.events (.renderer i)))
    (hwrite : ∀ j f n b, (a w.state).1 ≠ some (.written j f n b))
    (hholds : ph'.Holds i (held (w.events (.renderer i)))) :
    HeldGuar i w (w.after (.renderer i) a) ∧ HeldPhase i ph' (w.after (.renderer i) a) :=
  h.act (fun j f n b hshow => absurd hshow (hwrite j f n b)) (hevent ▸ hholds)

/-- A submission. -/
theorem HeldPhase.write {f : Frame} {bs : List (Option Buffer)} (h : HeldPhase i ph w)
    (hf : held (w.events (.renderer i)) = some (f, bs)) (c : ComponentName) (data : List UInt8)
    (pts : Int) (flags : BitVec 32) (accept : Int)
    (hholds : ∀ b, ph'.Holds i (some (f, bs ++ [b]))) :
    HeldGuar i w (w.after (.renderer i) (writeAction c f data pts flags accept)) ∧
      HeldPhase i ph' (w.after (.renderer i) (writeAction c f data pts flags accept)) := by
  refine h.act (fun j g n d hshow => ?_) (heldNext_write hf c data pts flags accept ▸ hholds _)
  simp only [writeAction, Option.some.injEq, Event.written.injEq] at hshow
  exact ⟨bs, hshow.2.1 ▸ hf⟩

end HeldPhase

/-- The outline of an attempt, as far as the frame it holds is concerned. -/
theorem heldRules (i : StreamType) (env : FeedEnv) :
    FeedRules i env (SameEvents i) (HeldGuar i) (HeldPhase i) (fun _ => True)
      fun _ => HeldPhase i .nothing where
  refl _ := rfl
  stable _ _ _ hR h := h.stable hR
  stable_end _ _ _ hR h := h.stable hR
  good_nonneg _ _ := trivial
  good_add _ _ _ _ := trivial
  readOnly ph w a ha h := by
    have hevent : ∀ e, (a w.state).1 = some e → e.isUse = true := (ha w.state).2
    refine h.keep ?_ (fun j f n b hshow => by cases hevent _ hshow) h.holds
    unfold heldNext
    cases he : (a w.state).1 with
    | none => rfl
    | some e => exact heldAfter_of_isUse _ (hevent e he)
  room _ h _ := ⟨h.writes, h.holds⟩
  room_holding _ _ h _ := ⟨h.writes, h.holds⟩
  absent _ h _ := ⟨h.writes, h.holds⟩
  clear w h := by
    have hnone : held (w.events (.renderer i)) = none := h.holds
    refine h.act (fun j f n b hshow => by cases hshow) ?_
    simp [heldNext, clearAction, hnone, heldAfter, Phase.Holds]
  got r f w h hf := by
    refine h.act (fun j g n b hshow => ?_) ⟨[], by simp [heldNext, getAction, hf, heldAfter]⟩
    simp [getAction, hf] at hshow
  empty _ _ h _ := ⟨h.writes, h.holds⟩
  adjust f w h := by
    obtain ⟨bs, hbs⟩ := h.holds
    exact h.keep (by simp [heldNext, adjustAction, hbs, heldAfter])
      (fun j g n c hshow => by cases hshow) ⟨bs, hbs⟩
  skip_adjust _ _ h _ := ⟨h.writes, h.holds⟩
  sync f pts flags used w h _ := by
    obtain ⟨bs, hbs⟩ := h.holds
    exact h.keep (by simp [heldNext, syncAction, hbs, heldAfter])
      (fun j g n c hshow => by cases hshow) ⟨bs, hbs⟩
  skip_sync _ _ h _ := ⟨h.writes, h.holds⟩
  notify f high w h := by
    obtain ⟨bs, hbs⟩ := h.holds
    exact h.keep (by simp [heldNext, notifyAction, hbs, heldAfter])
      (fun j g n c hshow => by cases hshow) ⟨bs, hbs⟩
  chunk _ _ _ h _ := ⟨h.writes, h.holds⟩
  write f data pts flags offset w h := by
    obtain ⟨bs, hbs⟩ := h.holds
    obtain ⟨hG, hΦ⟩ := h.write hbs i.codec data pts flags (env.accept offset)
      (holds_written i f bs)
    exact ⟨hG, hΦ, trivial⟩
  write_chunk f data pts flags offset w h := by
    obtain ⟨bs, hbs⟩ := h.holds
    have hchunked : ∀ b, (Phase.chunked f).Holds i (some (f, bs ++ [b])) := fun b => ⟨_, rfl⟩
    obtain ⟨hG, hΦ⟩ := h.write hbs i.codec data pts flags (env.accept offset)
      (holds_written i f bs)
    obtain ⟨-, hΦ'⟩ := h.write hbs i.codec data pts flags (env.accept offset) hchunked
    exact ⟨hG, hΦ', hΦ, trivial⟩
  unwritten f w hi h hneg := by
    obtain ⟨bs, hbs⟩ := h.holds
    exact ⟨h.writes, bs, hbs, fun _ => ⟨hi, hneg⟩⟩
  pop f w h := by
    obtain ⟨bs, hbs, -⟩ := h.holds
    exact h.act (fun j g n c hshow => by cases hshow)
      (by simp [heldNext, popAction, hbs, heldAfter, Phase.Holds])
  fed ph n w h _ := by
    refine h.act (fun j g m c hshow => by cases hshow) ?_
    simp only [heldNext, fedAction, Option.elim, Phase.Holds]
    cases held (w.events (.renderer i)) <;> rfl

/-- What holds of a stream between two steps. -/
structure HeldStream (i : StreamType) (x : FeedSystem) : Prop where
  writes : WritesHeld (x.world.events (.renderer i))
  idle : x.running (.renderer i) = none → held (x.world.events (.renderer i)) = none
  attempt : ∀ p, x.running (.renderer i) = some p →
    Ensures (.renderer i) (SameEvents i) (HeldGuar i) (fun _ => HeldPhase i .nothing) p x.world

theorem HeldStream.stable {i : StreamType} {x y : FeedSystem} (h : HeldStream i x)
    (hR : SameEvents i x.world y.world) (hrun : y.running (.renderer i) = x.running (.renderer i)) :
    HeldStream i y where
  writes := hR ▸ h.writes
  idle hnone := by rw [hR]; exact h.idle (hrun ▸ hnone)
  attempt p hp :=
    (h.attempt p (hrun ▸ hp)).stable (fun _ _ _ huv hvw => hvw.trans huv) hR

/-- The step lemma. -/
theorem HeldStream.step {i : StreamType} {x y : FeedSystem} (h : HeldStream i x) {a : ThreadAct}
    (hy : x.threadStep a = some y) : HeldStream i y := by
  cases FeedSystem.rendererEffect i hy with
  | apart events running => exact h.stable events running
  | attempt env runs idle running log =>
      have hevents := World.events_congr log (.renderer i)
      have hwrites : WritesHeld (y.world.events (.renderer i)) := hevents ▸ h.writes
      refine ⟨hwrites, fun hnone => ?_, fun p hp => ?_⟩
      · rw [running] at hnone
        cases hnone
      · obtain rfl := Option.some.inj (running.symm.trans hp)
        exact (heldRules i env).feedMessage ⟨hwrites, hevents ▸ h.idle idle⟩
  | handled v done running log =>
      -- the attempt has ended, and holds nothing
      have hend : HeldPhase i .nothing y.world :=
        h.attempt _ done y.world (World.events_congr log (.renderer i))
      refine ⟨hend.writes, fun _ => hend.holds, fun p hp => ?_⟩
      rw [running] at hp
      cases hp
  | step label taken =>
      obtain ⟨⟨p, hp⟩, -⟩ := Pool.step_running taken
      have hrefl : ∀ w, SameEvents i w w := fun _ => rfl
      obtain ⟨hG, q, hq, hens⟩ := Pool.step_ensures hrefl taken hp (h.attempt p hp)
      refine ⟨?_, fun hnone => ?_, fun r hr => ?_⟩
      · rcases hG with hsame | hG
        · rw [hsame]
          exact h.writes
        · exact hG
      · rw [hq] at hnone
        cases hnone
      · rw [hq, Option.some.injEq] at hr
        exact hr ▸ hens

theorem heldStream_init (i : StreamType) (s : Esplayer) : HeldStream i (Pool.init s) where
  writes := History.each_nil
  idle _ := rfl
  attempt p h := by cases h

/-! ## The barrier -/

/-- What a thread has shown in a part of the log. -/
def eventsOf (t : Thread) (log : List (Thread × Event)) : List Event :=
  log.filterMap fun e => if e.1 = t then some e.2 else none

theorem eventsOf_append (t : Thread) (l m : List (Thread × Event)) :
    eventsOf t (l ++ m) = eventsOf t l ++ eventsOf t m :=
  List.filterMap_append

theorem eventsOf_cons_self (t : Thread) (e : Event) (l : List (Thread × Event)) :
    eventsOf t ((t, e) :: l) = e :: eventsOf t l := by
  simp [eventsOf]

/-- **The barrier.** Client threads make any calls of the interface but load, attempts are made for
both streams, and the codecs return buffers, in any order. Whenever the queue of a stream is
cleared, the only frame pushed before that is handed to the codec afterwards is the one that the
attempt under way holds at the time, if any. -/
theorem cleared_barrier {s : Esplayer} {acts : List ThreadAct} {x : FeedSystem}
    (hx : Lts.exec FeedSystem.threadStep (Pool.init s) acts = some x) {i : StreamType} {t : Thread}
    {before after : List (Thread × Event)}
    (hlog : x.world.log = before ++ (t, .cleared i) :: after) {f : Frame} {u : Thread}
    (hpushed : (u, .pushed i f) ∈ before) {n : Int} {b : Option Buffer}
    (hwritten : (.renderer i, .written i f n b) ∈ after) :
    ∃ c, held (eventsOf (.renderer i) before) = some (f, c) := by
  have hqueue : QueueLog s x.world := by
    refine (FeedSystem.runs_invariant ofThreads_tracksQueues (fun _ _ _ hf h => h.act hf)
      (fun _ _ hlog hstate h => h.besides hlog hstate) (FeedSystem.runs_init _ s) ?_ hx).2
    exact ⟨fun _ => rfl, History.each_nil, fun _ _ _ h => (by cases h), History.each_nil⟩
  have hstream : HeldStream i x :=
    Lts.exec_invariant (Q := fun _ => True) (fun _ _ _ _ h hstep => h.step hstep)
      (fun _ _ => trivial) (heldStream_init i s) hx
  -- the frame is held when it is written
  obtain ⟨mid, rest, rfl⟩ := List.append_of_mem hwritten
  have hevents : x.world.events (.renderer i) =
      (eventsOf (.renderer i) before ++ eventsOf (.renderer i) ((t, .cleared i) :: mid)) ++
        .written i f n b :: eventsOf (.renderer i) rest := by
    have hshown : x.world.events (.renderer i) = eventsOf (.renderer i) x.world.log := rfl
    rw [hshown, hlog, ← List.cons_append, ← List.append_assoc, eventsOf_append, eventsOf_append,
      eventsOf_cons_self]
  obtain ⟨c, hc⟩ := hstream.writes _ _ _ hevents i f n b rfl
  rw [held, List.foldl_append] at hc
  rcases held_origin hc with hheld | ⟨e, he, j, rfl⟩
  · exact hheld
  · -- it was obtained after the queue was cleared, so it has been pushed again, which cannot be
    obtain ⟨⟨v, e⟩, hmem, heq⟩ := List.mem_filterMap.mp he
    simp only [Option.ite_none_right_eq_some, Option.some.injEq] at heq
    obtain ⟨rfl, rfl⟩ := heq
    have hmid : ((.renderer i, .got j f) : Thread × Event) ∈ mid := by
      rcases List.mem_cons.mp hmem with heq | hmid
      · cases heq
      · exact hmid
    obtain ⟨m, m', rfl⟩ := List.append_of_mem hmid
    have hgot := hqueue.got (before ++ (t, .cleared i) :: m) (.renderer i, .got j f)
      (m' ++ (.renderer i, .written i f n b) :: rest) (by simp [hlog]) j f rfl
    obtain rfl : i = j := by simpa using hgot.2
    rw [queueOf_cleared] at hgot
    obtain ⟨v, hv⟩ := pushed_of_mem_queueOf (List.mem_of_mem_head? hgot.1)
    obtain ⟨k, k', rfl⟩ := List.append_of_mem hv
    have honce := hqueue.once (before ++ (t, .cleared i) :: k) (v, .pushed i f)
      (k' ++ (.renderer i, .got i f) :: m' ++ (.renderer i, .written i f n b) :: rest)
      (by simp [hlog]) i f rfl u
    exact absurd (List.mem_append_left _ hpushed) honce

/-- An attempt that a flush overtakes goes on to submit its frame. -/
def overtakenAttempt : List ThreadAct :=
  (flushedAttempt ++ List.replicate 9 (FeedAct.step (.renderer .videoEs))).map .feed

/-- It submits the frame it held. -/
theorem cleared_barrier_overtaken :
    ∃ x : FeedSystem,
      Lts.exec FeedSystem.threadStep (Pool.init (feedingPlayer 2)) overtakenAttempt = some x ∧
      x.world.log[8]? = some (.client 1, .cleared .videoEs) ∧
      ∃ c, held (eventsOf (.renderer .videoEs) (x.world.log.take 8)) =
        some (⟨oneByte 1, 0⟩, c) := by
  have hrun : ((Lts.exec FeedSystem.threadStep (Pool.init (feedingPlayer 2)) overtakenAttempt).map
      fun x => (x.world.log[1]?, x.world.log[8]?, x.world.log[24]?)) =
      some (some (.client 0, .pushed .videoEs ⟨oneByte 1, 0⟩),
        some (.client 1, .cleared .videoEs),
        some (.renderer .videoEs, .written .videoEs ⟨oneByte 1, 0⟩ 1 (some
          { allocLen := 2, status := .ownedByClient, filledLen := 1, flags := 0x12,
            bytes := [1] }))) := by
    rfl
  obtain ⟨x, hx, hrun⟩ := Option.map_eq_some_iff.mp hrun
  simp only [Prod.mk.injEq] at hrun
  obtain ⟨hpushed, hcleared, hwritten⟩ := hrun
  obtain ⟨hlt, hget⟩ := List.getElem?_eq_some_iff.mp hcleared
  have hlog := (List.take_append_drop 8 x.world.log).symm
  rw [List.drop_eq_getElem_cons hlt, hget] at hlog
  have hbefore : (.client 0, .pushed .videoEs ⟨oneByte 1, 0⟩) ∈ x.world.log.take 8 :=
    List.mem_of_getElem? (i := 1) (by rw [List.getElem?_take_of_lt (by decide), hpushed])
  rw [show 24 = 8 + 1 + 15 from rfl, ← List.getElem?_drop] at hwritten
  exact ⟨x, hx, hcleared, cleared_barrier hx hlog hbefore (List.mem_of_getElem? hwritten)⟩

end DirectMedia

import DirectMedia.Feed.Actions
import DirectMedia.Feed.Outline
import DirectMedia.Lib.History

set_option autoImplicit false

/-! # The frame at the head of the queue

An attempt reads the frame that `getBufQueue` returned and removes the head of the queue by
position. In between it holds no lock that keeps `flush` from clearing the queue: the guard on
`unload_mutex_` has been released by then. The frame stays at the head, and is the one that is
removed, in exactly the runs in which no other thread clears the queue of a stream while an attempt
for this stream holds a frame.

The frame is removed whatever became of its data. That OMX took the data first is true of the runs
in which, besides, every submission is taken and no video frame has a `data_len` that is negative as
an `int`: of such a frame nothing is submitted. Both are in `framesKept_iff`.
-/

namespace DirectMedia

open Prog

/-! ## What an attempt holds -/

/-- The frame an attempt holds after an event of its thread, and what came of each submission of its
data: the buffer OMX took, or none. -/
def heldAfter :
    Option (Frame × List (Option Buffer)) → Event → Option (Frame × List (Option Buffer))
  | _, .got _ f => some (f, [])
  | some (f, bs), .written _ g _ b => some (f, if g = f then bs ++ [b] else bs)
  | _, .popped _ _ | _, .fed _ _ => none
  | h, _ => h

/-- A call through a pointer does not change what is held. -/
theorem heldAfter_of_isUse (h : Option (Frame × List (Option Buffer))) {e : Event}
    (he : e.isUse = true) : heldAfter h e = h := by
  cases e with
  | use c present => cases h <;> rfl
  | _ => cases he

/-- The frame obtained and not yet removed, after the events of a renderer thread. -/
def held (es : List Event) : Option (Frame × List (Option Buffer)) := es.foldl heldAfter none

/-- The frame held is at the head of the queue. -/
def HeadKept (i : StreamType) (w : FeedWorld) : Prop :=
  ∀ f bs, held (w.events (.renderer i)) = some (f, bs) → (w.state.frames i).head? = some f

/-- Every frame a renderer thread removes is the one it holds, and `P` is true of what came of its
submissions. -/
def Pops (P : Frame → List (Option Buffer) → Prop) (i : StreamType) (es : List Event) : Prop :=
  History.Each (fun past e => ∀ x, e = .popped i x →
    ∃ f bs, x = some f ∧ held past = some (f, bs) ∧ P f bs) es

/-- The frame an attempt obtains stays at the head of the queue, and is the one it removes. -/
def HeadsKept (x : FeedSystem) : Prop :=
  ∀ i, HeadKept i x.world ∧ Pops (fun _ _ => True) i (x.world.events (.renderer i))

/-- Data was handed to `writeToFreeBuffer`, and each time OMX took a buffer with it. -/
def AllTaken (bs : List (Option Buffer)) : Prop := bs ≠ [] ∧ none ∉ bs

/-- Besides, no frame is removed that OMX did not take. -/
def FramesKept (x : FeedSystem) : Prop :=
  ∀ i, HeadKept i x.world ∧ Pops (fun _ bs => AllTaken bs) i (x.world.events (.renderer i))

/-- The step is `clearBufQueue` for a stream, by a client thread, while an attempt for this stream
holds a frame. -/
def ClearsHeld (x : FeedSystem) : FeedAct → Prop
  | .step (.client n) => ∃ i, x.shows (.client n) = some (.cleared i) ∧
      (held (x.world.events (.renderer i))).isSome
  | _ => False

/-- A video frame whose `data_len` is negative as an `int` is obtained, or a submission finds no
free buffer or is refused by OMX. -/
def Event.fails : Event → Bool
  | .got i f => decide (i = .videoEs ∧ f.dataLen < 0)
  | .written _ _ _ b => b.isNone
  | _ => false

theorem fails_writeAction_iff (c : ComponentName) (f : Frame) (data : List UInt8) (pts : Int)
    (flags : BitVec 32) (accept : Int) (s : Esplayer) :
    (∃ e ∈ (writeAction c f data pts flags accept s).1, e.fails = true) ↔
      (s.input c).getFreeBufferCount = 0 ∨ accept ≠ 0 := by
  rw [← Port.writeToFreeBuffer_none_iff _ data pts flags]
  simp [writeAction, Event.fails]

/-- In the step this happens to an attempt. -/
def SubmitFails (x : FeedSystem) : FeedAct → Prop
  | .step (.renderer i) => ∃ e ∈ x.shows (.renderer i), e.fails = true
  | _ => False

/-- The step clears the queue of a stream whose frame is held. -/
theorem clearsHeld_iff {x : FeedSystem} {a : FeedAct} :
    ClearsHeld x a ↔ ∃ n i h, a = .step (.client n) ∧ x.shows (.client n) = some (.cleared i) ∧
      held (x.world.events (.renderer i)) = some h := by
  constructor
  · intro h
    cases a with
    | step t =>
        cases t with
        | client n =>
            obtain ⟨i, hshows, hheld⟩ := h
            obtain ⟨h, hheld⟩ := Option.isSome_iff_exists.mp hheld
            exact ⟨n, i, h, rfl, hshows, hheld⟩
        | renderer i => exact h.elim
    | _ => exact h.elim
  · rintro ⟨n, i, h, rfl, hshows, hheld⟩
    exact ⟨i, hshows, by rw [hheld]; rfl⟩

theorem held_append (es : List Event) (o : Option Event) :
    held (es ++ o.toList) = o.elim (held es) (heldAfter (held es)) := by
  cases o <;> simp [held]

/-- A frame that is held has been obtained meanwhile, or was held before. -/
theorem held_origin {h : Option (Frame × List (Option Buffer))} {es : List Event} {f : Frame}
    {bs : List (Option Buffer)} (hf : es.foldl heldAfter h = some (f, bs)) :
    (∃ cs, h = some (f, cs)) ∨ ∃ e ∈ es, ∃ i, e = .got i f := by
  refine History.foldl_origin (fun h => ∃ cs, h = some (f, cs)) (fun h e => ?_) ⟨bs, hf⟩
  rintro ⟨cs, hcs⟩
  cases e with
  | got i g =>
      simp only [heldAfter, Option.some.injEq, Prod.mk.injEq] at hcs
      exact .inl ⟨i, by rw [hcs.1]⟩
  | written i g n b =>
      cases h with
      | none => cases hcs
      | some p =>
          simp only [heldAfter, Option.some.injEq, Prod.mk.injEq] at hcs
          exact .inr ⟨p.2, by rw [← hcs.1]⟩
  | popped i g => cases h <;> cases hcs
  | fed i n => cases h <;> cases hcs
  | _ => exact .inr ⟨cs, by cases h <;> exact hcs⟩

/-- Where no buffer came of a submission, the event of this submission says so. -/
theorem held_none {es : List Event} {f : Frame} {bs : List (Option Buffer)}
    (hf : held es = some (f, bs)) (hnone : none ∈ bs) : ∃ e ∈ es, e.fails = true := by
  have horigin : (∃ f bs, (none : Option (Frame × List (Option Buffer))) = some (f, bs) ∧
      none ∈ bs) ∨ ∃ e ∈ es, e.fails = true :=
    History.foldl_origin (fun h => ∃ f bs, h = some (f, bs) ∧ none ∈ bs) (fun h e => ?_)
      ⟨f, bs, hf, hnone⟩
  · rcases horigin with ⟨_, _, hstart, _⟩ | hbrings
    · cases hstart
    · exact hbrings
  · rintro ⟨g, cs, hcs, hnone⟩
    cases e with
    | got i g' =>
        cases hcs
        cases hnone
    | written i g' n b =>
        cases h with
        | none => cases hcs
        | some p =>
            cases b with
            | none => exact .inl rfl
            | some b =>
                simp only [heldAfter, Option.some.injEq, Prod.mk.injEq] at hcs
                refine .inr ⟨p.1, p.2, rfl, ?_⟩
                rw [← hcs.2] at hnone
                split at hnone
                case isTrue => simpa using hnone
                case isFalse => exact hnone
    | popped i g' => cases h <;> cases hcs
    | fed i n => cases h <;> cases hcs
    | _ => exact .inr ⟨g, cs, by cases h <;> exact hcs, hnone⟩

/-! ## The outline -/

/-- What the others do to the attempt: the events of its thread are its own, and a frame it holds
stays at the head if it is there. -/
def HeadRely (i : StreamType) (w v : FeedWorld) : Prop :=
  v.events (.renderer i) = w.events (.renderer i) ∧ (HeadKept i w → HeadKept i v)

/-- There is a submission, unless it is a video frame whose `data_len` is negative as an `int`. -/
def Tried (i : StreamType) (f : Frame) (bs : List (Option Buffer)) : Prop :=
  bs = [] → i = .videoEs ∧ f.dataLen < 0

/-- What is known of an event of an attempt and the events of its thread before it. -/
def Event.Follows (i : StreamType) (past : List Event) : Event → Prop
  | .got j _ => j = i
  | .popped _ x => ∃ f bs, x = some f ∧ held past = some (f, bs) ∧ Tried i f bs
  | _ => True

/-- All events of a renderer thread are of this kind. -/
def HeadLog (i : StreamType) (es : List Event) : Prop :=
  History.Each (fun past e => e.Follows i past) es

/-- What an attempt does: it keeps its own frame at the head and lets the others be. -/
def HeadGuar (i : StreamType) (w v : FeedWorld) : Prop :=
  (HeadKept i v ∧ HeadLog i (v.events (.renderer i))) ∧ ∀ j, j ≠ i → HeadRely j w v

/-- What an attempt holds in a phase. -/
def Phase.Holds (i : StreamType) (h : Option (Frame × List (Option Buffer))) : Phase → Prop
  | .start _ | .absent | .removed | .nothing => h = none
  | .holding f _ | .adjusted f | .synced f | .chunked f => ∃ bs, h = some (f, bs)
  | .written f => ∃ bs, h = some (f, bs) ∧ Tried i f bs

/-- The assertion of each phase. -/
structure HeadPhase (i : StreamType) (ph : Phase) (w : FeedWorld) : Prop where
  log : HeadLog i (w.events (.renderer i))
  kept : HeadKept i w
  holds : ph.Holds i (held (w.events (.renderer i)))

/-- After a submission the phase is the one that follows the last. -/
theorem holds_written (i : StreamType) (f : Frame) (bs : List (Option Buffer))
    (b : Option Buffer) : (Phase.written f).Holds i (some (f, bs ++ [b])) :=
  ⟨bs ++ [b], rfl, fun h => by simp at h⟩

theorem headRely_refl (i : StreamType) (w : FeedWorld) : HeadRely i w w := ⟨rfl, id⟩

theorem headRely_trans (i : StreamType) (u v w : FeedWorld) (h : HeadRely i u v)
    (h' : HeadRely i v w) : HeadRely i u w :=
  ⟨h'.1.trans h.1, h'.2 ∘ h.2⟩

theorem HeadPhase.stable {i : StreamType} {ph : Phase} {w v : FeedWorld} (hR : HeadRely i w v)
    (h : HeadPhase i ph w) : HeadPhase i ph v :=
  ⟨hR.1 ▸ h.log, hR.2 h.kept, hR.1 ▸ h.holds⟩

section Actions

variable {i : StreamType} {ph ph' : Phase} {w : FeedWorld} {a : Action}

/-- What is held after an action of the attempt. -/
def heldNext (i : StreamType) (w : FeedWorld) (a : Action) :
    Option (Frame × List (Option Buffer)) :=
  (a w.state).1.elim (held (w.events (.renderer i))) (heldAfter (held (w.events (.renderer i))))

theorem held_after : held ((w.after (.renderer i) a).events (.renderer i)) = heldNext i w a := by
  rw [World.events_after_self, held_append, heldNext]

theorem heldNext_write {f : Frame} {bs : List (Option Buffer)}
    (hf : held (w.events (.renderer i)) = some (f, bs)) (c : ComponentName) (data : List UInt8)
    (pts : Int) (flags : BitVec 32) (accept : Int) :
    heldNext i w (writeAction c f data pts flags accept) =
      some (f, bs ++ [((w.state.input c).writeToFreeBuffer data pts flags accept).2.2]) := by
  simp [heldNext, writeAction, hf, heldAfter]

/-- An action of an attempt that leaves the queue of the other stream alone. -/
theorem HeadPhase.act (h : HeadPhase i ph w)
    (hother : ∀ j, j ≠ i → (a w.state).2.frames j = w.state.frames j)
    (hkept : ∀ f bs, heldNext i w a = some (f, bs) → ((a w.state).2.frames i).head? = some f)
    (hshow : ∀ e ∈ (a w.state).1, e.Follows i (w.events (.renderer i)))
    (hholds : ph'.Holds i (heldNext i w a)) :
    HeadGuar i w (w.after (.renderer i) a) ∧ HeadPhase i ph' (w.after (.renderer i) a) := by
  have hlog : HeadLog i ((w.after (.renderer i) a).events (.renderer i)) := by
    rw [World.events_after_self]
    exact h.log.append_toList hshow
  have hkept' : HeadKept i (w.after (.renderer i) a) := by
    intro f b hf
    rw [held_after] at hf
    exact hkept f b hf
  refine ⟨⟨⟨hkept', hlog⟩, fun j hj => ?_⟩, hlog, hkept', ?_⟩
  · have hevents : (w.after (.renderer i) a).events (.renderer j) = w.events (.renderer j) :=
      w.events_after_ne (by simpa using hj.symm) a
    refine ⟨hevents, fun hw f b hf => ?_⟩
    rw [World.after_state, hother j hj]
    exact hw f b (by rwa [hevents] at hf)
  · rw [held_after]
    exact hholds

/-- An action that leaves the queues alone and shows nothing about the frame held. -/
theorem HeadPhase.keep (h : HeadPhase i ph w) (hframes : (a w.state).2.frames = w.state.frames)
    (hevent : heldNext i w a = held (w.events (.renderer i)))
    (hshow : ∀ e ∈ (a w.state).1, e.Follows i (w.events (.renderer i)))
    (hholds : ph'.Holds i (held (w.events (.renderer i)))) :
    HeadGuar i w (w.after (.renderer i) a) ∧ HeadPhase i ph' (w.after (.renderer i) a) := by
  refine h.act (fun j _ => by rw [hframes]) (fun f b hf => ?_) hshow ?_
  · rw [hframes]
    exact h.kept f b (by rwa [hevent] at hf)
  · rwa [hevent]

/-- A submission. -/
theorem HeadPhase.write {f : Frame} {bs : List (Option Buffer)} (h : HeadPhase i ph w)
    (hf : held (w.events (.renderer i)) = some (f, bs)) (c : ComponentName) (data : List UInt8)
    (pts : Int) (flags : BitVec 32) (accept : Int)
    (hholds : ∀ b, ph'.Holds i (some (f, bs ++ [b]))) :
    HeadGuar i w (w.after (.renderer i) (writeAction c f data pts flags accept)) ∧
      HeadPhase i ph' (w.after (.renderer i) (writeAction c f data pts flags accept)) := by
  have hnext := heldNext_write hf c data pts flags accept
  refine h.act (fun j _ => rfl) (fun g b' hg => ?_) (fun e he => by cases he; trivial)
    (hnext ▸ hholds _)
  rw [hnext] at hg
  cases hg
  exact h.kept f bs hf

end Actions

/-- The outline of an attempt, as far as the head of the queue is concerned. -/
theorem headRules (i : StreamType) (env : FeedEnv) :
    FeedRules i env (HeadRely i) (HeadGuar i) (HeadPhase i) (fun _ => True)
      fun _ => HeadPhase i .nothing where
  refl := headRely_refl i
  stable _ _ _ hR h := h.stable hR
  stable_end _ _ _ hR h := h.stable hR
  good_nonneg _ _ := trivial
  good_add _ _ _ _ := trivial
  readOnly ph w a ha h := by
    have hevent : ∀ e, (a w.state).1 = some e → e.isUse = true := (ha w.state).2
    refine h.keep (by rw [(ha w.state).1]) ?_ (fun e he => ?_) h.holds
    · unfold heldNext
      cases he : (a w.state).1 with
      | none => rfl
      | some e => exact heldAfter_of_isUse _ (hevent e he)
    · have huse := hevent e he
      cases e with
      | use c present => trivial
      | _ => cases huse
  room _ h _ := ⟨h.log, h.kept, h.holds⟩
  room_holding _ _ h _ := ⟨h.log, h.kept, h.holds⟩
  absent _ h _ := ⟨h.log, h.kept, h.holds⟩
  clear w h := by
    -- the renderer clears a queue only while it holds nothing of it
    have hnone : held (w.events (.renderer i)) = none := h.holds
    refine h.act (fun j hj => Function.update_of_ne hj _ _) (fun f b hf => ?_)
      (fun e he => by cases he; trivial) ?_
    · simp [heldNext, clearAction, hnone, heldAfter] at hf
    · simp [heldNext, clearAction, hnone, heldAfter, Phase.Holds]
  got r f w h hf := by
    -- from here on the head is held, and has not been written
    have hnext : heldNext i w (getAction i) = some (f, []) := by
      simp [heldNext, getAction, hf, heldAfter]
    refine h.act (fun j _ => rfl) (fun g bs hg => ?_) (fun e he => ?_) ⟨[], hnext⟩
    · rw [hnext] at hg
      cases hg
      exact hf
    · simp only [getAction, hf, Option.map_some, Option.mem_def, Option.some.injEq] at he
      exact he ▸ rfl
  empty _ _ h _ := ⟨h.log, h.kept, h.holds⟩
  adjust f w h := by
    obtain ⟨bs, hbs⟩ := h.holds
    exact h.keep rfl (by simp [heldNext, adjustAction, hbs, heldAfter])
      (fun e he => by cases he; trivial) ⟨bs, hbs⟩
  skip_adjust _ _ h _ := ⟨h.log, h.kept, h.holds⟩
  sync f pts flags used w h _ := by
    obtain ⟨bs, hbs⟩ := h.holds
    exact h.keep rfl (by simp [heldNext, syncAction, hbs, heldAfter])
      (fun e he => by cases he; trivial) ⟨bs, hbs⟩
  skip_sync _ _ h _ := ⟨h.log, h.kept, h.holds⟩
  notify f high w h := by
    obtain ⟨bs, hbs⟩ := h.holds
    exact h.keep rfl (by simp [heldNext, notifyAction, hbs, heldAfter])
      (fun e he => by cases he; trivial) ⟨bs, hbs⟩
  chunk _ _ _ h _ := ⟨h.log, h.kept, h.holds⟩
  write f data pts flags offset w h := by
    obtain ⟨bs, hbs⟩ := h.holds
    obtain ⟨hG, hΦ⟩ := h.write hbs i.codec data pts flags (env.accept offset)
      (holds_written i f bs)
    exact ⟨hG, hΦ, trivial⟩
  write_chunk f data pts flags offset w h := by
    obtain ⟨bs, hbs⟩ := h.holds
    have hchunked : ∀ b, (Phase.chunked f).Holds i (some (f, bs ++ [b])) := fun b => ⟨_, rfl⟩
    obtain ⟨hG, hΦ⟩ := h.write hbs i.codec data pts flags (env.accept offset)
      (holds_written i f bs)
    obtain ⟨_, hΦ'⟩ := h.write hbs i.codec data pts flags (env.accept offset) hchunked
    exact ⟨hG, hΦ', hΦ, trivial⟩
  unwritten f w hi h hneg := by
    obtain ⟨bs, hbs⟩ := h.holds
    exact ⟨h.log, h.kept, bs, hbs, fun _ => ⟨hi, hneg⟩⟩
  pop f w h := by
    obtain ⟨bs, hbs, htried⟩ := h.holds
    -- the head that is removed is the one that was held
    have hnext : heldNext i w (popAction i) = none := by simp [heldNext, popAction, hbs, heldAfter]
    refine h.act (fun j hj => Function.update_of_ne hj _ _) (fun g bs hg => ?_) (fun e he => ?_)
      hnext
    · rw [hnext] at hg
      cases hg
    · cases he
      exact ⟨f, bs, h.kept f bs hbs, hbs, htried⟩
  fed ph n w h _ := by
    have hnext : heldNext i w (fedAction i n) = none := by
      simp only [heldNext, fedAction, Option.elim]
      cases held (w.events (.renderer i)) <;> rfl
    refine h.act (fun j _ => rfl) (fun g b hg => ?_) (fun e he => by cases he; trivial) hnext
    rw [hnext] at hg
    cases hg

/-! ## The other threads -/

/-- An action that clears one queue, or clears none and removes nothing from any. -/
def ExtendsQueues (a : Action) : Prop := ∀ s,
  (∃ i, (a s).1 = some (.cleared i) ∧ (a s).2.frames = Function.update s.frames i []) ∨
    (∀ i, (a s).1 ≠ some (.cleared i)) ∧ ∀ i, ∃ fs, (a s).2.frames i = s.frames i ++ fs

theorem extendsQueues_of_frames {a : Action} (hframes : ∀ s, (a s).2.frames = s.frames)
    (hclear : ∀ s i, (a s).1 ≠ some (.cleared i)) : ExtendsQueues a :=
  fun s => .inr ⟨hclear s, fun i => ⟨[], by rw [hframes, List.append_nil]⟩⟩

/-- An action that shows nothing. -/
theorem extendsQueues_silent {f : Esplayer → Esplayer} (hframes : ∀ s, (f s).frames = s.frames) :
    ExtendsQueues fun s => (none, f s) :=
  extendsQueues_of_frames hframes fun _ _ h => by cases h

theorem untouched_frames : Untouched Esplayer.frames :=
  ⟨fun _ _ => rfl, fun _ _ => rfl, fun _ _ => rfl⟩

theorem ofFlush_extendsQueues : OfFlush ExtendsQueues where
  read := extendsQueues_silent fun _ => rfl
  call env call _ := by
    refine extendsQueues_of_frames (untouched_frames.perform env call).1 fun s i h => ?_
    simp [performAction] at h
  admitted _ := by
    refine extendsQueues_of_frames (fun _ => rfl) fun s i h => ?_
    split at h <;> cases h
  loadedRead := extendsQueues_of_frames (fun _ => rfl) fun _ _ h => by cases h
  cleared i := fun _ => .inl ⟨i, rfl, rfl⟩
  clearRenderer _ := extendsQueues_silent fun _ => rfl
  pts _ := extendsQueues_silent fun _ => rfl
  lastPts _ := extendsQueues_silent fun _ => rfl
  eos _ := extendsQueues_silent fun _ => rfl
  trickMode _ := extendsQueues_silent fun _ => rfl

theorem extendsQueues_push (b : StreamBuffer) : ExtendsQueues (pushAction b) := by
  refine fun s => .inr ⟨fun i h => (by cases h), fun i => ?_⟩
  by_cases hi : i = b.streamType
  · subst hi
    exact ⟨[⟨b, s.pushed⟩], by simp [pushAction]⟩
  · exact ⟨[], by simp [pushAction, Function.update_of_ne hi]⟩

theorem extendsQueues_feedData (buff : Option StreamBuffer) :
    (feedData buff).Does ExtendsQueues := by
  refine does_feedData ofFlush_extendsQueues.read ofFlush_extendsQueues.loadedRead fun b _ =>
    ⟨extendsQueues_push b, ?_⟩
  exact extendsQueues_of_frames (fun _ => rfl) fun _ _ h => by cases h

theorem does_clientCall (c : ClientCall) : c.prog.Does ExtendsQueues := by
  cases c with
  | feedData buff => exact extendsQueues_feedData buff
  | flush env =>
      refine ofFlush_extendsQueues.flush (fun _ => ?_) env
      exact extendsQueues_of_frames (fun _ => rfl) fun _ _ h => by cases h

/-! ## Runs -/

open FeedSystem

/-- What holds of a stream between two steps. -/
structure HeadStream (i : StreamType) (x : FeedSystem) : Prop where
  kept : HeadKept i x.world
  log : HeadLog i (x.world.events (.renderer i))
  idle : x.running (.renderer i) = none → held (x.world.events (.renderer i)) = none
  attempt : ∀ p, x.running (.renderer i) = some p →
    Ensures (.renderer i) (HeadRely i) (HeadGuar i) (fun _ => HeadPhase i .nothing) p x.world

theorem HeadStream.stable {i : StreamType} {x y : FeedSystem} (h : HeadStream i x)
    (hR : HeadRely i x.world y.world) (hrun : y.running (.renderer i) = x.running (.renderer i)) :
    HeadStream i y where
  kept := hR.2 h.kept
  log := hR.1 ▸ h.log
  idle hnone := by rw [hR.1]; exact h.idle (hrun ▸ hnone)
  attempt p hp := (h.attempt p (hrun ▸ hp)).stable (headRely_trans i) hR

theorem headRely_of_same (i : StreamType) {w v : FeedWorld} (hlog : v.log = w.log)
    (hframes : v.state.frames = w.state.frames) : HeadRely i w v := by
  have hevents := World.events_congr hlog (.renderer i)
  refine ⟨hevents, fun h f b hf => ?_⟩
  rw [hframes]
  exact h f b (by rwa [hevents] at hf)

theorem HeadStream.setLooper {i : StreamType} {x : FeedSystem} (h : HeadStream i x)
    (j : StreamType) (l : Looper) : HeadStream i (x.setLooper j l) :=
  h.stable (headRely_of_same i rfl rfl) rfl

theorem shows_client {x y : FeedSystem} {n : Nat} {a : Action}
    (hy : Pool.step x (.client n) = some y) (hw : y.world = x.world.after (.client n) a) :
    x.shows (.client n) = (a x.world.state).1 := by
  have hlog := Pool.step_log hy
  rw [hw, World.after_log] at hlog
  have hlist := List.append_cancel_left hlog
  cases hshows : x.shows (.client n) <;> cases ha : (a x.world.state).1 <;> simp_all

/-- A client's step, unless it clears a queue whose head is held. -/
theorem headRely_client (i : StreamType) {x y : FeedSystem} {n : Nat}
    (hy : Pool.step x (.client n) = some y) (hclear : ¬ ClearsHeld x (.step (.client n)))
    (hdo : y.world = x.world ∨ ∃ a, ExtendsQueues a ∧ y.world = x.world.after (.client n) a) :
    HeadRely i x.world y.world := by
  rcases hdo with hw | ⟨a, ha, hw⟩
  · rw [hw]; exact headRely_refl i x.world
  · have hevents : y.world.events (.renderer i) = x.world.events (.renderer i) := by
      rw [hw, World.events_after_ne _ (by simp)]
    refine ⟨hevents, fun h f b hf => ?_⟩
    rw [hevents] at hf
    have hhead := h f b hf
    rw [hw, World.after_state]
    rcases ha x.world.state with ⟨j, hj, hframes⟩ | ⟨_, hextends⟩
    · -- the queue of `i` is not the one that is cleared
      have hij : i ≠ j := by
        rintro rfl
        exact hclear ⟨i, (shows_client hy hw).trans hj, by rw [hf]; rfl⟩
      rw [hframes, Function.update_of_ne hij]
      exact hhead
    · obtain ⟨fs, hfs⟩ := hextends i
      rw [hfs, List.head?_append, hhead, Option.some_or]

/-- What holds between two steps. -/
structure HeadInv (x : FeedSystem) : Prop where
  stream : ∀ i, HeadStream i x
  clients : ∀ n p, x.running (.client n) = some p → p.Does ExtendsQueues

theorem headInv_init (s : Esplayer) : HeadInv (Pool.init s) where
  stream i := ⟨fun f b h => by simp [held, World.events, Pool.init] at h,
    History.each_nil, fun _ => rfl, fun p h => by cases h⟩
  clients n p h := by cases h

/-- A client's call starts or returns. -/
theorem HeadInv.setClient {x : FeedSystem} (h : HeadInv x) (n : Nat) (p : Option (Op Int))
    (hp : ∀ q, p = some q → q.Does ExtendsQueues) : HeadInv (x.setRunning (.client n) p) := by
  refine ⟨fun i => (h.stream i).stable (headRely_refl i _) ?_, fun m q hq => ?_⟩
  · exact Pool.running_setRunning_ne x (by simp) _
  · rcases Pool.setRunning_cases hq with ⟨_, hq⟩ | ⟨_, hold⟩
    · exact hp q hq
    · exact h.clients m q hold

/-- A step that changes one stream only. -/
theorem HeadInv.setStream {x y : FeedSystem} (h : HeadInv x) {i : StreamType}
    (hi : HeadStream i y) (hrely : ∀ j, j ≠ i → HeadRely j x.world y.world)
    (hrun : ∀ t, t ≠ .renderer i → y.running t = x.running t) : HeadInv y := by
  refine ⟨fun j => ?_, fun n p hp => h.clients n p (by rwa [hrun _ (by simp)] at hp)⟩
  by_cases hj : j = i
  · subst hj
    exact hi
  · exact (h.stream j).stable (hrely j hj) (hrun _ (by simpa using hj))

/-- A step of an attempt keeps what holds of its stream. -/
theorem HeadStream.step {i : StreamType} {x y : FeedSystem} (h : HeadStream i x)
    (hy : Pool.step x (.renderer i) = some y) :
    HeadStream i y ∧ ∀ j, j ≠ i → HeadRely j x.world y.world := by
  obtain ⟨⟨p, hp⟩, _⟩ := Pool.step_running hy
  obtain ⟨hG, q, hq, hens⟩ := Pool.step_ensures (headRely_refl i) hy hp (h.attempt p hp)
  have hidle : y.running (.renderer i) = none →
      held (y.world.events (.renderer i)) = none := by
    intro hnone
    rw [hq] at hnone
    cases hnone
  have hattempt : ∀ p, y.running (.renderer i) = some p → Ensures (.renderer i) (HeadRely i)
      (HeadGuar i) (fun _ => HeadPhase i .nothing) p y.world := by
    intro p' hp'
    rw [hq, Option.some.injEq] at hp'
    exact hp' ▸ hens
  rcases hG with hw | hG
  · exact ⟨⟨hw ▸ h.kept, hw ▸ h.log, hidle, hattempt⟩, fun j _ => hw ▸ headRely_refl j _⟩
  · exact ⟨⟨hG.1.1, hG.1.2, hidle, hattempt⟩, hG.2⟩

/-- The step lemma. -/
theorem HeadInv.step {x y : FeedSystem} {a : FeedAct} (h : HeadInv x) (ha : ¬ ClearsHeld x a)
    (hy : FeedSystem.step x a = some y) : HeadInv y := by
  cases effect hy with
  | call n c label idle eq =>
      refine eq ▸ h.setClient n _ fun q hq => ?_
      cases hq
      exact does_clientCall c
  | returned n v label done eq => exact eq ▸ h.setClient n _ fun q hq => by cases hq
  | step t label taken =>
      subst label
      cases t with
      | renderer i =>
          obtain ⟨hi, hrely⟩ := (h.stream i).step taken
          exact h.setStream hi hrely fun t ht => Pool.step_running_ne taken ht
      | client n =>
          obtain ⟨⟨p, hp⟩, _⟩ := Pool.step_running taken
          -- a client thread: the streams rely on what its action does
          obtain ⟨hdo, q, hq, hdoes⟩ := Pool.step_does taken hp (h.clients n p hp)
          refine ⟨fun i => (h.stream i).stable (headRely_client i taken ha hdo)
            (Pool.step_running_ne taken (by simp)), fun m p' hp' => ?_⟩
          rcases Pool.step_running_cases taken hp' with hm | ⟨_, hold⟩
          · obtain rfl : m = n := by simpa using hm
            rw [hq, Option.some.injEq] at hp'
            exact hp' ▸ hdoes
          · exact h.clients m p' hold
  | attempt i v env m label top front idle eq =>
      subst eq
      refine h.setStream (i := i) ?_ (fun j _ => headRely_of_same j rfl rfl) fun t ht =>
        Pool.running_setRunning_ne _ ht _
      have hx := (h.stream i).setLooper i { x.looper i with pc := .handling m v }
      refine ⟨hx.kept, hx.log, fun hnone => ?_, fun p hp => ?_⟩
      · rw [Pool.running_setRunning_self] at hnone
        cases hnone
      · rw [Pool.running_setRunning_self, Option.some.injEq] at hp
        rw [← hp]
        exact (headRules i env).feedMessage ⟨hx.log, hx.kept, hx.idle idle⟩
  | handled i v m label handling done eq =>
      subst eq
      refine h.setStream (i := i) ?_ (fun j _ => headRely_of_same j rfl rfl) fun t ht =>
        Pool.running_setRunning_ne _ ht _
      -- the attempt has ended, so its postcondition holds
      have hend : HeadPhase i .nothing x.world :=
        (h.stream i).attempt _ done x.world (headRely_refl i _)
      have hx := (h.stream i).setLooper i
        { x.looper i with pc := if v = resultSuccess then .popping m else .sleeping }
      refine ⟨hx.kept, hx.log, fun _ => hend.holds, fun p hp => ?_⟩
      change (x.setRunning _ none).running _ = _ at hp
      rw [Pool.running_setRunning_self] at hp
      cases hp
  | popFront i m label popping eq =>
      subst eq
      exact ⟨fun j => (h.stream j).stable (headRely_of_same j rfl rfl) rfl, h.clients⟩
  | wait i l label queue calls pc eq =>
      subst eq
      exact ⟨fun j => (h.stream j).stable (headRely_of_same j rfl rfl) rfl, h.clients⟩
  | emptyBufferDone i index label eq =>
      subst eq
      exact ⟨fun j => (h.stream j).stable (headRely_of_same j rfl rfl) rfl, h.clients⟩

/-- The attempts keep their frames at the head, and remove no others. -/
theorem HeadInv.headsKept {x : FeedSystem} (h : HeadInv x) : HeadsKept x := by
  refine fun i => ⟨(h.stream i).kept, fun past e rest hes x hx => ?_⟩
  have hfollows := (h.stream i).log past e rest hes
  rw [hx] at hfollows
  obtain ⟨f, bs, hf, hheld, _⟩ := hfollows
  exact ⟨f, bs, hf, hheld, trivial⟩

/-- Clearing the queue whose head is held leaves nothing at the head. -/
theorem HeadInv.clearsHeld {x : FeedSystem} {a : FeedAct} (h : HeadInv x) (ha : ClearsHeld x a) :
    ∃ y, FeedSystem.step x a = some y ∧ ¬ HeadsKept y := by
  obtain ⟨n, i, ⟨f, bs⟩, rfl, hshows, hheld⟩ := clearsHeld_iff.mp ha
  obtain ⟨a, k, y, hp, ha, hy, hw⟩ := Pool.step_of_shows hshows
  refine ⟨y, hy, fun hkept => ?_⟩
  have hhead := (hkept i).1 f bs (by rwa [hw, World.events_after_ne _ (by simp)])
  rcases (h.clients n _ hp).1 x.world.state with ⟨j, hj, hframes⟩ | ⟨hclear, _⟩
  · rw [ha, Option.some.injEq, Event.cleared.injEq] at hj
    subst hj
    rw [hw, World.after_state, hframes, Function.update_self] at hhead
    cases hhead
  · exact hclear i ha

/-! ## Submissions that fail -/

/-- A step adds to the events of an attempt what the attempt shows. -/
theorem events_renderer {x y : FeedSystem} {a : FeedAct} (hy : FeedSystem.step x a = some y)
    (i : StreamType) : y.world.events (.renderer i) = x.world.events (.renderer i) ∨
      a = .step (.renderer i) ∧ y.world.events (.renderer i) =
        x.world.events (.renderer i) ++ (x.shows (.renderer i)).toList := by
  cases effect hy with
  | step t label taken =>
      by_cases ht : t = .renderer i
      · subst ht
        exact .inr ⟨label, Pool.step_events_self taken⟩
      · exact .inl (Pool.step_events_ne taken (Ne.symm ht))
  | call n c label idle eq => exact .inl (by rw [eq]; rfl)
  | returned n v label done eq => exact .inl (by rw [eq]; rfl)
  | attempt i v env m label top front idle eq => exact .inl (by rw [eq]; rfl)
  | handled i v m label handling done eq => exact .inl (by rw [eq]; rfl)
  | popFront i m label popping eq => exact .inl (by rw [eq]; rfl)
  | wait i l label queue calls pc eq => exact .inl (by rw [eq]; rfl)
  | emptyBufferDone i index label eq => exact .inl (by rw [eq]; rfl)

/-- No submission has failed. -/
def NoneFailed (x : FeedSystem) : Prop :=
  ∀ i, ∀ e ∈ x.world.events (.renderer i), e.fails = false

theorem NoneFailed.step {x y : FeedSystem} {a : FeedAct} (h : NoneFailed x)
    (ha : ¬ SubmitFails x a) (hy : FeedSystem.step x a = some y) : NoneFailed y := by
  intro i e he
  rcases events_renderer hy i with hsame | ⟨rfl, happend⟩
  · exact h i e (hsame ▸ he)
  · rw [happend, List.mem_append, Option.mem_toList] at he
    rcases he with hold | hshown
    · exact h i e hold
    · have : ¬ e.fails = true := fun hfails => ha ⟨e, hshown, hfails⟩
      simpa using this

/-- Where no submission has failed, OMX has taken the frame that an attempt is about to remove. -/
theorem taken_of_held {i : StreamType} {es : List Event} {f : Frame}
    {bs : List (Option Buffer)} (hlog : HeadLog i es) (hfine : ∀ e ∈ es, e.fails = false)
    (hheld : held es = some (f, bs)) (htried : Tried i f bs) : AllTaken bs := by
  constructor
  · intro hnil
    obtain ⟨rfl, hneg⟩ := htried hnil
    rcases held_origin hheld with ⟨_, hstart⟩ | ⟨e, he, j, rfl⟩
    · cases hstart
    · obtain ⟨past, rest, hes⟩ := List.append_of_mem he
      obtain rfl : j = .videoEs := hlog past _ rest hes
      have hfails := hfine _ he
      rw [Event.fails, decide_eq_false_iff_not] at hfails
      exact hfails ⟨rfl, hneg⟩
  · intro hnone
    obtain ⟨e, he, hfails⟩ := held_none hheld hnone
    rw [hfine e he] at hfails
    cases hfails

theorem HeadInv.framesKept {x : FeedSystem} (h : HeadInv x) (hfine : NoneFailed x) :
    FramesKept x := by
  refine fun i => ⟨(h.stream i).kept, fun past e rest hes x hx => ?_⟩
  have hlog := (h.stream i).log
  have hfollows := hlog past e rest hes
  rw [hx] at hfollows
  obtain ⟨f, bs, hf, hheld, htried⟩ := hfollows
  have hpast : HeadLog i past := fun p d r hp => hlog p d (r ++ e :: rest) (by simp [hes, hp])
  refine ⟨f, bs, hf, hheld, taken_of_held hpast (fun d hd => ?_) hheld htried⟩
  exact hfine i d (by rw [hes]; exact List.mem_append_left _ hd)

/-- **The frame at the head.** The frame an attempt obtains stays at the head of the queue and is
the one it removes, in the runs in which no thread clears the queue of a stream while an attempt
for this stream holds a frame, and in no others. In those of them in which no submission fails, no
frame is removed that OMX did not take. -/
theorem framesKept_iff (s : Esplayer) (as : List FeedAct) :
    (Lts.Along FeedSystem.step (fun x a => ∀ y, FeedSystem.step x a = some y → HeadsKept y)
        (Pool.init s) as ↔
      Lts.Along FeedSystem.step (fun x a => ¬ ClearsHeld x a) (Pool.init s) as) ∧
    (Lts.Along FeedSystem.step (fun x a => ¬ ClearsHeld x a ∧ ¬ SubmitFails x a) (Pool.init s) as →
      ∀ y, Lts.exec FeedSystem.step (Pool.init s) as = some y → FramesKept y) := by
  constructor
  · refine Lts.Along.congr (I := HeadInv) (L := fun _ => True) (fun x a _ h => ?_)
      (fun x a y _ ha h hy => h.step ha hy) (fun _ _ => trivial) (headInv_init s)
    constructor
    · intro hkept ha
      obtain ⟨y, hy, hnot⟩ := h.clearsHeld ha
      exact hnot (hkept y hy)
    · intro ha y hy
      exact (h.step ha hy).headsKept
  · intro hall y hy
    have hfine : NoneFailed (Pool.init s : FeedSystem) := fun i e he => by cases he
    obtain ⟨hinv, hfine⟩ := Lts.Along.invariant (I := fun x => HeadInv x ∧ NoneFailed x)
      (fun x a y ha h hy => ⟨h.1.step ha.1 hy, h.2.step ha.2 hy⟩) hall ⟨headInv_init s, hfine⟩ hy
    exact hinv.framesKept hfine

instance decidableExistsStream {p : StreamType → Prop} [DecidablePred p] : Decidable (∃ i, p i) :=
  decidable_of_iff (p .audioEs ∨ p .videoEs)
    ⟨fun h => h.elim (fun h => ⟨_, h⟩) fun h => ⟨_, h⟩,
      fun ⟨i, h⟩ => by cases i; exacts [.inl h, .inr h]⟩

instance (x : FeedSystem) : DecidablePred (ClearsHeld x)
  | .step (.client n) =>
      inferInstanceAs (Decidable (∃ i, x.shows (.client n) = some (.cleared i) ∧
        (held (x.world.events (.renderer i))).isSome))
  | .step (.renderer _) | .call _ _ | .returned _ | .look _ _ _ | .handled _ | .looper _ _
  | .emptyBufferDone _ _ => .isFalse id

instance (x : FeedSystem) : DecidablePred (SubmitFails x)
  | .step (.renderer i) =>
      inferInstanceAs (Decidable (∃ e ∈ x.shows (.renderer i), e.fails = true))
  | .step (.client _) | .call _ _ | .returned _ | .look _ _ _ | .handled _ | .looper _ _
  | .emptyBufferDone _ _ => .isFalse id

/-- A frame is fed, and an attempt submits and removes it. -/
def submittedFrame : List FeedAct :=
  [.call 0 (.feedData (some (oneByte 1)))] ++ List.replicate 7 (.step (.client 0)) ++
    [.returned 0, .look .videoEs resultSuccess {}] ++
    List.replicate 14 (.step (.renderer .videoEs))

theorem framesKept_iff_submitted :
    ∃ y, Lts.exec FeedSystem.step (Pool.init (feedingPlayer 2)) submittedFrame = some y ∧
      .popped .videoEs (some ⟨oneByte 1, 0⟩) ∈ y.world.events (.renderer .videoEs) ∧
      FramesKept y := by
  have hrun : (Lts.exec FeedSystem.step (Pool.init (feedingPlayer 2)) submittedFrame).map
      (fun y => (y.world.events (.renderer .videoEs))[10]?) =
      some (some (.popped .videoEs (some ⟨oneByte 1, 0⟩))) := by
    rfl
  have hall : Lts.Along FeedSystem.step (fun x a => ¬ ClearsHeld x a ∧ ¬ SubmitFails x a)
      (Pool.init (feedingPlayer 2)) submittedFrame := by
    decide
  obtain ⟨y, hy, hpopped⟩ := Option.map_eq_some_iff.mp hrun
  exact ⟨y, hy, List.mem_of_getElem? hpopped, (framesKept_iff _ _).2 hall y hy⟩

/-- A frame is fed and an attempt obtains it. Then another client thread flushes. -/
def flushedAttempt : List FeedAct :=
  [.call 0 (.feedData (some (oneByte 1)))] ++ List.replicate 7 (.step (.client 0)) ++
    [.returned 0, .look .videoEs resultSuccess {}] ++
    List.replicate 3 (.step (.renderer .videoEs)) ++
    [.call 1 (.flush fun _ => 0)] ++ List.replicate 41 (.step (.client 1))

/-- A second frame is fed, and the attempt goes on to its end. -/
def lateFrame : List FeedAct :=
  [.call 0 (.feedData (some (oneByte 2)))] ++ List.replicate 7 (.step (.client 0)) ++
    [.returned 0] ++ List.replicate 11 (.step (.renderer .videoEs))

/-- The event is a submission of data of the frame. -/
def Event.writes (f : Frame) : Event → Bool
  | .written _ g _ _ => decide (g = f)
  | _ => false

/-- A frame that is fed after a flush has returned is removed without having been submitted. -/
theorem framesKept_fails :
    ∃ s as x bs y f, Lts.exec FeedSystem.step (Pool.init s) (as ++ [.returned 1]) = some x ∧
      (∀ i, x.world.state.frames i = []) ∧ Lts.exec FeedSystem.step x bs = some y ∧
      .popped .videoEs (some f) ∈ y.world.events (.renderer .videoEs) ∧
      (∀ e ∈ y.world.events (.renderer .videoEs), e.writes f = false) ∧ ¬ HeadsKept y := by
  have hrun : ((Lts.exec FeedSystem.step (Pool.init (feedingPlayer 2))
      (flushedAttempt ++ [.returned 1])).bind fun x =>
        (Lts.exec FeedSystem.step x lateFrame).map fun y =>
          (x.world.state.frames .audioEs, x.world.state.frames .videoEs,
            (y.world.events (.renderer .videoEs))[10]?,
            held ((y.world.events (.renderer .videoEs)).take 10),
            (y.world.events (.renderer .videoEs)).all fun e => !e.writes ⟨oneByte 2, 1⟩)) =
      some ([], [], some (.popped .videoEs (some ⟨oneByte 2, 1⟩)), some (⟨oneByte 1, 0⟩, [some
        { allocLen := 2, status := .ownedByClient, filledLen := 1, flags := 0x12, bytes := [1] }]),
        true) := by
    rfl
  obtain ⟨x, hx, hrun⟩ := Option.bind_eq_some_iff.mp hrun
  obtain ⟨y, hy, hrun⟩ := Option.map_eq_some_iff.mp hrun
  simp only [Prod.mk.injEq] at hrun
  obtain ⟨haudio, hvideo, hpopped, hheld, hwrites⟩ := hrun
  refine ⟨_, _, x, _, y, ⟨oneByte 2, 1⟩, hx, ?_, hy, List.mem_of_getElem? hpopped, ?_, ?_⟩
  · exact fun i => by cases i <;> assumption
  · exact fun e he => by simpa using List.all_eq_true.mp hwrites e he
  · intro hkept
    obtain ⟨hlt, hget⟩ := List.getElem?_eq_some_iff.mp hpopped
    have hlog := (List.take_append_drop 10 (y.world.events (.renderer .videoEs))).symm
    rw [List.drop_eq_getElem_cons hlt, hget] at hlog
    obtain ⟨f, bs, hf, hheld', _⟩ := (hkept .videoEs).2 _ _ _ hlog _ rfl
    rw [hheld] at hheld'
    cases hheld'
    cases hf

end DirectMedia

import DirectMedia.Feed.Threads
import DirectMedia.Lib.LookFirst

set_option autoImplicit false

/-! # Attempts overtaken by an unload

An attempt looks at the pointer of its codec once, and then goes through it without the mutex that
`unload` holds while it resets the pointers. So an attempt may go through a null pointer, but only
if a client thread resets the pointer between the look and the last use (`absent_use`). An attempt
that starts later finds the pointer null and goes through none.
-/

namespace DirectMedia

open Prog

/-- The action goes through the pointer `c`. -/
def GoesThrough (c : ComponentName) (a : Action) : Prop :=
  ∃ s present, (a s).1 = some (.use c present)

/-- The program looks at the pointer of the codec before it goes through it. -/
def LooksAtCodec (i : StreamType) (p : Op Int) : Prop :=
  p.LooksFirst (GoesThrough i.codec) fun s => (s.component i.codec).isSome

theorem not_goesThrough_silent (c : ComponentName) (f : Esplayer → Esplayer) :
    ¬ GoesThrough c fun s => (none, f s) := by
  rintro ⟨s, present, h⟩
  cases h

theorem not_goesThrough_shown {c : ComponentName} {e : Esplayer → Event} (f : Esplayer → Esplayer)
    (he : ∀ s, (e s).isUse = false) : ¬ GoesThrough c fun s => (some (e s), f s) := by
  rintro ⟨s, present, h⟩
  have hno := he s
  rw [Option.some.inj h] at hno
  cases hno

theorem does_lockUnlessPlaying (c : ComponentName) :
    lockUnlessPlaying.Does fun a => ¬ GoesThrough c a :=
  Does.bind (does_read _ (not_goesThrough_silent c id)) fun _ => Does.onlyIf fun _ => trivial

/-- After a look that finds the pointer null the queue is cleared. -/
theorem looksFirst_checked (i : StreamType) (p : Op Int) :
    LooksAtCodec i (do
      lockUnlessPlaying
      let held ← read fun s => (s.component i.codec).isSome
      if held then p
      else
        clearBufQueue i
        return 0) := by
  refine (does_lockUnlessPlaying i.codec).looksFirst.bind fun _ => ?_
  refine looksFirst_look (not_goesThrough_silent _ id) fun s hs => ?_
  rw [if_neg hs]
  refine Does.looksFirst (Does.bind ?_ fun _ => does_pure _)
  exact does_emit _ _ (not_goesThrough_shown _ fun _ => rfl)

theorem looksAtCodec_feedMessage (env : FeedEnv) (i : StreamType) :
    LooksAtCodec i (feedMessage env i) := by
  have hstream : LooksAtCodec i (feedStream env i) := by
    cases i with
    | videoEs => exact looksFirst_checked .videoEs _
    | audioEs => exact looksFirst_checked .audioEs _
  refine LooksFirst.bind hstream fun n => Does.looksFirst (Does.bind ?_ fun _ => does_pure _)
  exact does_emit _ _ (not_goesThrough_shown (fun s => s) fun _ => rfl)

/-! ## The pointers -/

/-- What an action of the thread does to the pointers: none is set, a renderer thread resets none,
and what is shown of the use of one is true. -/
structure PointerAction (t : Thread) (a : Action) : Prop where
  shown : ∀ s c present, (a s).1 = some (.use c present) → present = (s.component c).isSome
  before : ∀ s c, ((a s).2.component c).isSome → (s.component c).isSome
  kept : ∀ i, t = .renderer i → ∀ s c, ((a s).2.component c).isSome = (s.component c).isSome

section PointerAction

variable {t : Thread}

/-- A change that sets and resets no pointer. -/
theorem pointerAction_keeps {a : Action}
    (hkeep : ∀ s c, ((a s).2.component c).isSome = (s.component c).isSome)
    (hshown : ∀ s c present, (a s).1 = some (.use c present) → present = (s.component c).isSome) :
    PointerAction t a :=
  ⟨hshown, fun s c h => by rwa [hkeep] at h, fun _ _ => hkeep⟩

theorem pointerAction_silent {f : Esplayer → Esplayer} (h : ∀ s, (f s).component = s.component) :
    PointerAction t fun s => (none, f s) :=
  pointerAction_keeps (fun s c => by rw [h s]) fun _ _ _ hno => by cases hno

theorem pointerAction_event {e : Esplayer → Event} {f : Esplayer → Esplayer}
    (h : ∀ s, (f s).component = s.component) (he : ∀ s, (e s).isUse = false) :
    PointerAction t fun s => (some (e s), f s) := by
  refine pointerAction_keeps (fun s c => by rw [h s]) fun s c present hshown => ?_
  have hno := he s
  rw [Option.some.inj hshown] at hno
  cases hno

theorem pointerAction_use (c : ComponentName) : PointerAction t (useAction c) :=
  pointerAction_keeps (fun _ _ => rfl) fun _ _ _ h => by cases h; rfl

theorem pointerAction_perform (env : Env) {call : Call} (hcall : call.creates = false) :
    PointerAction t (performAction env call) := by
  refine pointerAction_keeps (performAction_held env hcall) fun s c present h => ?_
  obtain ⟨d, -, heq⟩ := Option.map_eq_some_iff.mp h
  cases heq
  rfl

theorem pointerAction_destroy (n : Nat) (d : ComponentName) :
    PointerAction (.client n) (destroyAction d) where
  shown _ _ _ h := by cases h; rfl
  before s c hc := by
    by_cases hd : c = d
    · subst hd
      simp [destroyAction] at hc
    · simpa [destroyAction, Function.update_of_ne hd] using hc
  kept i hi := by cases hi

theorem pointerAction_get (i : StreamType) : PointerAction t (getAction i) := by
  refine pointerAction_keeps (fun _ _ => rfl) fun s c present h => ?_
  obtain ⟨f, -, heq⟩ := Option.map_eq_some_iff.mp h
  cases heq

end PointerAction

theorem ofThreads_pointerAction : OfThreads PointerAction where
  clients n :=
    { read := pointerAction_silent fun _ => rfl
      call := fun env _ hcall => pointerAction_perform env (Call.creates_of_plain hcall)
      rate := fun env _ => pointerAction_perform env rfl
      admitted := fun _ => by
        refine pointerAction_keeps (fun _ _ => rfl) fun s c present h => ?_
        split at h <;> cases h
      loadedRead := pointerAction_event (fun _ => rfl) fun _ => rfl
      cleared := fun _ => pointerAction_event (fun _ => rfl) fun _ => rfl
      clearRenderer := fun _ => pointerAction_silent fun _ => rfl
      runRenderer := fun _ _ => pointerAction_silent fun _ => rfl
      runMessages := fun _ _ => pointerAction_silent fun _ => rfl
      pts := fun _ => pointerAction_silent fun _ => rfl
      lastPts := fun _ => pointerAction_silent fun _ => rfl
      eos := fun _ => pointerAction_silent fun _ => rfl
      trickMode := fun _ => pointerAction_silent fun _ => rfl
      allowVideo := pointerAction_silent fun _ => rfl
      targetPlaybackRate := fun _ => pointerAction_silent fun _ => rfl
      transit := fun _ => pointerAction_event (fun _ => rfl) fun _ => rfl
      unloaded := pointerAction_silent fun _ => rfl
      callback := pointerAction_silent fun _ => rfl
      destroy := pointerAction_destroy n
      push := fun _ => pointerAction_event (fun _ => rfl) fun _ => rfl
      append := fun _ => pointerAction_event (fun _ => rfl) fun _ => rfl }
  feed i :=
    { read := pointerAction_silent fun _ => rfl
      use := pointerAction_use _
      get := pointerAction_get i
      pop := pointerAction_event (fun _ => rfl) fun _ => rfl
      adjust := fun _ => pointerAction_event (fun _ => rfl) fun _ => rfl
      write := fun _ _ _ _ _ =>
        pointerAction_keeps (fun s c => onComponent_held s _ c _) fun _ _ _ h => by cases h
      cleared := pointerAction_event (fun _ => rfl) fun _ => rfl
      fed := fun _ => pointerAction_event (fun _ => rfl) fun _ => rfl }
  use i c := pointerAction_use c
  sync i f pts flags used := pointerAction_event (fun _ => rfl) fun _ => rfl
  notify i high := pointerAction_event (fun _ => rfl) fun _ => rfl

/-! ## Runs -/

/-- The codec is there. -/
def FeedSystem.hasCodec (x : FeedSystem) (i : StreamType) : Bool :=
  (x.world.state.component i.codec).isSome

/-- The step resets the pointer of the codec while an attempt for its stream has looked at it and
may still go through it. -/
def Overtakes (i : StreamType) (x : FeedSystem) (a : ThreadAct) : Prop :=
  x.hasCodec i = true ∧ (∃ n, a = .feed (.step (.client n))) ∧
    (∀ y, x.threadStep a = some y → y.hasCodec i = false) ∧
    ∃ p, x.running (.renderer i) = some p ∧ ¬ LooksAtCodec i p

/-- A step of the run has overtaken an attempt for the stream, and none has ended since. -/
def Overtaken (i : StreamType) (s : Esplayer) (acts : List ThreadAct) : Prop :=
  ∃ before a after y, acts = before ++ a :: after ∧
    Lts.exec FeedSystem.threadStep (Pool.init s) before = some y ∧ Overtakes i y a ∧
    .feed (.handled i) ∉ after

theorem Overtaken.concat {i : StreamType} {s : Esplayer} {acts : List ThreadAct} {a : ThreadAct}
    (h : Overtaken i s acts) (ha : a ≠ .feed (.handled i)) : Overtaken i s (acts ++ [a]) := by
  obtain ⟨before, b, after, y, rfl, hy, hover, hafter⟩ := h
  refine ⟨before, b, after ++ [a], y, by simp, hy, hover, fun hmem => ?_⟩
  rcases List.mem_append.mp hmem with hmem | hmem
  · exact hafter hmem
  · exact ha (List.mem_singleton.mp hmem).symm

/-- With `handled` an attempt has ended. -/
theorem running_handled {i : StreamType} {x y : FeedSystem}
    (hy : x.threadStep (.feed (.handled i)) = some y) : y.running (.renderer i) = none := by
  cases FeedSystem.effect (a := .handled i) hy with
  | handled j v m label handling done eq =>
      cases label
      rw [eq]
      exact Function.update_self ..
  | call n c label => cases label
  | returned n v label => cases label
  | step t label => cases label
  | attempt j v env m label => cases label
  | popFront j m label => cases label
  | wait j l label =>
      obtain ⟨b, hb⟩ | ⟨v, env, hv⟩ := label
      · cases hb
      · cases hv
  | emptyBufferDone j index label => cases label

/-- A step that takes the codec away is one of a client thread. -/
theorem hasCodec_step {i : StreamType} {x y : FeedSystem} {a : ThreadAct}
    (hx : x.Runs PointerAction) (hy : x.threadStep a = some y) (hhas : x.hasCodec i = true) :
    y.hasCodec i = true ∨ ∃ n, a = .feed (.step (.client n)) := by
  obtain ⟨-, ⟨t, f, hf, rfl, hafter⟩ | ⟨-, hstate⟩⟩ := hx.step ofThreads_pointerAction hy
  · cases t with
    | renderer j =>
        left
        rw [FeedSystem.hasCodec, hafter, World.after_state, hf.kept j rfl]
        exact hhas
    | client n => exact .inr ⟨n, rfl⟩
  · left
    unfold FeedSystem.hasCodec at hhas ⊢
    rcases hstate with heq | ⟨j, l, heq⟩ | ⟨c, index, heq⟩
    · rwa [heq]
    · rw [heq]
      exact hhas
    · rwa [heq, onComponent_held]

/-- An attempt takes a step. -/
theorem looksAtCodec_step {i : StreamType} {x y : FeedSystem} (hx : x.Runs PointerAction)
    (hy : Pool.step x (.renderer i) = some y) {p q : Op Int}
    (hp : x.running (.renderer i) = some p) (hq : y.running (.renderer i) = some q)
    (hlooks : LooksAtCodec i p) : LooksAtCodec i q ∨ y.hasCodec i = true := by
  rcases Pool.step_cases hy with ⟨f, k, hk, hnext, -⟩ | ⟨k, hk | hk, hnext, -⟩
  · obtain rfl := Option.some.inj (hk.symm.trans hp)
    obtain rfl := Option.some.inj (hnext.symm.trans hq)
    refine (hlooks.2 x.world.state).symm.imp_right fun hhas => ?_
    rcases hasCodec_step hx (a := .feed (.step (.renderer i))) hy hhas with hstays | ⟨n, hn⟩
    · exact hstays
    · cases hn
  · obtain rfl := Option.some.inj (hk.symm.trans hp)
    exact .inl (Option.some.inj (hnext.symm.trans hq) ▸ hlooks)
  · obtain rfl := Option.some.inj (hk.symm.trans hp)
    exact .inl (Option.some.inj (hnext.symm.trans hq) ▸ hlooks)

/-- An attempt that may go through the pointer without another look finds the codec there, or has
been overtaken. -/
theorem attempt_codec {s : Esplayer} {i : StreamType} {acts : List ThreadAct} :
    ∀ {x : FeedSystem}, Lts.exec FeedSystem.threadStep (Pool.init s) acts = some x →
      x.Runs PointerAction ∧ ∀ p, x.running (.renderer i) = some p →
        LooksAtCodec i p ∨ x.hasCodec i = true ∨ Overtaken i s acts := by
  induction acts using List.reverseRecOn with
  | nil =>
      intro x hx
      cases hx
      exact ⟨FeedSystem.runs_init _ s, fun p hp => by cases hp⟩
  | append_singleton acts a ih =>
      intro z hz
      obtain ⟨y, hy, hz⟩ := Lts.exec_append_iff.mp hz
      obtain ⟨_, hz, hlast⟩ := Lts.exec_cons_iff.mp hz
      cases hlast
      obtain ⟨hruns, ih⟩ := ih hy
      refine ⟨(hruns.step ofThreads_pointerAction hz).1, fun q hq => ?_⟩
      have hgoes : a ≠ .feed (.handled i) := by
        rintro rfl
        rw [running_handled hz] at hq
        cases hq
      rcases FeedSystem.renderer_cases hz hq with hsame | ⟨env, rfl⟩ | ⟨rfl, hstep⟩
      · rcases ih q hsame with hlooks | hhas | hover
        · exact .inl hlooks
        · -- the codec is there, and stays there unless the step overtakes the attempt
          rcases hasCodec_step hruns hz hhas with hstays | hclient
          · exact .inr (.inl hstays)
          · by_contra hno
            rw [not_or, not_or, Bool.not_eq_true] at hno
            refine hno.2.2 ⟨acts, a, [], y, rfl, hy,
              ⟨hhas, hclient, fun w hw => ?_, q, hsame, hno.1⟩, List.not_mem_nil⟩
            rw [← Option.some.inj (hz.symm.trans hw)]
            exact hno.2.1
        · exact .inr (.inr (hover.concat hgoes))
      · exact .inl (looksAtCodec_feedMessage env i)
      · obtain ⟨⟨p, hp⟩, -⟩ := Pool.step_running hstep
        rcases ih p hp with hlooks | hhas | hover
        · exact (looksAtCodec_step hruns hstep hp hq hlooks).imp_right .inl
        · rcases hasCodec_step hruns hz hhas with hstays | ⟨n, hn⟩
          · exact .inr (.inl hstays)
          · cases hn
        · exact .inr (.inr (hover.concat hgoes))

/-- **Null pointers in attempts.** Client threads make any calls of the interface but load, attempts
are made for both streams, and the codecs return buffers, in any order. Where an attempt is about to
go through the null pointer of its codec, a client thread has reset the pointer after this attempt
had looked at it, and before it had gone through it for the last time. -/
theorem absent_use {s : Esplayer} {acts : List ThreadAct} {x : FeedSystem}
    (hx : Lts.exec FeedSystem.threadStep (Pool.init s) acts = some x) {i : StreamType}
    (huse : x.shows (.renderer i) = some (.use i.codec false)) :
    ∃ before a after y, acts = before ++ a :: after ∧
      Lts.exec FeedSystem.threadStep (Pool.init s) before = some y ∧ Overtakes i y a ∧
      .feed (.handled i) ∉ after := by
  obtain ⟨hruns, hattempt⟩ := attempt_codec (i := i) hx
  obtain ⟨f, k, -, hp, hf, -⟩ := Pool.step_of_shows huse
  rcases hattempt _ hp with hlooks | hhas | hover
  · exact absurd ⟨_, _, hf⟩ hlooks.1
  · have htold := (hruns _ _ hp).1.shown _ _ _ hf
    rw [FeedSystem.hasCodec, ← htold] at hhas
    cases hhas
  · exact hover

/-- An attempt has looked at the pointer of the codec when a thread unloads the player. -/
def unloadedAttempt : List ThreadAct :=
  (([.call 0 (.feedData (some (oneByte 1)))] ++ List.replicate 7 (.step (.client 0)) ++
    [.returned 0, .look .videoEs resultSuccess {}] ++
    List.replicate 3 (.step (.renderer .videoEs)) : List FeedAct)).map .feed ++
    [.api 1 .unload fun _ => 0] ++ List.replicate 36 (.feed (.step (.client 1)))

/-- It is about to go through the null pointer. -/
theorem absent_use_unloaded :
    ∃ before a after y, unloadedAttempt = before ++ a :: after ∧
      Lts.exec FeedSystem.threadStep (Pool.init (feedingPlayer 2)) before = some y ∧
      Overtakes .videoEs y a ∧ .feed (.handled .videoEs) ∉ after := by
  have hrun : ((Lts.exec FeedSystem.threadStep (Pool.init (feedingPlayer 2)) unloadedAttempt).map
      fun x => x.shows (.renderer .videoEs)) = some (some (.use .videoCodec false)) := by
    rfl
  obtain ⟨x, hx, hrun⟩ := Option.map_eq_some_iff.mp hrun
  exact absent_use hx hrun

end DirectMedia

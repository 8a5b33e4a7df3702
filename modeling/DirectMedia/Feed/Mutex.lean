import DirectMedia.Feed.Live
import DirectMedia.Feed.Threads
import DirectMedia.Player.Unload

set_option autoImplicit false

/-! # No call is blocked for good

`unload_mutex_` is the only mutex that a call of the interface holds while it works on components.
`pause`, `flush` and `unload` have their section under it, `feedData` and the attempts take it for
nothing. No path takes it twice, and every path leaves it, so whatever the threads have done so far
each of their calls can come to its end.
-/

namespace DirectMedia

open Prog

/-! ## The calls leave the mutex -/

section LockFree

theorem lockFree_breakSteps (env : Env) {rest : Op Int} (hr : rest.LockFree) :
    ∀ steps : List (Int × Call), (breakSteps env steps rest).LockFree
  | [] => hr
  | _ :: steps => lockFree_breakIfNonzero (lockFree_perform _ _) (lockFree_breakSteps env hr steps)

theorem lockFree_log (env : Env) (call : Call) : (logIfNonzero (perform env call)).LockFree :=
  lockFree_logIfNonzero (lockFree_perform _ _)

theorem lockFree_loadVideo (env : Env) {rest : Op Int} (hr : rest.LockFree) :
    (loadVideo env rest).LockFree := by
  refine lockFree_breakIfNonzero (lockFree_breakSteps env (lockFree_pure _) _) ?_
  refine lockFree_breakSteps env ?_ _
  refine LockFree.bind (lockFree_log env _) fun _ => ?_
  exact LockFree.bind (lockFree_log env _) fun _ => LockFree.bind (lockFree_log env _) fun _ => hr

theorem lockFree_loadAudio (env : Env) {rest : Op Int} (hr : rest.LockFree) :
    (loadAudio env rest).LockFree := by
  have hrenderer := lockFree_breakSteps env hr rendererSteps
  have htunnel : (loadAudioTunnel env rest).LockFree := by
    refine LockFree.bind (lockFree_perform _ _) fun _ => LockFree.ite (fun _ => ?_) fun _ => ?_
    · exact lockFree_breakSteps env hrenderer _
    · exact hrenderer
  refine lockFree_breakIfNonzero (lockFree_breakSteps env (lockFree_pure _) _) ?_
  refine lockFree_breakIfNonzero (lockFree_performIfHeld _ _ _) ?_
  refine lockFree_breakIfNonzero (lockFree_performIfHeld _ _ _) ?_
  refine lockFree_breakIfNonzero (lockFree_performIfHeld _ _ _) ?_
  refine lockFree_breakSteps env (lockFree_breakIfNonzero (lockFree_perform _ _) ?_) _
  exact LockFree.bind (lockFree_log env _) fun _ => htunnel

theorem lockFree_loadFromAudio (env : Env) (result : Int) :
    (loadFromAudio env result).LockFree := by
  have hstart : ∀ result, (loadStart env result).LockFree := by
    intro result
    refine LockFree.bind (lockFree_read _) fun _ => LockFree.bind (lockFree_read _) fun _ => ?_
    refine lockFree_breakIfNonzero
      (LockFree.ite (fun _ => lockFree_perform _ _) fun _ => lockFree_pure _) ?_
    exact LockFree.bind (lockFree_emit _ _) fun _ => lockFree_pure _
  exact LockFree.bind (lockFree_read _) fun _ =>
    LockFree.ite (fun _ => lockFree_loadAudio env (hstart _)) fun _ => hstart _

theorem lockFree_loadDecoded (env : Env) (metaData : MetaData) :
    (loadDecoded env metaData).LockFree := by
  have hbody : (loadBody env).LockFree := by
    refine lockFree_breakIfNonzero (lockFree_breakSteps env (lockFree_pure _) _) ?_
    refine lockFree_breakIfNonzero (lockFree_perform _ _) ?_
    exact LockFree.bind (lockFree_read _) fun _ => LockFree.ite
      (fun _ => lockFree_loadVideo env (lockFree_loadFromAudio env _))
      fun _ => lockFree_loadFromAudio env _
  refine LockFree.bind (lockFree_write _) fun _ => LockFree.bind (lockFree_write _) fun _ => ?_
  exact LockFree.bind hbody fun _ => lockFree_pure _

/-- `load` does not take the mutex at all. -/
theorem lockFree_load (env : Env) (metaData : MetaData) : (load env metaData).LockFree := by
  have hdecoded := lockFree_loadDecoded env metaData
  have hdecoder : (loadDecoder env metaData (loadDecoded env metaData)).LockFree := by
    refine LockFree.ite (fun _ => lockFree_pure _) fun _ => ?_
    refine LockFree.ite (fun _ => hdecoded) fun _ => ?_
    exact LockFree.bind (lockFree_write _) fun _ =>
      lockFree_breakIfNonzero (lockFree_perform _ _) hdecoded
  have hadmitted : (loadAdmitted env metaData).LockFree := by
    refine LockFree.bind (lockFree_write _) fun _ => ?_
    refine lockFree_breakIfNonzero (lockFree_perform _ _) ?_
    refine LockFree.bind (lockFree_write _) fun _ => ?_
    refine LockFree.bind (LockFree.onlyIf (lockFree_write _)) fun _ => ?_
    refine LockFree.ite (fun _ => ?_) fun _ => hdecoded
    exact LockFree.bind (lockFree_write _) fun _ => hdecoder
  refine LockFree.bind (p := readLoaded) (fun _ => trivial) fun _ =>
    LockFree.ite (fun _ => lockFree_pure _) fun _ => ?_
  exact LockFree.bind (p := canTransit .loaded) (fun _ => trivial) fun _ =>
    LockFree.ite (fun _ => hadmitted) fun _ => lockFree_pure _

theorem lockFree_unloadSection (env : Env) : (unloadSection env).LockFree := by
  have hforM : ∀ {β : Type} (f : β → Op Unit), (∀ b, (f b).LockFree) →
      ∀ l : List β, (l.forM f).LockFree := by
    intro β f hf l
    induction l with
    | nil => exact lockFree_pure _
    | cons b l ih => exact LockFree.bind (hf b) fun _ => ih
  have hdestroy : ∀ c, (destroyComponent c).LockFree := fun c =>
    LockFree.bind (lockFree_read _) fun _ => LockFree.onlyIf (lockFree_emit _ _)
  have hall : (unloadAll env).LockFree := by
    refine LockFree.bind (LockFree.bind (lockFree_write _) fun _ => lockFree_write _) fun _ => ?_
    refine LockFree.bind (lockFree_write _) fun _ => ?_
    refine LockFree.bind (hforM _ (fun c => lockFree_logIfNonzero (lockFree_performIfHeld _ _ _)) _)
      fun _ => ?_
    refine LockFree.bind (hforM _ hdestroy _) fun _ => ?_
    refine LockFree.bind (lockFree_emit _ _) fun _ => ?_
    exact LockFree.bind (lockFree_log env _) fun _ => lockFree_pure _
  exact LockFree.bind (p := exchange _ _) (fun _ => trivial) fun _ =>
    LockFree.ite (fun _ => hall) fun _ => lockFree_pure _

theorem lockFree_setRunningStates (run : Bool) : (setRunningStates run).LockFree :=
  LockFree.bind (lockFree_write _) fun _ => LockFree.bind (lockFree_write _) fun _ =>
    LockFree.bind (lockFree_write _) fun _ => lockFree_write _

theorem lockFree_playAdmitted (env : Env) : (playAdmitted env).LockFree := by
  refine LockFree.bind (lockFree_write _) fun _ => LockFree.bind (lockFree_read _) fun _ => ?_
  refine LockFree.bind (LockFree.onlyIf (lockFree_write _)) fun _ => ?_
  refine LockFree.bind (lockFree_playBody env) fun _ => ?_
  refine LockFree.bind (lockFree_emit _ _) fun _ => ?_
  exact LockFree.bind (lockFree_setRunningStates true) fun _ => lockFree_pure _

end LockFree

section Balanced

/-- An operation that first asks whether it may move to `status`. -/
theorem balanced_canTransit_bind {α : Type} {status : Status} {p q : Op α}
    (hp : p.Balanced false) (hq : q.Balanced false) :
    (canTransit status >>= fun can => if can then p else q).Balanced false :=
  Balanced.bind (p := canTransit status) balanced_act fun _ => Balanced.ite hp hq

theorem balanced_flush (env : Env) : (flush env).Balanced false :=
  balanced_canTransit_bind
    (Balanced.bind (p := readLoaded) balanced_act fun _ =>
      Balanced.ite (lockFree_flushSection env).balanced_withLock rfl) rfl

/-- Every call of the interface takes and leaves the mutex in turn. -/
theorem balanced_api (env : Env) (a : ApiCall) : (a.prog env).Balanced false := by
  cases a with
  | load metaData units =>
      have hload : (loadCall env metaData units).LockFree := by
        cases units with
        | none => exact lockFree_load env metaData
        | some units => exact LockFree.bind (lockFree_write _) fun _ => lockFree_load env metaData
      exact hload.balanced_bind fun _ => rfl
  | unload => exact balanced_canTransit_bind (lockFree_unloadSection env).balanced_withLock rfl
  | play => exact balanced_canTransit_bind (lockFree_playAdmitted env).balanced rfl
  | pause =>
      have hloaded : (pauseLoaded env).Balanced false :=
        (lockFree_setRunningStates false).balanced_bind fun _ =>
          (lockFree_pauseSection env).balanced_withLock
      refine balanced_canTransit_bind (Balanced.bind (balanced_read _) fun _ =>
        Balanced.ite rfl (Balanced.bind (balanced_read _) fun _ => Balanced.ite rfl ?_)) rfl
      exact Balanced.bind (p := readLoaded) balanced_act fun _ => Balanced.ite hloaded rfl
  | flush => exact balanced_flush env
  | stepFrame =>
      refine balanced_canTransit_bind (Balanced.bind (balanced_read _) fun _ => ?_) rfl
      refine Balanced.bind (balanced_emit _ _) fun _ => ?_
      exact Balanced.bind (lockFree_perform _ _).balanced fun _ =>
        Balanced.bind (balanced_emit _ _) fun _ => rfl
  | setPlaybackRate rate =>
      have hlog : (logIfNonzero (perform env (.setPlaybackRate rate))).Balanced false :=
        (lockFree_log env _).balanced
      refine Balanced.ite rfl (Balanced.bind (lockFree_write _).balanced fun _ => ?_)
      refine Balanced.bind (balanced_read _) fun _ => Balanced.bind (balanced_read _) fun _ => ?_
      exact Balanced.bind (Balanced.onlyIf hlog) fun _ => rfl

theorem balanced_clientCall (c : ClientCall) : c.prog.Balanced false := by
  cases c with
  | feedData buff => exact balanced_feedData buff
  | flush env => exact balanced_flush env

end Balanced

/-! ## The threads -/

namespace FeedSystem

variable {x y : FeedSystem}

/-- One step of threads that may make any call, `load` too. -/
def openStep (x : FeedSystem) : ThreadAct → Option FeedSystem
  | .feed a => FeedSystem.step x a
  | .api n a env => x.start (.client n) (a.prog env)

/-- A step of a thread's program. -/
abbrev stepOf (t : Thread) : ThreadAct := .feed (.step t)

theorem sound_openStep {a : ThreadAct} (h : x.Sound) (hy : x.openStep a = some y) : y.Sound := by
  cases a with
  | feed a => exact sound_step (fun _ c _ => balanced_clientCall c) h hy
  | api n a env =>
      obtain ⟨hidle, rfl⟩ := Pool.start_cases hy
      exact h.start (balanced_api env a) hidle

end FeedSystem

/-- **No call is blocked for good.** Client threads make any calls of the interface, `load` and
`unload` too, attempts are made for both streams, and the codecs return buffers, in any order. A
thread that is about to take `unload_mutex_` does not hold it. And every call in progress can come
to its end by its own steps, after those of the thread that holds the mutex, if it is another; it
then returns what it would have returned if nobody had interrupted it from there. -/
theorem calls_end {s : Esplayer} {acts : List ThreadAct} {x : FeedSystem}
    (hx : Lts.exec FeedSystem.openStep (Pool.init s) acts = some x) {t : Thread} {p : Op Int}
    (hp : x.running t = some p) :
    (∀ k, p = acquire k → x.owner ≠ some t) ∧
    ∃ (owners : List Thread) (y z : FeedSystem) (n : Nat),
      (∀ u ∈ owners, x.owner = some u ∧ u ≠ t) ∧
      Lts.exec FeedSystem.openStep x (owners.map FeedSystem.stepOf) = some y ∧
      Lts.exec FeedSystem.openStep y (List.replicate n (FeedSystem.stepOf t)) = some z ∧
      z.running t = some (ret (p.run y.world.state).1) ∧
      ∀ u, u ≠ t → u ∉ owners → z.running u = x.running u := by
  have hsound : x.Sound :=
    Lts.exec_invariant (Q := fun _ => True) (fun _ _ _ _ h hy => FeedSystem.sound_openStep h hy)
      (fun _ _ => trivial) (Pool.sound_init s) hx
  have hmap : ∀ (ts : List Thread) (w : FeedSystem),
      Lts.exec FeedSystem.openStep w (ts.map FeedSystem.stepOf) = Lts.exec Pool.step w ts :=
    fun ts w => Lts.exec_map (fun _ _ => rfl) ts w
  have hself : ∀ k, p = acquire k → x.owner ≠ some t := by
    rintro k rfl howner
    have hheld := (hsound.balanced t _ hp).1
    rw [howner, decide_eq_true rfl] at hheld
    cases hheld
  -- with the mutex free or its own, the thread runs to its end
  have hend : ∀ y : FeedSystem, y.Sound → y.running t = some p →
      y.owner = none ∨ y.owner = some t → ∃ z n,
        Lts.exec FeedSystem.openStep y (List.replicate n (FeedSystem.stepOf t)) = some z ∧
        z.running t = some (ret (p.run y.world.state).1) ∧
        ∀ u, u ≠ t → z.running u = y.running u := by
    intro y hy hpy hfree
    obtain ⟨n, z, hz, hret, _, _, hothers⟩ := hy.alone hpy hfree
    refine ⟨z, n, ?_, hret, hothers⟩
    rw [← List.map_replicate, hmap]
    exact hz
  refine ⟨hself, ?_⟩
  by_cases hfree : x.owner = none ∨ x.owner = some t
  · obtain ⟨z, n, hz, hret, hothers⟩ := hend x hsound hp hfree
    exact ⟨[], x, z, n, by simp, rfl, hz, hret, fun u hu _ => hothers u hu⟩
  · rw [not_or] at hfree
    obtain ⟨u, hu⟩ := Option.ne_none_iff_exists'.mp hfree.1
    have hut : u ≠ t := fun hut => hfree.2 (hut ▸ hu)
    obtain ⟨q, hq⟩ := Option.isSome_iff_exists.mp (hsound.owner u hu)
    obtain ⟨m, y, hy, _, _, howner, hothers⟩ := hsound.alone hq (.inr hu)
    have hsoundy : y.Sound :=
      Lts.exec_invariant (Q := fun _ => True) (fun _ _ _ _ h hstep => h.step hstep)
        (fun _ _ => trivial) hsound hy
    have hpy : y.running t = some p := (hothers t hut.symm).trans hp
    obtain ⟨z, n, hz, hret, hrest⟩ := hend y hsoundy hpy (.inl howner)
    refine ⟨List.replicate m u, y, z, n, ?_, ?_, hz, hret, ?_⟩
    · intro v hv
      rw [List.eq_of_mem_replicate hv]
      exact ⟨hu, hut⟩
    · rw [hmap]
      exact hy
    · intro v hvt hv
      by_cases hvu : v = u
      · -- then the owner took no step
        subst hvu
        obtain rfl : m = 0 := by
          by_contra hm
          exact hv (List.mem_replicate.mpr ⟨hm, rfl⟩)
        obtain rfl := Option.some.inj hy
        exact hrest v hvt
      · rw [hrest v hvt, hothers v hvu]

/-- A thread goes into the section of `flush`, and another up to that of `unload`. -/
def flushThenUnload : List ThreadAct :=
  [.api 0 .flush fun _ => 0, .api 1 .unload fun _ => 0, .feed (.step (.client 0)),
    .feed (.step (.client 0)), .feed (.step (.client 0)), .feed (.step (.client 1))]

/-- The thread that waits for the mutex comes to its end after the other. -/
theorem calls_end_unload :
    ∃ (x y z : FeedSystem) (p : Op Int) (owners : List Thread) (n : Nat),
      Lts.exec FeedSystem.openStep (Pool.init (feedingPlayer 1)) flushThenUnload = some x ∧
      x.owner = some (.client 0) ∧ x.running (.client 1) = some p ∧
      Lts.exec FeedSystem.openStep x (owners.map FeedSystem.stepOf) = some y ∧
      Lts.exec FeedSystem.openStep y (List.replicate n (FeedSystem.stepOf (.client 1))) = some z ∧
      z.running (.client 1) = some (ret (p.run y.world.state).1) := by
  have hrun : ((Lts.exec FeedSystem.openStep (Pool.init (feedingPlayer 1)) flushThenUnload).bind
      fun x => (x.running (.client 1)).map fun _ => x.owner) = some (some (.client 0)) := by
    rfl
  obtain ⟨x, hx, hrun⟩ := Option.bind_eq_some_iff.mp hrun
  obtain ⟨p, hp, howner⟩ := Option.map_eq_some_iff.mp hrun
  obtain ⟨_, owners, y, z, n, _, hy, hz, hret, _⟩ := calls_end hx hp
  exact ⟨x, y, z, p, owners, n, hx, howner, hp, hy, hz, hret⟩

end DirectMedia

import DirectMedia.Feed.Actions
import DirectMedia.Feed.System
import DirectMedia.Player.Api

set_option autoImplicit false

/-! # The threads of a loaded player

The system of `Feed.System`, whose client threads may make any call of the interface, except that
the player is not loaded again. One of these threads may be the one that the resource manager calls:
its policy action is an `unload`.

`OfThreads` lists what has to be shown of a property of actions for all the programs that run then.
-/

namespace DirectMedia

open Prog

/-- The labels: those of feeding, and the other calls of the interface. -/
inductive ThreadAct where
  | feed (a : FeedAct)
  | api (n : Nat) (a : ApiCall) (env : Env)

/-- One step. -/
def FeedSystem.threadStep (x : FeedSystem) : ThreadAct → Option FeedSystem
  | .feed a => FeedSystem.step x a
  | .api n a env => if a.isLoad then none else x.start (.client n) (a.prog env)

/-! ## The actions of the threads -/

/-- The action of `destroyComponent` on a component that is held. -/
def destroyAction (c : ComponentName) : Action := fun s =>
  (some (.use c (s.component c).isSome), { s with component := Function.update s.component c none })

/-- A property of all actions of client threads. -/
structure OfClients (Q : Action → Prop) : Prop extends OfOperations Q where
  transit : ∀ status, Q fun s => (some (.transit s.status status), { s with status := status })
  unloaded : Q fun s => (none, { s with loaded := false })
  callback : Q fun s => (none, { s with callback := false })
  destroy : ∀ c, Q (destroyAction c)
  push : ∀ b, Q (pushAction b)
  append : ∀ i, Q (appendAction i)

section OfClients

variable {Q : Action → Prop}

/-- What `unload` consists of. -/
theorem does_unload (h : OfFlush Q)
    (htransit : ∀ status, Q fun s =>
      (some (.transit s.status status), { s with status := status }))
    (hunloaded : Q fun s => (none, { s with loaded := false }))
    (hcallback : Q fun s => (none, { s with callback := false }))
    (hdestroy : ∀ c, Q (destroyAction c)) (env : Env) : (unload env).Does Q := by
  have hcomponent : ∀ c, (destroyComponent c).Does Q := fun c =>
    Does.bind (does_read _ h.read) fun _ => Does.onlyIf fun _ => does_emit _ _ (hdestroy c)
  refine Does.bind ⟨h.admitted _, fun _ => trivial⟩ fun _ =>
    Does.ite (fun _ => Does.withLock ?_) fun _ => does_pure _
  refine Does.bind (does_exchange _ _ hunloaded) fun _ =>
    Does.ite (fun _ => ?_) fun _ => does_pure _
  refine Does.bind h.clearFrameQueues fun _ => ?_
  refine Does.bind (does_exchange _ _ hcallback) fun _ => ?_
  refine Does.bind (h.logCalls env (by decide)) fun _ => ?_
  refine Does.bind (does_forM fun c _ => hcomponent c) fun _ => ?_
  refine Does.bind (does_emit _ _ (htransit _)) fun _ => ?_
  exact Does.bind (does_logIfNonzero (does_perform (h.call env _ rfl))) fun _ => does_pure _

theorem OfClients.unload (h : OfClients Q) (env : Env) : (unload env).Does Q :=
  does_unload h.toOfFlush h.transit h.unloaded h.callback h.destroy env

theorem OfClients.api (h : OfClients Q) (env : Env) {a : ApiCall} (ha : a.isLoad = false) :
    (a.prog env).Does Q := by
  cases a with
  | load metaData units => cases ha
  | unload => exact h.unload env
  | play => exact h.toOfPlayback.play h.transit env
  | pause => exact h.toOfTransport.pause h.transit env
  | flush => exact h.toOfFlush.flush h.transit env
  | stepFrame => exact h.toOfCalls.stepFrame h.transit env
  | setPlaybackRate rate => exact h.toOfTransport.setPlaybackRate env rate

theorem OfClients.clientCall (h : OfClients Q) (c : ClientCall) : c.prog.Does Q := by
  cases c with
  | feedData buff => exact does_feedData h.read h.loadedRead fun b _ => ⟨h.push b, h.append _⟩
  | flush env => exact h.toOfFlush.flush h.transit env

end OfClients

/-- A property of all actions of the thread, for each thread. -/
structure OfThreads (Q : Thread → Action → Prop) : Prop where
  clients : ∀ n, OfClients (Q (.client n))
  feed : ∀ i, OfFeed i (Q (.renderer i))
  use : ∀ i c, Q (.renderer i) (useAction c)
  sync : ∀ i f pts flags used, Q (.renderer i) (syncAction f pts flags used)
  notify : ∀ i high, Q (.renderer i) (notifyAction high)

theorem OfThreads.feedMessage {Q : Thread → Action → Prop} (h : OfThreads Q) (env : FeedEnv)
    (i : StreamType) : (feedMessage env i).Does (Q (.renderer i)) :=
  (h.feed i).feedMessage env fun f pts flags =>
    does_setOmxFlags (h.use i) (h.sync i f pts flags) (h.notify i)

/-! ## What a step can do -/

/-- A change of the player by no thread: a looper takes a step, or a codec returns a buffer. -/
def Besides (s t : Esplayer) : Prop :=
  t = s ∨ (∃ i l, t = s.onRenderer i fun _ => l) ∨ ∃ c index, t =
    s.onComponent c fun comp => { comp with input := comp.input.emptyBufferDone index }

namespace FeedSystem

/-- All that the threads run consists of such actions. -/
def Runs (Q : Thread → Action → Prop) (x : FeedSystem) : Prop :=
  ∀ t p, x.running t = some p → p.Does (Q t)

theorem runs_init (Q : Thread → Action → Prop) (s : Esplayer) : Runs Q (Pool.init s) :=
  fun _ _ h => by cases h

variable {Q : Thread → Action → Prop} {x y : FeedSystem}

theorem Runs.setRunning (h : x.Runs Q) {t : Thread} {p : Option (Op Int)}
    (hp : ∀ q, p = some q → q.Does (Q t)) : Runs Q (x.setRunning t p) := by
  intro u q hq
  rcases Pool.setRunning_cases hq with ⟨rfl, hpq⟩ | ⟨-, hold⟩
  · exact hp q hpq
  · exact h u q hold

/-- A thread takes an action of its program, or the world changes besides. `hcall`, `hapi` and
`hfeed` are about the programs that the step may start. -/
theorem Runs.step_of {a : ThreadAct}
    (hcall : ∀ n c, a = .feed (.call n c) → c.prog.Does (Q (.client n)))
    (hapi : ∀ n c env, a = .api n c env → c.isLoad = false → (c.prog env).Does (Q (.client n)))
    (hfeed : ∀ env i, (feedMessage env i).Does (Q (.renderer i))) (h : x.Runs Q)
    (hy : x.threadStep a = some y) :
    y.Runs Q ∧ ((∃ t f, Q t f ∧ a = .feed (.step t) ∧ y.world = x.world.after t f) ∨
      y.world.log = x.world.log ∧ Besides x.world.state y.world.state) := by
  cases a with
  | api n c env =>
      rw [threadStep, Option.ite_none_left_eq_some, Bool.not_eq_true] at hy
      obtain ⟨hload, hy⟩ := hy
      obtain ⟨-, rfl⟩ := Pool.start_cases hy
      refine ⟨h.setRunning fun q hq => ?_, .inr ⟨rfl, .inl rfl⟩⟩
      exact Option.some.inj hq ▸ hapi n c env rfl hload
  | feed a =>
      cases effect hy with
      | call n c label idle eq =>
          subst eq
          refine ⟨h.setRunning fun q hq => ?_, .inr ⟨rfl, .inl rfl⟩⟩
          exact Option.some.inj hq ▸ hcall n c (by rw [label])
      | returned n v label done eq =>
          subst eq
          exact ⟨h.setRunning (fun q hq => by cases hq), .inr ⟨rfl, .inl rfl⟩⟩
      | step t label taken =>
          subst label
          obtain ⟨⟨p, hp⟩, -⟩ := Pool.step_running taken
          obtain ⟨hdo, q, hq, hdoes⟩ := Pool.step_does taken hp (h t p hp)
          refine ⟨fun u r hr => ?_, ?_⟩
          · rcases Pool.step_running_cases taken hr with rfl | ⟨-, hold⟩
            · rw [hq, Option.some.injEq] at hr
              exact hr ▸ hdoes
            · exact h u r hold
          · rcases hdo with hsame | ⟨f, hf, hafter⟩
            · exact .inr ⟨by rw [hsame], .inl (by rw [hsame])⟩
            · exact .inl ⟨t, f, hf, rfl, hafter⟩
      | attempt i v env m label top front idle eq =>
          subst eq
          refine ⟨Runs.setRunning h fun q hq => ?_, .inr ⟨rfl, .inr (.inl ⟨i, _, rfl⟩)⟩⟩
          exact Option.some.inj hq ▸ hfeed env i
      | handled i v m label handling done eq =>
          subst eq
          refine ⟨fun u r hr => ?_, .inr ⟨rfl, .inr (.inl ⟨i, _, rfl⟩)⟩⟩
          exact Runs.setRunning h (fun q hq => by cases hq) u r hr
      | popFront i m label popping eq =>
          subst eq
          exact ⟨h, .inr ⟨rfl, .inr (.inl ⟨i, _, rfl⟩)⟩⟩
      | wait i l label queue calls pc eq =>
          subst eq
          exact ⟨h, .inr ⟨rfl, .inr (.inl ⟨i, _, rfl⟩)⟩⟩
      | emptyBufferDone i index label eq =>
          subst eq
          exact ⟨h, .inr ⟨rfl, .inr (.inr ⟨_, index, rfl⟩)⟩⟩

theorem Runs.step (hQ : OfThreads Q) (h : x.Runs Q) {a : ThreadAct}
    (hy : x.threadStep a = some y) :
    y.Runs Q ∧ ((∃ t f, Q t f ∧ a = .feed (.step t) ∧ y.world = x.world.after t f) ∨
      y.world.log = x.world.log ∧ Besides x.world.state y.world.state) :=
  h.step_of (fun n c _ => (hQ.clients n).clientCall c)
    (fun n _ env _ hload => (hQ.clients n).api env hload) hQ.feedMessage hy

/-- A looper that hands a message to its handler has been told to run. -/
theorem runs_of_attempt {i : StreamType} {v : Int} {env : FeedEnv}
    (hy : FeedSystem.step x (.look i v env) = some y)
    (hstarted : (y.running (.renderer i)).isSome = true) (hidle : x.running (.renderer i) = none) :
    (x.looper i).running = true := by
  simp only [FeedSystem.step, Looper.step, Option.bind_eq_some_iff, Option.ite_none_right_eq_some,
    Option.some.injEq] at hy
  obtain ⟨l, ⟨-, rfl⟩, hy⟩ := hy
  split at hy
  case isTrue hflight =>
      obtain ⟨m, hm⟩ := Option.isSome_iff_exists.mp hflight
      exact (Looper.look_inFlight hm).2.2.1
  case isFalse =>
      cases hy
      rw [show (x.setLooper i _).running (.renderer i) = none from hidle] at hstarted
      cases hstarted

/-- What a step is for the thread that feeds the stream `i`. -/
inductive RendererEffect (i : StreamType) (x : FeedSystem) (a : ThreadAct) (y : FeedSystem) : Prop
  | apart (events : y.world.events (.renderer i) = x.world.events (.renderer i))
      (running : y.running (.renderer i) = x.running (.renderer i))
  | attempt (env : FeedEnv) (runs : (x.looper i).running = true)
      (idle : x.running (.renderer i) = none)
      (running : y.running (.renderer i) = some (feedMessage env i))
      (log : y.world.log = x.world.log)
  | handled (v : Int) (done : x.running (.renderer i) = some (ret v))
      (running : y.running (.renderer i) = none) (log : y.world.log = x.world.log)
  | step (label : a = .feed (.step (.renderer i))) (taken : Pool.step x (.renderer i) = some y)

theorem rendererEffect (i : StreamType) {a : ThreadAct} (hy : x.threadStep a = some y) :
    RendererEffect i x a y := by
  cases a with
  | api n c env =>
      rw [threadStep, Option.ite_none_left_eq_some] at hy
      obtain ⟨-, rfl⟩ := Pool.start_cases hy.2
      exact .apart rfl (Pool.running_setRunning_ne x (by simp) _)
  | feed a =>
      cases effect hy with
      | call n c label idle eq =>
          subst eq
          exact .apart rfl (Pool.running_setRunning_ne x (by simp) _)
      | returned n v label done eq =>
          subst eq
          exact .apart rfl (Pool.running_setRunning_ne x (by simp) _)
      | step t label taken =>
          by_cases ht : t = .renderer i
          · subst ht
            exact .step (by rw [label]) taken
          · exact .apart (Pool.step_events_ne taken (Ne.symm ht))
              (Pool.step_running_ne taken (Ne.symm ht))
      | attempt j v env m label top front idle eq =>
          by_cases hj : j = i
          · subst hj label
            have hstarted : (y.running (.renderer j)).isSome = true := by
              rw [eq, Pool.running_setRunning_self]
              rfl
            have hruns := runs_of_attempt hy hstarted idle
            subst eq
            exact .attempt env hruns idle (Pool.running_setRunning_self _ _ _) rfl
          · subst eq
            exact .apart rfl (Pool.running_setRunning_ne _ (by simpa using Ne.symm hj) _)
      | handled j v m label handling done eq =>
          subst eq
          by_cases hj : j = i
          · subst hj
            exact .handled v done (Pool.running_setRunning_self x _ none) rfl
          · exact .apart rfl (Pool.running_setRunning_ne x (by simpa using Ne.symm hj) none)
      | popFront j m label popping eq =>
          subst eq
          exact .apart rfl rfl
      | wait j l label queue calls pc eq =>
          subst eq
          exact .apart rfl rfl
      | emptyBufferDone j index label eq =>
          subst eq
          exact .apart rfl rfl

/-- What a renderer thread runs after a step. -/
theorem renderer_cases {a : ThreadAct} {i : StreamType} {p : Op Int}
    (hy : x.threadStep a = some y) (hp : y.running (.renderer i) = some p) :
    x.running (.renderer i) = some p ∨ (∃ env, p = feedMessage env i) ∨
      a = .feed (.step (.renderer i)) ∧ Pool.step x (.renderer i) = some y := by
  cases rendererEffect i hy with
  | apart events running => exact .inl (running.symm.trans hp)
  | attempt env runs idle running log =>
      exact .inr (.inl ⟨env, Option.some.inj (hp.symm.trans running)⟩)
  | handled v done running log =>
      rw [running] at hp
      cases hp
  | step label taken => exact .inr (.inr ⟨label, taken⟩)

/-- An invariant of every action of the threads, and of what happens besides, holds after a run. -/
theorem runs_invariant {I : World Thread Esplayer Event → Prop} (hQ : OfThreads Q)
    (hact : ∀ t f w, Q t f → I w → I (w.after t f))
    (hbesides : ∀ (w v : World Thread Esplayer Event), v.log = w.log → Besides w.state v.state →
      I w → I v) {acts : List ThreadAct} (hx : x.Runs Q) (hI : I x.world)
    (h : Lts.exec threadStep x acts = some y) : y.Runs Q ∧ I y.world := by
  refine Lts.exec_invariant (P := fun x : FeedSystem => x.Runs Q ∧ I x.world) (Q := fun _ => True)
    (fun s a t _ hs hstep => ?_) (fun _ _ => trivial) ⟨hx, hI⟩ h
  obtain ⟨hruns, hworld⟩ := hs.1.step hQ hstep
  refine ⟨hruns, ?_⟩
  rcases hworld with ⟨u, f, hf, -, hafter⟩ | ⟨hlog, hstate⟩
  · rw [hafter]
    exact hact u f _ hf hs.2
  · exact hbesides _ _ hlog hstate hs.2

end FeedSystem

end DirectMedia

import DirectMedia.Player.Lifetime

set_option autoImplicit false

/-! # Several players in one process

All players of a process share the `OmxCore`, which initialises OMX when it is first needed.
`~Esplayer` destroys it, whoever else may need it: every other player goes on with handles that OMX
has given out before it was shut down (`handle_current_iff`).

The members of a player are destroyed after the body of its destructor. A clock that is still held
then frees its handle, and for that the core is created again; a component that is still held
frees nothing (`destroy_leaves`).
-/

namespace DirectMedia

open Prog

/-! ## The core -/

/-- `OmxCore`: whether there is an instance, and how often OMX has been initialised. -/
structure OmxCore where
  hasInstance : Bool := false
  inits : Nat := 0
  deriving DecidableEq, Repr

/-- `OmxCore::getInstance`. -/
def OmxCore.getInstance (core : OmxCore) : OmxCore :=
  if core.hasInstance then core else { hasInstance := true, inits := core.inits + 1 }

/-- `OmxCore::destroyInstance`. -/
def OmxCore.destroyInstance (core : OmxCore) : OmxCore := { core with hasInstance := false }

/-- A player of the process. A handle is known by the initialisation of OMX that it was opened
after. -/
structure ProcessPlayer where
  session : Session := {}
  handle : ComponentName → Option Nat := fun _ => none

/-- The process. `leaked` are the handles that nobody can free any more. -/
structure Process where
  core : OmxCore := {}
  players : Nat → Option ProcessPlayer := fun _ => none
  leaked : List (Nat × ComponentName) := []

/-! ## What an operation of a player does to the core -/

/-- The component has been created. -/
def IsCreated (s t : Esplayer) (c : ComponentName) : Bool :=
  !(s.component c).isSome && (t.component c).isSome

/-- The component has been destroyed. -/
def IsDestroyed (s t : Esplayer) (c : ComponentName) : Bool :=
  (s.component c).isSome && !(t.component c).isSome

/-- The core after an operation that leads from `s` to `t`. `OmxClient::createByName` needs it, and
so does `OmxClient::destroy` if there is a handle; after the first of them it stays. -/
def OmxCore.after (core : OmxCore) (handle : ComponentName → Option Nat) (s t : Esplayer) :
    OmxCore :=
  if destroyOrder.any fun c => IsCreated s t c || (IsDestroyed s t c && (handle c).isSome) then
    core.getInstance
  else core

/-- The player after a call. `opens` are the components for which OMX gives out a handle. -/
def ProcessPlayer.after (p : ProcessPlayer) (core : OmxCore) (session : Session)
    (opens : ComponentName → Bool) : ProcessPlayer where
  session := session
  handle c :=
    if IsCreated p.session.player session.player c then if opens c then some core.inits else none
    else if IsDestroyed p.session.player session.player c then none
    else p.handle c

/-- The player after the body of its destructor. -/
def ProcessPlayer.destroyed (p : ProcessPlayer) (env env' : Env) : Esplayer :=
  ((destroyPlayer env env').run p.session.player).2

/-- The handles that its members have then. -/
def ProcessPlayer.left (p : ProcessPlayer) (env env' : Env) : ComponentName → Option Nat := fun c =>
  if IsDestroyed p.session.player (p.destroyed env env') c then none else p.handle c

/-! ## The process -/

/-- The steps of a process. -/
inductive ProcessAct where
  /-- `NDL_EsplayerCreate` -/
  | create (n : Nat)
  | call (n : Nat) (a : ApiCall) (env : Env) (opens : ComponentName → Bool)
  /-- the port settings have changed: `setupTunnel` on the video codec -/
  | retunnel (n : Nat)
  /-- `NDL_EsplayerDestroy` -/
  | destroy (n : Nat) (env env' : Env)

/-- A call of the interface on the player. -/
def Process.call (x : Process) (n : Nat) (p : ProcessPlayer) (a : ApiCall) (env : Env)
    (opens : ComponentName → Bool) : Option Process :=
  (p.session.step (a, env)).map fun session =>
    { x with
      core := x.core.after p.handle p.session.player session.player
      players := Function.update x.players n <| some <|
        p.after (x.core.after p.handle p.session.player session.player) session opens }

/-- The core once a player is destroyed: its destructor shuts it down, and a clock that is still
there needs it once more. -/
def OmxCore.afterDestroy (core : OmxCore) (p : ProcessPlayer) (env env' : Env) : OmxCore :=
  if (p.left env env' .clock).isSome then
    (core.after p.handle p.session.player (p.destroyed env env')).destroyInstance.getInstance
  else (core.after p.handle p.session.player (p.destroyed env env')).destroyInstance

/-- `~Esplayer`, and its members after it: of these only the clock frees its handle. -/
def Process.destroy (x : Process) (n : Nat) (p : ProcessPlayer) (env env' : Env) : Process where
  core := x.core.afterDestroy p env env'
  players := Function.update x.players n none
  leaked := x.leaked ++
    (destroyOrder.filter fun c => c ≠ .clock && (p.left env env' c).isSome).map fun c => (n, c)

/-- One step. -/
def Process.step (x : Process) : ProcessAct → Option Process
  | .create n =>
      if (x.players n).isNone then
        some { x with players := Function.update x.players n (some {}) }
      else none
  | .call n a env opens => (x.players n).bind fun p => x.call n p a env opens
  | .retunnel n =>
      (x.players n).map fun p =>
        if (p.session.player.component .videoCodec).isSome then
          { x with core := x.core.getInstance }
        else x
  | .destroy n env env' => (x.players n).map fun p => x.destroy n p env env'

/-! ## Handles of a core that is no more -/

/-- The handle of the player for the component. -/
def Process.handle (x : Process) (n : Nat) (c : ComponentName) : Option Nat :=
  (x.players n).bind fun p => p.handle c

/-- The core has not been destroyed since its `k`-th initialisation. -/
def OmxCore.Current (core : OmxCore) (k : Nat) : Prop := core.hasInstance = true ∧ core.inits = k

/-- It has been destroyed since. -/
def OmxCore.Gone (core : OmxCore) (k : Nat) : Prop :=
  k ≤ core.inits ∧ (core.hasInstance = true → k < core.inits)

section Core

variable {core : OmxCore} {k : Nat}

theorem OmxCore.Gone.not_current (h : core.Gone k) : ¬ core.Current k := by
  rintro ⟨hinstance, hinits⟩
  have := h.2 hinstance
  omega

theorem OmxCore.Current.getInstance (h : core.Current k) : core.getInstance.Current k := by
  rw [OmxCore.getInstance, if_pos h.1]
  exact h

theorem OmxCore.Gone.getInstance (h : core.Gone k) : core.getInstance.Gone k := by
  unfold OmxCore.getInstance
  split
  · exact h
  · exact ⟨Nat.le_succ_of_le h.1, fun _ => Nat.lt_succ_of_le h.1⟩

theorem OmxCore.gone_destroyInstance (h : k ≤ core.inits) : core.destroyInstance.Gone k :=
  ⟨h, fun hno => by cases hno⟩

theorem OmxCore.le_inits_getInstance (core : OmxCore) : core.inits ≤ core.getInstance.inits := by
  unfold OmxCore.getInstance
  split
  · exact Nat.le_refl _
  · exact Nat.le_succ _

theorem OmxCore.hasInstance_getInstance (core : OmxCore) :
    core.getInstance.hasInstance = true := by
  unfold OmxCore.getInstance
  split
  · assumption
  · rfl

theorem OmxCore.after_cases (core : OmxCore) (handle : ComponentName → Option Nat)
    (s t : Esplayer) : core.after handle s t = core ∨ core.after handle s t = core.getInstance := by
  unfold OmxCore.after
  split
  · exact .inr rfl
  · exact .inl rfl

end Core

def ProcessAct.isDestroy : ProcessAct → Bool
  | .destroy _ _ _ => true
  | _ => false

/-- Only the destruction of a player destroys the core. -/
theorem core_step {x y : Process} {a : ProcessAct} (h : x.step a = some y)
    (ha : a.isDestroy = false) : y.core = x.core ∨ y.core = x.core.getInstance := by
  cases a with
  | create n =>
      rw [Process.step, Option.ite_none_right_eq_some] at h
      obtain ⟨-, h⟩ := h
      cases h
      exact .inl rfl
  | call n a env opens =>
      obtain ⟨p, -, h⟩ := Option.bind_eq_some_iff.mp h
      obtain ⟨session, -, rfl⟩ := Option.map_eq_some_iff.mp h
      exact x.core.after_cases _ _ _
  | retunnel n =>
      obtain ⟨p, -, rfl⟩ := Option.map_eq_some_iff.mp h
      split
      · exact .inr rfl
      · exact .inl rfl
  | destroy n env env' => cases ha

theorem inits_after (core : OmxCore) (handle : ComponentName → Option Nat) (s t : Esplayer) :
    core.inits ≤ (core.after handle s t).inits := by
  rcases core.after_cases handle s t with heq | heq <;> rw [heq]
  exact core.le_inits_getInstance

theorem gone_destroy {x y : Process} {n k : Nat} {env env' : Env}
    (h : x.step (.destroy n env env') = some y) (hk : k ≤ x.core.inits) : y.core.Gone k := by
  obtain ⟨p, -, rfl⟩ := Option.map_eq_some_iff.mp h
  have hafter := fun handle s t => OmxCore.gone_destroyInstance
    (Nat.le_trans hk (inits_after x.core handle s t))
  simp only [Process.destroy, OmxCore.afterDestroy]
  split
  · exact (hafter _ _ _).getInstance
  · exact hafter _ _ _

theorem inits_step {x y : Process} {a : ProcessAct} (h : x.step a = some y) :
    x.core.inits ≤ y.core.inits := by
  cases ha : a.isDestroy with
  | false =>
      rcases core_step h ha with heq | heq <;> rw [heq]
      exact x.core.le_inits_getInstance
  | true =>
      cases a with
      | destroy n env env' => exact (gone_destroy h (Nat.le_refl _)).1
      | _ => cases ha

theorem gone_step {x y : Process} {a : ProcessAct} {k : Nat} (h : x.step a = some y)
    (hgone : x.core.Gone k) : y.core.Gone k := by
  cases ha : a.isDestroy with
  | false =>
      rcases core_step h ha with heq | heq <;> rw [heq]
      · exact hgone
      · exact hgone.getInstance
  | true =>
      cases a with
      | destroy n env env' => exact gone_destroy h hgone.1
      | _ => cases ha

theorem current_step {x y : Process} {a : ProcessAct} {k : Nat} (h : x.step a = some y)
    (ha : a.isDestroy = false) (hcurrent : x.core.Current k) : y.core.Current k := by
  rcases core_step h ha with heq | heq <;> rw [heq]
  · exact hcurrent
  · exact hcurrent.getInstance

/-- A handle that a call has opened is one of the core there is. -/
theorem opened_current {x y : Process} {n k : Nat} {c : ComponentName} {a : ApiCall} {env : Env}
    {opens : ComponentName → Bool} (hopen : x.handle n c = none)
    (hy : x.step (.call n a env opens) = some y) (hk : y.handle n c = some k) :
    y.core.Current k := by
  obtain ⟨p, hp, h⟩ := Option.bind_eq_some_iff.mp hy
  obtain ⟨session, -, rfl⟩ := Option.map_eq_some_iff.mp h
  simp only [Process.handle, hp, Option.bind_some, Function.update_self] at hopen hk
  simp only [ProcessPlayer.after, hopen] at hk
  split at hk
  case isTrue hcreated =>
      have hcore : x.core.after p.handle p.session.player session.player =
          x.core.getInstance := by
        refine if_pos (List.any_eq_true.mpr ⟨c, mem_destroyOrder c, ?_⟩)
        simp [hcreated]
      split at hk
      · cases hk
        exact ⟨by rw [hcore]; exact x.core.hasInstance_getInstance, rfl⟩
      · cases hk
  case isFalse =>
      split at hk <;> cases hk

/-- **Handles of a core that is no more.** Where a call opens a handle, and whatever the players of
the process do after it: OMX has not been shut down under this handle exactly if no player, be it
the one that holds the handle or another, has been destroyed. -/
theorem handle_current_iff {x y z : Process} {n k : Nat} {c : ComponentName} {a : ApiCall}
    {env : Env} {opens : ComponentName → Bool} {acts : List ProcessAct}
    (hopen : x.handle n c = none) (hy : x.step (.call n a env opens) = some y)
    (hk : y.handle n c = some k) (hz : Lts.exec Process.step y acts = some z) :
    z.core.Current k ↔ ∀ b ∈ acts, b.isDestroy = false := by
  have hcurrent := opened_current hopen hy hk
  constructor
  · intro hz' b hb
    by_contra hdestroy
    obtain ⟨before, after, rfl⟩ := List.append_of_mem hb
    obtain ⟨u, hu, hz⟩ := Lts.exec_append_iff.mp hz
    obtain ⟨v, hv, hz⟩ := Lts.exec_cons_iff.mp hz
    have hbefore : k ≤ u.core.inits :=
      Lts.exec_invariant (P := fun x : Process => k ≤ x.core.inits) (Q := fun _ => True)
        (fun _ _ _ _ hs hstep => Nat.le_trans hs (inits_step hstep)) (fun _ _ => trivial)
        (Nat.le_of_eq hcurrent.2.symm) hu
    have hgone : v.core.Gone k := by
      cases b with
      | destroy m env env' => exact gone_destroy hv hbefore
      | _ => exact absurd rfl hdestroy
    have hend := Lts.exec_invariant (P := fun x : Process => x.core.Gone k) (Q := fun _ => True)
      (fun _ _ _ _ hs hstep => gone_step hstep hs) (fun _ _ => trivial) hgone hz
    exact hend.not_current hz'
  · intro hacts
    exact Lts.exec_invariant (P := fun x : Process => x.core.Current k)
      (Q := fun b : ProcessAct => b.isDestroy = false)
      (fun _ _ _ hb hs hstep => current_step hstep hb hs) hacts hcurrent hz

/-- Another player is destroyed while the first one is loaded. -/
theorem handle_current_iff_destroyed :
    ∃ x y z : Process, Lts.exec Process.step {} [.create 0, .create 1] = some x ∧
      x.step (.call 0 (.load { videoCodec := .h264 } none) (fun _ => 0) fun _ => true) = some y ∧
      Lts.exec Process.step y [.destroy 1 (fun _ => 0) fun _ => 0] = some z ∧
      z.handle 0 .videoCodec = some 1 ∧ ¬ z.core.Current 1 := by
  have hrun : ((Lts.exec Process.step {} [.create 0, .create 1]).bind fun x =>
      (x.step (.call 0 (.load { videoCodec := .h264 } none) (fun _ => 0) fun _ => true)).bind
        fun y => (Lts.exec Process.step y [.destroy 1 (fun _ => 0) fun _ => 0]).map fun z =>
          (x.handle 0 .videoCodec, y.handle 0 .videoCodec, z.handle 0 .videoCodec)) =
      some (none, some 1, some 1) := by
    rfl
  obtain ⟨x, hx, hrun⟩ := Option.bind_eq_some_iff.mp hrun
  obtain ⟨y, hy, hrun⟩ := Option.bind_eq_some_iff.mp hrun
  obtain ⟨z, hz, hrun⟩ := Option.map_eq_some_iff.mp hrun
  simp only [Prod.mk.injEq] at hrun
  obtain ⟨hopen, hk, hheld⟩ := hrun
  refine ⟨x, y, z, hx, hy, hz, hheld, fun hcurrent => ?_⟩
  have hno := (handle_current_iff hopen hy hk hz).mp hcurrent
  cases hno _ List.mem_cons_self

/-! ## What a destroyed player leaves -/

/-- The destructor gets to unload the player, or it has no components. -/
def Esplayer.DestroysAll (env : Env) (s : Esplayer) : Prop :=
  s.loaded = false ∨ s.HasRenderer ∧ (s.status = .idle → ¬ FlushBreaks env s .idle)

theorem destroyPlayer_component (env env' : Env) (s : Esplayer) :
    ((destroyPlayer env env').run s).2.component = (s.unloadedBy env env').component := by
  simp only [destroyPlayer, run_bind, run_read, run_onlyIf, clearBufQueue, run_emit, run_pure,
    Esplayer.unloadedBy]
  split <;> rfl

/-- Otherwise the components stay. -/
theorem destroyPlayer_held (env env' : Env) {s : Esplayer} (hs : ¬ s.DestroysAll env)
    (c : ComponentName) :
    (((destroyPlayer env env').run s).2.component c).isSome = (s.component c).isSome := by
  rw [Esplayer.DestroysAll, not_or, Bool.not_eq_false, not_and] at hs
  obtain ⟨hloaded, hs⟩ := hs
  rw [destroyPlayer_component, Esplayer.unloadedBy]
  by_cases hrenderer : s.HasRenderer
  · obtain ⟨hidle, hbreaks⟩ := Classical.not_imp.mp (hs hrenderer)
    have hiff := flush_status_iff env s (by rw [hidle]; rfl) hloaded
    simp only [hidle, reduceCtorEq, false_or] at hiff
    -- the flush breaks off, and the player is refused to be unloaded
    rw [if_pos hrenderer, run_unload, if_neg]
    · exact held_eq_of_built (api_built env (a := .flush) rfl (by simp) s) c
    · rw [canTransit_unloaded_iff, not_not]
      exact hiff.mpr (not_not.mp hbreaks)
  · rw [if_neg hrenderer]

/-- What holds of a player between two calls. -/
structure ProcessPlayer.Sound (p : ProcessPlayer) : Prop where
  reached : ∃ calls, Lts.exec Session.step {} calls = some p.session
  held : ∀ c, (p.handle c).isSome → (p.session.player.component c).isSome

theorem ProcessPlayer.Sound.after {p : ProcessPlayer} (h : p.Sound) {a : ApiCall} {env : Env}
    {session : Session} (hstep : p.session.step (a, env) = some session) (core : OmxCore)
    (opens : ComponentName → Bool) : (p.after core session opens).Sound := by
  obtain ⟨calls, hcalls⟩ := h.reached
  refine ⟨⟨calls ++ [(a, env)], Lts.exec_append_iff.mpr ⟨_, hcalls, ?_⟩⟩, fun c hc => ?_⟩
  · exact Lts.exec_cons_iff.mpr ⟨_, hstep, rfl⟩
  · simp only [ProcessPlayer.after] at hc ⊢
    split at hc
    case isTrue hcreated => exact (Bool.and_eq_true_iff.mp hcreated).2
    case isFalse =>
        split at hc
        case isTrue => cases hc
        case isFalse hdestroyed =>
            rw [IsDestroyed, h.held c hc, Bool.true_and, Bool.not_eq_true, Bool.not_eq_false']
              at hdestroyed
            exact hdestroyed

/-- Where the players after a step come from. -/
theorem players_step {x y : Process} {a : ProcessAct} (h : x.step a = some y) {m : Nat}
    {q : ProcessPlayer} (hq : y.players m = some q) :
    x.players m = some q ∨ q = {} ∨ ∃ p call env session core opens, x.players m = some p ∧
      p.session.step (call, env) = some session ∧ q = p.after core session opens := by
  have hupdate : ∀ {n : Nat} {o : Option ProcessPlayer},
      Function.update x.players n o m = some q → (m = n ∧ o = some q) ∨ x.players m = some q := by
    intro n o hq
    by_cases hm : m = n
    · subst hm
      exact .inl ⟨rfl, by rwa [Function.update_self] at hq⟩
    · exact .inr (by rwa [Function.update_of_ne hm] at hq)
  cases a with
  | create n =>
      rw [Process.step, Option.ite_none_right_eq_some] at h
      obtain ⟨-, h⟩ := h
      cases h
      rcases hupdate hq with ⟨-, hnew⟩ | hold
      · cases hnew
        exact .inr (.inl rfl)
      · exact .inl hold
  | call n call env opens =>
      obtain ⟨p, hp, h⟩ := Option.bind_eq_some_iff.mp h
      obtain ⟨session, hsession, rfl⟩ := Option.map_eq_some_iff.mp h
      rcases hupdate hq with ⟨rfl, hnew⟩ | hold
      · cases hnew
        exact .inr (.inr ⟨p, call, env, session, _, opens, hp, hsession, rfl⟩)
      · exact .inl hold
  | retunnel n =>
      obtain ⟨p, hp, rfl⟩ := Option.map_eq_some_iff.mp h
      split at hq <;> exact .inl hq
  | destroy n env env' =>
      obtain ⟨p, hp, rfl⟩ := Option.map_eq_some_iff.mp h
      rcases hupdate hq with ⟨-, hnone⟩ | hold
      · cases hnone
      · exact .inl hold

theorem sound_step {x y : Process} {a : ProcessAct} (h : x.step a = some y)
    (hx : ∀ n p, x.players n = some p → p.Sound) : ∀ n p, y.players n = some p → p.Sound := by
  intro m q hq
  rcases players_step h hq with hold | rfl | ⟨p, call, env, session, core, opens, hp, hstep, rfl⟩
  · exact hx m q hold
  · exact ⟨⟨[], rfl⟩, fun c hc => by cases hc⟩
  · exact (hx m p hp).after hstep core opens

/-- Where the destructor releases the player, all handles have been freed. -/
theorem ProcessPlayer.Sound.left_eq_none {p : ProcessPlayer} (h : p.Sound) {env : Env} (env' : Env)
    (hall : p.session.player.DestroysAll env) (c : ComponentName) : p.left env env' c = none := by
  obtain ⟨calls, hcalls⟩ := h.reached
  have hreleased : Released (p.destroyed env env') := by
    cases hloaded : p.session.player.loaded with
    | true =>
        refine (destroyPlayer_loaded_iff env env' hloaded).mpr ?_
        rcases hall with hno | hall
        · rw [hloaded] at hno
          cases hno
        · exact hall
    | false => exact destroyPlayer_notLoaded env env' hloaded (empty_of_notLoaded hcalls hloaded)
  rw [ProcessPlayer.left]
  cases hhandle : p.handle c with
  | none => simp
  | some k =>
      have hheld := h.held c (by rw [hhandle]; rfl)
      rw [if_pos]
      rw [IsDestroyed, hheld, hreleased.2 c]
      rfl

/-- Where it does not, they are all still there. -/
theorem ProcessPlayer.left_eq {p : ProcessPlayer} {env : Env} (env' : Env)
    (hall : ¬ p.session.player.DestroysAll env) : p.left env env' = p.handle := by
  funext c
  rw [ProcessPlayer.left, if_neg]
  rw [IsDestroyed, ProcessPlayer.destroyed, destroyPlayer_held env env' hall, Bool.and_not_self]
  exact Bool.false_ne_true

/-- **What a destroyed player leaves.** In every run of a process with any number of players: where
the destructor gets to unload the player it leaves OMX shut down and every handle freed. Where it
does not, the other components keep their handles for ever, and if there was a clock, OMX has been
initialised once more to free that of the clock, and stays so. -/
theorem destroy_leaves {x y : Process} {acts : List ProcessAct} {n : Nat} {p : ProcessPlayer}
    {env env' : Env} (hx : Lts.exec Process.step {} acts = some x) (hp : x.players n = some p)
    (hy : x.step (.destroy n env env') = some y) :
    (p.session.player.DestroysAll env → y.core.hasInstance = false ∧ y.leaked = x.leaked) ∧
    (¬ p.session.player.DestroysAll env → y.core.hasInstance = (p.handle .clock).isSome ∧
      y.leaked = x.leaked ++ (destroyOrder.filter fun c =>
        c ≠ .clock && (p.handle c).isSome).map fun c => (n, c)) := by
  have hsound : p.Sound := by
    refine Lts.exec_invariant (Q := fun _ => True)
      (P := fun x : Process => ∀ n p, x.players n = some p → p.Sound)
      (fun _ _ _ _ hs hstep => sound_step hstep hs) (fun _ _ => trivial) ?_ hx n p hp
    intro m q hq
    cases hq
  have hstep : x.step (.destroy n env env') = some (x.destroy n p env env') := by
    rw [Process.step, hp]
    rfl
  obtain rfl := Option.some.inj (hstep.symm.trans hy)
  constructor
  · intro hall
    have hleft := hsound.left_eq_none env' hall
    simp [Process.destroy, OmxCore.afterDestroy, hleft, OmxCore.destroyInstance]
  · intro hall
    have hleft := p.left_eq env' hall
    refine ⟨?_, by simp only [Process.destroy, hleft]⟩
    simp only [Process.destroy, OmxCore.afterDestroy, hleft]
    split
    case isTrue hclock => rw [hclock, OmxCore.hasInstance_getInstance]
    case isFalse hclock =>
        rw [(Bool.not_eq_true _).mp hclock]
        rfl

/-- The scheduler is not created: the decoder and the renderer keep their handles, and OMX is up
without a player. -/
theorem destroy_leaves_unreleased :
    ∃ x y : Process,
      Lts.exec Process.step {} [.create 0, .call 0 (.load { videoCodec := .h264 } none)
        (fun call => if call = .create .videoScheduler then 1 else 0) fun _ => true] = some x ∧
      x.step (.destroy 0 (fun _ => 0) fun _ => 0) = some y ∧
      y.core.hasInstance = true ∧ y.leaked = [(0, .videoCodec), (0, .videoRenderer)] := by
  have hrun : ((Lts.exec Process.step {} [.create 0, .call 0 (.load { videoCodec := .h264 } none)
      (fun call => if call = .create .videoScheduler then 1 else 0) fun _ => true]).bind fun x =>
        (x.players 0).bind fun p => (x.step (.destroy 0 (fun _ => 0) fun _ => 0)).map fun _ =>
          (p.session.player.loaded, decide (p.session.player.status = .idle), x.leaked,
            destroyOrder.map p.handle)) =
      some (true, true, [], [some 1, some 1, none, none, none, some 1]) := by
    rfl
  obtain ⟨x, hx, hrun⟩ := Option.bind_eq_some_iff.mp hrun
  obtain ⟨p, hp, hrun⟩ := Option.bind_eq_some_iff.mp hrun
  obtain ⟨y, hy, hrun⟩ := Option.map_eq_some_iff.mp hrun
  simp only [Prod.mk.injEq, destroyOrder, List.map_cons, List.map_nil, List.cons.injEq] at hrun
  obtain ⟨hloaded, hidle, hleaked, hcodec, hrenderer, hscheduler, haudio, hrender, hclock, -⟩ :=
    hrun
  have hstays : ¬ p.session.player.DestroysAll fun _ => 0 := by
    rintro (hno | ⟨-, hflush⟩)
    · rw [hloaded] at hno
      cases hno
    · exact hflush (of_decide_eq_true hidle) (.inr (.inr fun _ _ _ => rfl))
  obtain ⟨hcore, hleft⟩ := (destroy_leaves hx hp hy).2 hstays
  refine ⟨x, y, hx, hy, by rw [hcore, hclock]; rfl, ?_⟩
  rw [hleft, hleaked]
  simp [destroyOrder, hcodec, hrenderer, hscheduler, haudio, hrender]

end DirectMedia

import DirectMedia.Omx.PortMap

set_option autoImplicit false

/-! # The port map and the ports

Each port of a client is a register with a copy (`Lib.Mirror`): the commands are the writes, the
events the reports, and the entry of the port map is the copy (`PortSystem.runs_mirror`). So the map
agrees with a port from the first command on that is carried out after the port was put into the
map (`portMap_follows_iff`), and a caller that waits for a port and is told that it is enabled, or
disabled, may rely on it if nobody else asks for the contrary (`portWait_truthful`).
-/

namespace DirectMedia

open Prog

namespace OmxPorts

/-- The port as a register with a copy, if it is in the map. -/
def mirror (w : OmxPorts) (n : Nat) (port : Int) : Option (Mirror.State Bool) :=
  (w.portMap n port).map fun copy => ⟨w.link n port, copy⟩

theorem mirror_congr {w v : OmxPorts} {n : Nat} {port : Int} (hlink : v.link n port = w.link n port)
    (hmap : v.portMap n port = w.portMap n port) : v.mirror n port = w.mirror n port := by
  rw [mirror, mirror, hlink, hmap]

theorem mirror_eq_some {w : OmxPorts} {n : Nat} {port : Int} {m : Mirror.State Bool} :
    w.mirror n port = some m ↔ w.portMap n port = some m.copy ∧ w.link n port = m.link := by
  unfold mirror
  cases h : w.portMap n port with
  | none => simp
  | some c =>
      simp only [Option.map_some, Option.some.injEq]
      constructor
      · rintro rfl
        exact ⟨rfl, rfl⟩
      · rintro ⟨rfl, hlink⟩
        rw [hlink]

@[simp] theorem portMap_setLink (w : OmxPorts) (n m : Nat) (port q : Int) (l : Mirror.Link Bool) :
    (w.setLink n port l).portMap m q = w.portMap m q := rfl

theorem link_setLink (w : OmxPorts) (n m : Nat) (port q : Int) (l : Mirror.Link Bool) :
    (w.setLink n port l).link m q = if m = n ∧ q = port then l else w.link m q := by
  by_cases hm : m = n
  · subst hm
    by_cases hq : q = port
    · subst hq
      simp [setLink]
    · simp [setLink, hq]
  · simp [setLink, hm]

@[simp] theorem link_onClient (w : OmxPorts) (n : Nat) (f : OmxClient → OmxClient) :
    (w.onClient n f).link = w.link := rfl

theorem portMap_onClient (w : OmxPorts) (n m : Nat) (f : OmxClient → OmxClient) (q : Int) :
    (w.onClient n f).portMap m q =
      if m = n then (f (w.client n)).enabledPorts q else w.portMap m q := by
  by_cases hm : m = n
  · subst hm
    simp [portMap, onClient]
  · simp [portMap, onClient, hm]

end OmxPorts

/-! ## What the calls do -/

/-- An action sends a command, or leaves the ports and the entries of the map alone; it may add
entries. -/
def PortAction (f : OmxPorts → Option PortEvent × OmxPorts) : Prop :=
  ∀ w, ((f w).1 = none ∧ (f w).2.link = w.link ∧
      ∀ n port, (w.portMap n port).isSome → (f w).2.portMap n port = w.portMap n port) ∨
    ∃ n port b,
      f w = (some (.accepted n port b), w.setLink n port ((w.link n port).send b))

theorem portAction_quiet {f : OmxPorts → OmxPorts} (hlink : ∀ w, (f w).link = w.link)
    (hmap : ∀ w n port, (w.portMap n port).isSome → (f w).portMap n port = w.portMap n port) :
    PortAction fun w => (none, f w) :=
  fun w => .inl ⟨rfl, hlink w, hmap w⟩

theorem does_readPorts {β : Type} (g : OmxPorts → β) : (read g : PortProg β).Does PortAction :=
  does_read g (portAction_quiet (fun _ => rfl) fun _ _ _ _ => rfl)

theorem does_onIndices (n : Nat) (f : PortIndices → PortIndices) :
    (write (·.onIndices n f) : PortProg Unit).Does PortAction :=
  does_exchange _ _ (portAction_quiet (fun _ => rfl) fun _ _ _ _ => rfl)

theorem does_sendCommand (n : Nat) (enable : Bool) (port answer : Int) :
    (sendCommand n enable port answer).Does PortAction := by
  refine ⟨fun w => ?_, fun _ => trivial⟩
  by_cases h : answer = 0
  · exact .inr ⟨n, port, enable, by simp [h]⟩
  · exact .inl (by simp [h])

theorem insertPortMap_isSome {c : OmxClient} {port q : Int} (h : (c.enabledPorts q).isSome) :
    (c.insertPortMap port).enabledPorts q = c.enabledPorts q := by
  unfold OmxClient.insertPortMap
  split
  case h_1 => rfl
  case h_2 hnone =>
    have hne : q ≠ port := by
      rintro rfl
      simp [hnone] at h
    simp [hne]

theorem does_insertPortMap (n : Nat) (port : Int) :
    (write (·.onClient n (·.insertPortMap port)) : PortProg Unit).Does PortAction := by
  refine does_exchange _ _ (portAction_quiet (fun _ => rfl) fun w m q hq => ?_)
  rw [OmxPorts.portMap_onClient]
  split
  case isTrue hm =>
    subst hm
    exact insertPortMap_isSome hq
  case isFalse => rfl

theorem does_waitLoop (n : Nat) (port : Int) (enable : Bool) (wakes : Nat) :
    (waitLoop n port enable wakes).Does PortAction := by
  induction wakes with
  | zero => exact does_pure _
  | succ wakes ih =>
      refine Does.bind (does_readPorts _) fun state => ?_
      cases state with
      | none => exact does_pure _
      | some on => exact Does.ite (fun _ => does_pure _) fun _ => ih

theorem does_waitForPortEnable (n : Nat) (port : Int) (enable : Bool) (wakes : Nat) :
    (waitForPortEnable n port enable wakes).Does PortAction := by
  refine Does.bind (does_readPorts _) fun state => ?_
  cases state with
  | none => exact does_pure _
  | some on => exact Does.ite (fun _ => does_pure _) fun _ => does_waitLoop n port enable wakes

theorem does_disablePorts (n : Nat) (a : CreateAnswers) (is : List Nat) :
    (disablePorts n a is).Does PortAction := by
  induction is with
  | nil => exact does_pure _
  | cons i is ih =>
      refine Does.bind (Does.onlyIf fun _ => ?_) fun _ => ih
      refine Does.bind (does_insertPortMap n _) fun _ => ?_
      exact Does.bind (does_sendCommand n _ _ _) fun _ => does_pure _

theorem does_createPorts (n : Nat) (a : CreateAnswers) (nPorts : Nat) :
    (createPorts n a nPorts).Does PortAction :=
  Does.bind (does_disablePorts n a _) fun _ => does_onIndices n _

theorem does_portCall (c : PortCall) : c.prog.Does PortAction := by
  cases c with
  | createComponent n component a =>
      refine Does.bind ?_ fun _ => does_pure _
      cases component with
      | clock => exact Does.bind (does_createPorts n a _) fun _ => does_pure _
      | videoRenderer => exact Does.bind (does_createPorts n a _) fun _ => does_pure _
      | audioRenderer =>
          refine Does.bind (Does.onlyIf fun _ => does_onIndices n _) fun _ => ?_
          refine Does.bind (does_disablePorts n a _) fun _ => ?_
          exact Does.bind (does_onIndices n _) fun _ => does_pure _
      | videoScheduler =>
          refine Does.bind (does_onIndices n _) fun _ => ?_
          exact Does.bind (does_createPorts n a _) fun _ => does_pure _
      | audioMixer =>
          refine Does.bind (does_createPorts n a _) fun _ => ?_
          exact Does.bind (does_onIndices n _) fun _ => does_pure _
  | createVideoCodec n codec a =>
      refine Does.bind ?_ fun _ => does_pure _
      cases codec <;>
        first
          | exact does_pure _
          | exact Does.bind (does_createPorts n _ _) fun _ => does_pure _
  | createAudioCodec n codec a =>
      refine Does.bind ?_ fun _ => does_pure _
      cases codec <;>
        first
          | exact does_pure _
          | exact Does.bind (does_createPorts n a _) fun _ => does_pure _
  | enablePort n port enable timeout answer wakes =>
      refine Does.bind (does_sendCommand n _ _ _) fun _ => ?_
      exact Does.ite (fun _ => does_waitForPortEnable n _ _ _) fun _ => does_pure _
  | waitForPortEnable n port enable wakes => exact does_waitForPortEnable n port enable wakes
  | setupTunnel n source m destination tunnel enableSource enableDestination =>
      refine Does.bind (does_sendCommand n _ _ _) fun _ => ?_
      refine Does.ite (fun _ => does_pure _) fun _ => ?_
      exact Does.bind (does_sendCommand m _ _ _) fun _ => does_pure _

/-! ## The steps of the system -/

/-- The command, if it is one for the port. -/
def PortEvent.command (n : Nat) (port : Int) : PortEvent → Option Bool
  | .accepted m q enable => if m = n ∧ q = port then some enable else none

namespace PortSystem

/-- The port as a register with a copy, if it is in the map. -/
def mirror (x : PortSystem) (n : Nat) (port : Int) : Option (Mirror.State Bool) :=
  x.world.state.mirror n port

/-- The commands for a port that the component has accepted so far. -/
def accepted (x : PortSystem) (n : Nat) (port : Int) : List Bool :=
  x.world.log.filterMap fun e => e.2.command n port

/-- All that the threads run are calls. -/
def Calls (x : PortSystem) : Prop := ∀ t p, x.running t = some p → p.Does PortAction

theorem calls_init (w : OmxPorts) : Calls (Pool.init w) := fun _ _ h => by cases h

/-- A step for a port in the map is none for the register, or one. -/
def Mirrors (x y : PortSystem) (a : PortAct) (n : Nat) (port : Int) : Prop :=
  ∀ m, x.mirror n port = some m → ∃ as m', Lts.exec Mirror.step m as = some m' ∧
    y.mirror n port = some m' ∧ (.carryOut ∈ as ↔ a = .complete n port) ∧
    y.accepted n port = x.accepted n port ++ as.filterMap Mirror.Act.sent

theorem mirrors_of_same {x y : PortSystem} {a : PortAct} {n : Nat} {port : Int}
    (hmirror : y.mirror n port = x.mirror n port)
    (haccepted : y.accepted n port = x.accepted n port)
    (ha : a ≠ .complete n port) : Mirrors x y a n port := fun m hm =>
  ⟨[], m, rfl, hmirror.trans hm, by simp [ha], by simp [haccepted]⟩

/-- An action of a call. -/
theorem mirrors_action {x y : PortSystem} {t : Nat} {f : OmxPorts → Option PortEvent × OmxPorts}
    (hf : PortAction f) (hy : y.world = x.world.after t f) {a : PortAct} {n : Nat} {port : Int}
    (ha : a ≠ .complete n port) : Mirrors x y a n port := by
  rcases hf x.world.state with ⟨hnone, hlink, hmap⟩ | ⟨m, q, b, hsend⟩
  · intro r hr
    refine mirrors_of_same ?_ ?_ ha r hr
    · rw [mirror, mirror, hy, World.after_state]
      have hsome := (OmxPorts.mirror_eq_some.mp hr).1
      exact OmxPorts.mirror_congr (by rw [hlink]) (hmap n port (by simp [hsome]))
    · simp [accepted, hy, World.after_log, hnone]
  · have hlog : y.accepted n port =
        x.accepted n port ++ (if m = n ∧ q = port then [b] else []) := by
      rw [accepted, accepted, hy, World.after_log, List.filterMap_append, hsend]
      by_cases hport : m = n ∧ q = port
      · simp [PortEvent.command, hport]
      · simp [PortEvent.command, hport]
    have hstate : y.world.state = x.world.state.setLink m q ((x.world.state.link m q).send b) := by
      rw [hy, World.after_state, hsend]
    by_cases hport : m = n ∧ q = port
    · obtain ⟨rfl, rfl⟩ := hport
      intro r hr
      obtain ⟨hcopy, hlink⟩ := OmxPorts.mirror_eq_some.mp hr
      refine ⟨[.send b], { r with link := r.link.send b }, rfl, ?_, by simp [ha], by
        simp [hlog, Mirror.Act.sent]⟩
      rw [mirror, hstate, OmxPorts.mirror_eq_some, OmxPorts.link_setLink]
      simp [hcopy, hlink]
    · refine mirrors_of_same ?_ (by rw [hlog, if_neg hport, List.append_nil]) ha
      rw [mirror, mirror, hstate]
      refine OmxPorts.mirror_congr ?_ rfl
      rw [OmxPorts.link_setLink, if_neg fun h => hport ⟨h.1.symm, h.2.symm⟩]

theorem setPortMapState_mapped {c : OmxClient} {port : Int} {b : Bool}
    (h : c.enabledPorts port = some b) (state : Bool) (q : Int) :
    (c.setPortMapState port state).enabledPorts q =
      if q = port then some state else c.enabledPorts q := by
  unfold OmxClient.setPortMapState
  rw [h]
  by_cases hq : q = port
  · subst hq
    simp
  · simp [hq]

theorem setPortMapState_ne (c : OmxClient) {port q : Int} (hq : q ≠ port) (state : Bool) :
    (c.setPortMapState port state).enabledPorts q = c.enabledPorts q := by
  unfold OmxClient.setPortMapState
  split
  · simp [hq]
  · rfl

/-- What a step does to the ports in the map, and to the programs that run. -/
theorem step_mirrors {x y : PortSystem} {a : PortAct} (hx : x.Calls) (h : step x a = some y) :
    y.Calls ∧ ∀ n port, Mirrors x y a n port := by
  cases a with
  | call t c =>
      obtain ⟨-, rfl⟩ := Pool.start_cases h
      refine ⟨fun u p hp => ?_, fun n port => mirrors_of_same rfl rfl (by simp)⟩
      rcases Pool.setRunning_cases hp with ⟨rfl, hc⟩ | ⟨-, hp⟩
      · exact Option.some.inj hc ▸ does_portCall c
      · exact hx u p hp
  | thread t =>
      obtain ⟨⟨p, hp⟩, -⟩ := Pool.step_running h
      obtain ⟨hworld, q, hq, hdoes⟩ := Pool.step_does h hp (hx t p hp)
      refine ⟨fun u r hr => ?_, fun n port => ?_⟩
      · rcases Pool.step_running_cases h hr with rfl | ⟨-, hr⟩
        · rw [hq, Option.some.injEq] at hr
          exact hr ▸ hdoes
        · exact hx u r hr
      · rcases hworld with hsame | ⟨f, hf, hafter⟩
        · exact mirrors_of_same (by rw [mirror, mirror, hsame]) (by rw [accepted, accepted, hsame])
            (by simp)
        · exact mirrors_action hf hafter (by simp)
  | returned t result =>
      obtain ⟨⟨r, z⟩, hfinish, hz⟩ := Option.bind_eq_some_iff.mp h
      obtain ⟨-, rfl⟩ := Pool.finish_cases hfinish
      simp only [Option.ite_none_right_eq_some, Option.some.injEq] at hz
      obtain ⟨-, rfl⟩ := hz
      refine ⟨fun u p hp => ?_, fun n port => mirrors_of_same rfl rfl (by simp)⟩
      rcases Pool.setRunning_cases hp with ⟨-, hnone⟩ | ⟨-, hp⟩
      · cases hnone
      · exact hx u p hp
  | complete m q =>
      obtain ⟨l, hl, rfl⟩ := Option.map_eq_some_iff.mp h
      refine ⟨hx, fun n port r hr => ?_⟩
      obtain ⟨hcopy, hlink⟩ := OmxPorts.mirror_eq_some.mp hr
      by_cases hport : m = n ∧ q = port
      · obtain ⟨rfl, rfl⟩ := hport
        refine ⟨[.carryOut], { r with link := l }, ?_, ?_, by simp, by
          simp [accepted, setState, Mirror.Act.sent]⟩
        · rw [hlink] at hl
          simp [Lts.exec, Mirror.step, hl]
        · rw [mirror, setState, OmxPorts.mirror_eq_some, OmxPorts.link_setLink]
          simp [hcopy]
      · have hsame : (x.setState (x.world.state.setLink m q l)).mirror n port =
            x.mirror n port := by
          refine OmxPorts.mirror_congr ?_ rfl
          exact (x.world.state.link_setLink m n q port l).trans
            (if_neg fun h => hport ⟨h.1.symm, h.2.symm⟩)
        refine mirrors_of_same hsame rfl (fun heq => hport ?_) r hr
        cases heq
        exact ⟨rfl, rfl⟩
  | event m q =>
      obtain ⟨⟨b, l⟩, hl, rfl⟩ := Option.map_eq_some_iff.mp h
      refine ⟨hx, fun n port r hr => ?_⟩
      obtain ⟨hcopy, hlink⟩ := OmxPorts.mirror_eq_some.mp hr
      by_cases hport : m = n ∧ q = port
      · obtain ⟨rfl, rfl⟩ := hport
        refine ⟨[.report], ⟨l, b⟩, ?_, ?_, by simp, by simp [accepted, setState, Mirror.Act.sent]⟩
        · rw [hlink] at hl
          simp [Lts.exec, Mirror.step, hl]
        · rw [mirror, setState, OmxPorts.mirror_eq_some, OmxPorts.link_onClient,
            OmxPorts.link_setLink, OmxPorts.portMap_onClient, if_pos rfl]
          exact ⟨(setPortMapState_mapped hcopy b q).trans (if_pos rfl), by simp⟩
      · have hsame : ((x.world.state.setLink m q l).onClient m
            (·.setPortMapState q b)).mirror n port = x.world.state.mirror n port := by
          refine OmxPorts.mirror_congr ?_ ?_
          · exact (x.world.state.link_setLink m n q port l).trans
              (if_neg fun h => hport ⟨h.1.symm, h.2.symm⟩)
          · rw [OmxPorts.portMap_onClient]
            split
            case isTrue hn =>
              subst hn
              exact setPortMapState_ne _ (fun hq => hport ⟨rfl, hq.symm⟩) b
            case isFalse => rfl
        exact ⟨[], r, rfl, hsame.trans hr, by simp, by simp [accepted, setState]⟩

/-- **Every port in the map is a register with a copy.** What a run does to it is a run of the
register: a command that the component carries out is a write, and the commands accepted are those
that were sent. -/
theorem runs_mirror {acts : List PortAct} :
    ∀ {x y : PortSystem}, x.Calls → Lts.exec step x acts = some y →
      ∀ {n : Nat} {port : Int} {m : Mirror.State Bool}, x.mirror n port = some m →
        ∃ as m', Lts.exec Mirror.step m as = some m' ∧ y.mirror n port = some m' ∧
          (.carryOut ∈ as ↔ .complete n port ∈ acts) ∧
          y.accepted n port = x.accepted n port ++ as.filterMap Mirror.Act.sent := by
  induction acts with
  | nil =>
      intro x y _ h n port m hm
      obtain rfl := Option.some.inj h
      exact ⟨[], m, rfl, hm, by simp, by simp⟩
  | cons a acts ih =>
      intro x y hx h n port m hm
      obtain ⟨z, hz, hy⟩ := Lts.exec_cons_iff.mp h
      obtain ⟨hcalls, hstep⟩ := step_mirrors hx hz
      obtain ⟨as, k, has, hk, hcarry, hsent⟩ := hstep n port m hm
      obtain ⟨bs, r, hbs, hr, hcarry', hsent'⟩ := ih hcalls hy hk
      refine ⟨as ++ bs, r, Lts.exec_append_iff.mpr ⟨k, has, hbs⟩, hr, ?_, ?_⟩
      · rw [List.mem_append, hcarry, hcarry', List.mem_cons, eq_comm]
      · rw [hsent', hsent, List.filterMap_append, List.append_assoc]

theorem calls_run {acts : List PortAct} {x y : PortSystem} (hx : x.Calls)
    (h : Lts.exec step x acts = some y) : y.Calls :=
  Lts.exec_invariant (Q := fun _ => True) (fun _ _ _ _ hx hstep => (step_mirrors hx hstep).1)
    (fun _ _ => trivial) hx h

end PortSystem

/-! ## The map follows the ports -/

/-- With the events under way the entry of the map is the state of the port. -/
def PortSystem.Follows (x : PortSystem) (n : Nat) (port : Int) : Prop :=
  ∃ m, x.mirror n port = some m ∧ m.Follows

/-- **When the port map agrees with a port.** In every run of the clients, from a state in which the
port is in the map, the port stays in the map, and once no event of it is under way the map has its
state exactly if a command for it was carried out in the run, or the map followed it before. -/
theorem portMap_follows_iff {w : OmxPorts} {before acts : List PortAct} {x y : PortSystem}
    (hx : Lts.exec PortSystem.step (Pool.init w) before = some x)
    (hy : Lts.exec PortSystem.step x acts = some y) {n : Nat} {port : Int}
    (hmapped : (x.world.state.portMap n port).isSome) :
    ∃ state, y.world.state.portMap n port = some state ∧
      ((y.world.state.link n port).done = [] →
        (state = (y.world.state.link n port).value ↔
          .complete n port ∈ acts ∨ x.Follows n port)) := by
  have hcalls := PortSystem.calls_run (PortSystem.calls_init w) hx
  obtain ⟨copy, hcopy⟩ := Option.isSome_iff_exists.mp hmapped
  have hm : x.mirror n port = some ⟨x.world.state.link n port, copy⟩ :=
    OmxPorts.mirror_eq_some.mpr ⟨hcopy, rfl⟩
  obtain ⟨as, m, has, hm', hcarry, -⟩ := PortSystem.runs_mirror hcalls hy hm
  obtain ⟨hstate, hlink⟩ := OmxPorts.mirror_eq_some.mp hm'
  refine ⟨m.copy, hstate, fun hdone => ?_⟩
  have hfollows : x.Follows n port ↔
      (⟨x.world.state.link n port, copy⟩ : Mirror.State Bool).Follows :=
    ⟨fun ⟨k, hk, h⟩ => Option.some.inj (hm.symm.trans hk) ▸ h, fun h => ⟨_, hm, h⟩⟩
  rw [hfollows, ← hcarry, ← Mirror.follows_iff has, hlink, Mirror.State.Follows, ← hlink, hdone]
  rfl

/-- A port of a clock that is put into the map while the component still has it enabled, and is
disabled by the command that `create` has sent. -/
theorem portMap_follows_iff_created :
    ∃ x y, Lts.exec PortSystem.step (Pool.init { link := fun _ _ => ⟨true, [], []⟩ })
        ([.call 0 (.createComponent 0 .clock { nPorts := 1, nStartPortNumber := 80 })] ++
          List.replicate 3 (.thread 0) ++ [.returned 0 (some 0)]) = some x ∧
      Lts.exec PortSystem.step x [.complete 0 80, .event 0 80] = some y ∧
      x.world.state.portMap 0 80 = some false ∧ (x.world.state.link 0 80).value = true ∧
      ∃ state, y.world.state.portMap 0 80 = some state ∧
        state = (y.world.state.link 0 80).value := by
  have hx : Lts.exec PortSystem.step (Pool.init { link := fun _ _ => ⟨true, [], []⟩ })
      ([.call 0 (.createComponent 0 .clock { nPorts := 1, nStartPortNumber := 80 })] ++
        List.replicate 3 (.thread 0) ++ [.returned 0 (some 0)]) = some _ := rfl
  obtain ⟨state, hstate, hiff⟩ :=
    @portMap_follows_iff _ _ [.complete 0 80, .event 0 80] _ _ hx rfl 0 80 rfl
  exact ⟨_, _, hx, rfl, rfl, rfl, state, hstate, (hiff rfl).mpr (.inl (by simp))⟩

/-! ## Waiting for a port -/

section Wait

variable {n : Nat} {port : Int} {b : Bool}

/-- The map follows the port, and no value but `b` that is under way can be taken for it. -/
def OmxPorts.Settled (n : Nat) (port : Int) (b : Bool) (w : OmxPorts) : Prop :=
  ∃ m, w.mirror n port = some m ∧ m.Follows ∧ Mirror.Settles b m

/-- The port and the map have the state `b`, and nothing else is under way. -/
def OmxPorts.Agreed (n : Nat) (port : Int) (b : Bool) (w : OmxPorts) : Prop :=
  ∃ m, w.mirror n port = some m ∧ Mirror.Agreed b m

/-- What every step does, of whatever thread, as long as nobody sends another command. -/
def SteadyPort (n : Nat) (port : Int) (b : Bool) (u v : World Nat OmxPorts PortEvent) : Prop :=
  (u.state.Settled n port b → v.state.Settled n port b) ∧
    (u.state.Agreed n port b → v.state.Agreed n port b)

theorem SteadyPort.refl (u : World Nat OmxPorts PortEvent) : SteadyPort n port b u u := ⟨id, id⟩

theorem SteadyPort.trans (u v w : World Nat OmxPorts PortEvent) (h : SteadyPort n port b u v)
    (h' : SteadyPort n port b v w) : SteadyPort n port b u w :=
  ⟨fun hu => h'.1 (h.1 hu), fun hu => h'.2 (h.2 hu)⟩

/-- The commands accepted for the port between two states are all `b`. -/
def OnlySends (n : Nat) (port : Int) (b : Bool) (x y : PortSystem) : Prop :=
  ∀ c ∈ (y.accepted n port).drop (x.accepted n port).length, c = b

theorem runs_steady {acts : List PortAct} {x y : PortSystem} (hx : x.Calls)
    (h : Lts.exec PortSystem.step x acts = some y) (hmapped : (x.mirror n port).isSome)
    (honly : OnlySends n port b x y) : SteadyPort n port b x.world y.world := by
  obtain ⟨m, hm⟩ := Option.isSome_iff_exists.mp hmapped
  obtain ⟨as, r, has, hr, -, hsent⟩ := PortSystem.runs_mirror hx h hm
  rw [OnlySends, hsent, List.drop_left] at honly
  obtain ⟨hsettled, hagreed⟩ := Mirror.runs_settled honly has
  constructor
  · rintro ⟨k, hk, hfollows⟩
    obtain rfl := Option.some.inj (hm.symm.trans hk)
    exact ⟨r, hr, hsettled hfollows⟩
  · rintro ⟨k, hk, hk'⟩
    obtain rfl := Option.some.inj (hm.symm.trans hk)
    exact ⟨r, hr, hagreed hk'⟩

/-- The thread waits for the port: if it is told that the port has the state `b`, it has. -/
abbrev EnsuresPort (t n : Nat) (port : Int) (b : Bool) :
    PortProg (Option Int) → World Nat OmxPorts PortEvent → Prop :=
  Ensures t (SteadyPort n port b) (SteadyPort n port b) fun result v =>
    result = some 0 → v.state.Agreed n port b

variable {t : Nat} {w : World Nat OmxPorts PortEvent}

/-- A look at the map. -/
theorem ensuresPort_look {none' : PortProg (Option Int)} {rest : PortProg (Option Int)}
    (hw : w.state.Settled n port b)
    (hrest : ∀ v : World Nat OmxPorts PortEvent, v.state.Settled n port b →
      EnsuresPort t n port b rest v) :
    EnsuresPort t n port b (read (·.portMap n port) >>= fun state =>
      match state with
      | none => none'
      | some on => if b = on then return some 0 else rest) w := by
  refine Ensures.act_bind fun v hv => ⟨⟨id, id⟩, Ensures.ret_bind ?_⟩
  obtain ⟨m, hm, hfollows, hsettles⟩ := hv.1 hw
  have hmap := (OmxPorts.mirror_eq_some.mp hm).1
  simp only [hmap]
  by_cases hb : b = m.copy
  · rw [if_pos hb]
    exact fun u hu _ => hu.2 ⟨m, hm, hsettles.value_of_copy hfollows hb.symm⟩
  · rw [if_neg hb]
    exact hrest _ ⟨m, hm, hfollows, hsettles⟩

theorem ensuresPort_waitLoop (wakes : Nat) (hw : w.state.Settled n port b) :
    EnsuresPort t n port b (waitLoop n port b wakes) w := by
  induction wakes generalizing w with
  | zero => exact fun v _ h => by cases h
  | succ wakes ih => exact ensuresPort_look hw fun v hv => ih hv

theorem ensuresPort_waitForPortEnable (wakes : Nat) (hw : w.state.Settled n port b) :
    EnsuresPort t n port b (waitForPortEnable n port b wakes) w :=
  ensuresPort_look hw fun _ hv => ensuresPort_waitLoop wakes hv

/-- A command for the state that is waited for. -/
theorem steady_send (v : World Nat OmxPorts PortEvent) (log : List (Nat × PortEvent)) :
    SteadyPort n port b v ⟨v.state.setLink n port ((v.state.link n port).send b), log⟩ := by
  have hmirror : ∀ m, v.state.mirror n port = some m →
      (v.state.setLink n port ((v.state.link n port).send b)).mirror n port =
        some { m with link := m.link.send b } := by
    intro m hm
    obtain ⟨hcopy, hlink⟩ := OmxPorts.mirror_eq_some.mp hm
    rw [OmxPorts.mirror_eq_some, OmxPorts.link_setLink, if_pos ⟨rfl, rfl⟩, hlink]
    exact ⟨hcopy, rfl⟩
  have hsend : ∀ m : Mirror.State Bool,
      Lts.exec Mirror.step m [.send b] = some { m with link := m.link.send b } := fun _ => rfl
  constructor
  · rintro ⟨m, hm, h⟩
    exact ⟨_, hmirror m hm, (Mirror.runs_settled (by simp [Mirror.Act.sent]) (hsend m)).1 h⟩
  · rintro ⟨m, hm, h⟩
    exact ⟨_, hmirror m hm, (Mirror.runs_settled (by simp [Mirror.Act.sent]) (hsend m)).2 h⟩

theorem ensuresPort_enablePort {timeout : Int} (htimeout : timeout ≠ 0) (answer : Int)
    (wakes : Nat) (hw : w.state.Settled n port b) :
    EnsuresPort t n port b (enablePort n port b timeout answer wakes) w := by
  refine Ensures.act_bind fun v hv => ?_
  have hsettled := hv.1 hw
  by_cases hanswer : answer = 0
  · simp only [hanswer, if_true]
    refine ⟨steady_send v _, Ensures.ret_bind ?_⟩
    rw [if_pos ⟨rfl, htimeout⟩]
    exact ensuresPort_waitForPortEnable wakes ((steady_send v _).1 hsettled)
  · simp only [hanswer, if_false]
    refine ⟨⟨id, id⟩, Ensures.ret_bind ?_⟩
    rw [if_neg fun h => hanswer h.1]
    exact fun u _ hzero => absurd (Option.some.inj hzero) hanswer

/-- The call waits until the port has the state `b`. -/
def PortCall.Awaits (c : PortCall) (n : Nat) (port : Int) (b : Bool) : Prop :=
  (∃ timeout answer wakes, timeout ≠ 0 ∧ c = .enablePort n port b timeout answer wakes) ∨
    ∃ wakes, c = .waitForPortEnable n port b wakes

theorem PortCall.Awaits.ensuresPort {c : PortCall} (hc : c.Awaits n port b)
    (hw : w.state.Settled n port b) : EnsuresPort t n port b c.prog w := by
  rcases hc with ⟨timeout, answer, wakes, htimeout, rfl⟩ | ⟨wakes, rfl⟩
  · exact ensuresPort_enablePort htimeout answer wakes hw
  · exact ensuresPort_waitForPortEnable wakes hw

/-- The thread runs a program that waits for the port. -/
def PortSystem.Waits (x : PortSystem) (t n : Nat) (port : Int) (b : Bool) : Prop :=
  ∃ p, x.running t = some p ∧ EnsuresPort t n port b p x.world

/-- A step leaves the thread waiting, unless its call returns. -/
theorem PortSystem.Waits.step {x y : PortSystem} {a : PortAct} (hx : x.Waits t n port b)
    (ha : ∀ result, a ≠ .returned t result) (hsteady : SteadyPort n port b x.world y.world)
    (h : PortSystem.step x a = some y) : y.Waits t n port b := by
  obtain ⟨p, hp, hensures⟩ := hx
  have hother : y.running t = some p → y.Waits t n port b := fun hy =>
    ⟨p, hy, hensures.stable SteadyPort.trans hsteady⟩
  cases a with
  | call u c =>
      obtain ⟨hidle, rfl⟩ := Pool.start_cases h
      have hne : t ≠ u := by
        rintro rfl
        rw [hp] at hidle
        cases hidle
      exact hother ((Pool.running_setRunning_ne x hne _).trans hp)
  | thread u =>
      by_cases hu : u = t
      · subst hu
        exact (Pool.step_ensures SteadyPort.refl h hp hensures).2
      · exact hother ((Pool.step_running_ne h (Ne.symm hu)).trans hp)
  | returned u result =>
      obtain ⟨⟨r, z⟩, hfinish, hz⟩ := Option.bind_eq_some_iff.mp h
      obtain ⟨-, rfl⟩ := Pool.finish_cases hfinish
      simp only [Option.ite_none_right_eq_some, Option.some.injEq] at hz
      obtain ⟨-, rfl⟩ := hz
      have hne : t ≠ u := by
        rintro rfl
        exact ha result rfl
      exact hother ((Pool.running_setRunning_ne x hne _).trans hp)
  | complete m q =>
      obtain ⟨l, -, rfl⟩ := Option.map_eq_some_iff.mp h
      exact hother hp
  | event m q =>
      obtain ⟨r, -, rfl⟩ := Option.map_eq_some_iff.mp h
      exact hother hp

/-- The commands of a run are those of its two parts. -/
theorem OnlySends.split {as bs : List PortAct} {x y z : PortSystem} (hx : x.Calls)
    (hmapped : (x.mirror n port).isSome) (hz : Lts.exec PortSystem.step x as = some z)
    (hy : Lts.exec PortSystem.step z bs = some y) (h : OnlySends n port b x y) :
    OnlySends n port b x z ∧ OnlySends n port b z y ∧ (z.mirror n port).isSome := by
  obtain ⟨m, hm⟩ := Option.isSome_iff_exists.mp hmapped
  obtain ⟨l, r, -, hr, -, hsent⟩ := PortSystem.runs_mirror hx hz hm
  obtain ⟨l', r', -, -, -, hsent'⟩ := PortSystem.runs_mirror (PortSystem.calls_run hx hz) hy hr
  rw [OnlySends, hsent', hsent, List.append_assoc, List.drop_left] at h
  refine ⟨?_, ?_, by simp [hr]⟩
  · rw [OnlySends, hsent, List.drop_left]
    exact fun c hc => h c (List.mem_append_left _ hc)
  · rw [OnlySends, hsent', List.drop_left]
    exact fun c hc => h c (List.mem_append_right _ hc)

theorem PortSystem.Waits.run {acts : List PortAct} (hacts : ∀ result, .returned t result ∉ acts) :
    ∀ {x y : PortSystem}, x.Calls → (x.mirror n port).isSome → x.Waits t n port b →
      Lts.exec PortSystem.step x acts = some y → OnlySends n port b x y → y.Waits t n port b := by
  induction acts with
  | nil =>
      intro x y _ _ hwaits h _
      obtain rfl := Option.some.inj h
      exact hwaits
  | cons a acts ih =>
      intro x y hx hmapped hwaits h honly
      obtain ⟨z, hz, hy⟩ := Lts.exec_cons_iff.mp h
      have hrun : Lts.exec PortSystem.step x [a] = some z := by simp [Lts.exec, hz]
      obtain ⟨hfirst, hlast, hmapped'⟩ := honly.split hx hmapped hrun hy
      refine ih (fun result h => hacts result (List.mem_cons_of_mem _ h))
        (PortSystem.calls_run hx hrun) hmapped' ?_ hy hlast
      refine hwaits.step ?_ (runs_steady hx hrun hmapped hfirst) hz
      rintro result rfl
      exact hacts result List.mem_cons_self

end Wait

/-- **A wait for a port tells the truth.** A thread calls `enablePort` with a timeout, or
`waitForPortEnable`, for a port that the map follows and that has no command or event under way
which would be taken for the one it waits for. If the call returns zero, and whatever the threads
and the component have done in between no command to the contrary has been accepted, the port has
the state that was asked for, and keeps it until one is. -/
theorem portWait_truthful {w : OmxPorts} {before acts : List PortAct} {x y : PortSystem} {t n : Nat}
    {port : Int} {b : Bool} {c : PortCall}
    (hx : Lts.exec PortSystem.step (Pool.init w) before = some x)
    (hsettled : x.world.state.Settled n port b) (hc : c.Awaits n port b)
    (hy : Lts.exec PortSystem.step x (.call t c :: acts ++ [.returned t (some 0)]) = some y)
    (hacts : ∀ result, .returned t result ∉ acts) (honly : OnlySends n port b x y) :
    (y.world.state.link n port).value = b ∧
      ∀ later z, Lts.exec PortSystem.step y later = some z → OnlySends n port b y z →
        (z.world.state.link n port).value = b := by
  have hvalue : ∀ v : OmxPorts, v.Agreed n port b → (v.link n port).value = b := by
    rintro v ⟨m, hm, hagreed⟩
    rw [(OmxPorts.mirror_eq_some.mp hm).2]
    exact hagreed.value
  have hcalls := PortSystem.calls_run (PortSystem.calls_init w) hx
  have hmapped : (x.mirror n port).isSome := by
    obtain ⟨m, hm, -⟩ := hsettled
    exact Option.isSome_iff_exists.mpr ⟨m, hm⟩
  obtain ⟨z, hz, hlast⟩ := Lts.exec_append_iff.mp hy
  obtain ⟨hfirst, -, hmappedz⟩ := honly.split hcalls hmapped hz hlast
  obtain ⟨u, hu, hz'⟩ := Lts.exec_cons_iff.mp hz
  -- the thread begins to wait
  have hu' := Pool.start_cases hu
  have hstart : u.Waits t n port b := by
    rw [hu'.2]
    exact ⟨_, Pool.running_setRunning_self x t _, hc.ensuresPort hsettled⟩
  have hrun : Lts.exec PortSystem.step x [.call t c] = some u := by simp [Lts.exec, hu]
  obtain ⟨-, hrest, hmappedu⟩ := hfirst.split hcalls hmapped hrun hz'
  obtain ⟨p, hp, hensures⟩ :=
    hstart.run hacts (PortSystem.calls_run hcalls hrun) hmappedu hz' hrest
  -- and returns
  obtain ⟨v, hv, hvy⟩ := Lts.exec_cons_iff.mp hlast
  obtain rfl := Option.some.inj hvy
  obtain ⟨⟨r, q⟩, hfinish, hq⟩ := Option.bind_eq_some_iff.mp hv
  obtain ⟨hdone, rfl⟩ := Pool.finish_cases hfinish
  simp only [Option.ite_none_right_eq_some, Option.some.injEq] at hq
  obtain ⟨rfl, rfl⟩ := hq
  obtain rfl := Option.some.inj (hp.symm.trans hdone)
  have hagreed : z.world.state.Agreed n port b := hensures z.world (SteadyPort.refl _) rfl
  have hzcalls := PortSystem.calls_run hcalls hz
  refine ⟨hvalue _ hagreed, fun later s hs honly' => hvalue _ ?_⟩
  have hycalls : PortSystem.Calls (z.setRunning t none) := PortSystem.calls_run hzcalls hlast
  exact (runs_steady hycalls hs hmappedz honly').2 hagreed

/-- A port is created as disabled and then enabled, by a call that is woken once. -/
theorem portWait_truthful_enabled :
    ∃ x y, Lts.exec PortSystem.step (Pool.init { link := fun _ _ => ⟨true, [], []⟩ })
        ([.call 0 (.createComponent 0 .clock { nPorts := 1, nStartPortNumber := 80 })] ++
          List.replicate 3 (.thread 0) ++ [.returned 0 (some 0), .complete 0 80, .event 0 80]) =
            some x ∧
      Lts.exec PortSystem.step x (.call 0 (.enablePort 0 80 true 1 0 1) ::
        [.thread 0, .complete 0 80, .event 0 80, .thread 0] ++ [.returned 0 (some 0)]) = some y ∧
      (y.world.state.link 0 80).value = true := by
  have hx : Lts.exec PortSystem.step (Pool.init { link := fun _ _ => ⟨true, [], []⟩ })
      ([.call 0 (.createComponent 0 .clock { nPorts := 1, nStartPortNumber := 80 })] ++
        List.replicate 3 (.thread 0) ++ [.returned 0 (some 0), .complete 0 80, .event 0 80]) =
          some _ := rfl
  have hacts : ∀ result, PortAct.returned 0 result ∉
      [.thread 0, .complete 0 80, .event 0 80, .thread 0] := by simp
  refine ⟨_, _, hx, rfl, (@portWait_truthful _ _ _ _ _ 0 0 80 true (.enablePort 0 80 true 1 0 1) hx
    ⟨_, rfl, rfl, Mirror.settles_of_quiet rfl⟩ (.inl ⟨1, 0, 1, by decide, rfl⟩) rfl hacts ?_).1⟩
  unfold OnlySends
  decide

/-! ## Creation -/

/-- The state that a port gets that is put into the map. -/
def disabledIf (inserted : Bool) : Option Bool := if inserted then some false else none

theorem disabledIf_or (c d : Bool) : (disabledIf c).or (disabledIf d) = disabledIf (c || d) := by
  cases c <;> cases d <;> rfl

theorem portMap_insertPortMap (w : OmxPorts) (n m : Nat) (port q : Int) :
    (w.onClient n (·.insertPortMap port)).portMap m q =
      (w.portMap m q).or (disabledIf (decide (m = n ∧ q = port))) := by
  rw [OmxPorts.portMap_onClient]
  by_cases hm : m = n
  · subst hm
    rw [if_pos rfl, show w.portMap m q = (w.client m).enabledPorts q from rfl]
    by_cases hq : q = port
    · subst hq
      unfold OmxClient.insertPortMap
      split
      case h_1 b hb => simp [hb]
      case h_2 hnone => simp [hnone, disabledIf]
    · simp only [hq, and_false, decide_false, disabledIf, Bool.false_eq_true, if_false,
        Option.or_none]
      unfold OmxClient.insertPortMap
      split
      · rfl
      · simp [hq]
  · simp [hm, disabledIf]

/-- The ports that the loop puts into the map. -/
def CreateAnswers.inserts (a : CreateAnswers) (is : List Nat) (q : Int) : Bool :=
  is.any fun i => !(a.port i).skipped && decide (q = portNumber a.nStartPortNumber i)

/-- The state that the loop leaves from its first port on. -/
def disableFirst (n : Nat) (a : CreateAnswers) (i : Nat) (w : OmxPorts) : OmxPorts :=
  if (a.port i).skipped = false then
    ((sendCommand n false (portNumber a.nStartPortNumber i) (a.port i).disable).run
      (w.onClient n (·.insertPortMap (portNumber a.nStartPortNumber i)))).2
  else w

theorem run_disablePorts_cons (n : Nat) (a : CreateAnswers) (i : Nat) (is : List Nat)
    (w : OmxPorts) :
    ((disablePorts n a (i :: is)).run w).2 =
      ((disablePorts n a is).run (disableFirst n a i w)).2 := by
  unfold disableFirst
  simp only [disablePorts, run_bind, run_onlyIf, run_write, run_pure]
  split <;> rfl

theorem run_sendCommand (n : Nat) (enable : Bool) (port answer : Int) (w : OmxPorts) :
    ((sendCommand n enable port answer).run w).2 =
      if answer = 0 then w.setLink n port ((w.link n port).send enable) else w := by
  simp only [sendCommand, run]
  split <;> rfl

theorem portMap_disableFirst (n : Nat) (a : CreateAnswers) (i : Nat) (w : OmxPorts) (m : Nat)
    (q : Int) :
    (disableFirst n a i w).portMap m q =
      (w.portMap m q).or (disabledIf (decide (m = n) && a.inserts [i] q)) := by
  unfold disableFirst
  by_cases hskip : (a.port i).skipped = false
  · have hsend : ∀ v : OmxPorts, (((sendCommand n false (portNumber a.nStartPortNumber i)
        (a.port i).disable).run v).2).portMap m q = v.portMap m q := by
      intro v
      rw [run_sendCommand]
      split <;> rfl
    rw [if_pos hskip, hsend, portMap_insertPortMap]
    simp [CreateAnswers.inserts, hskip]
  · rw [if_neg hskip]
    simp [CreateAnswers.inserts, hskip, disabledIf]

/-- The loop of `create` puts its ports into the map, as disabled. -/
theorem portMap_disablePorts (n : Nat) (a : CreateAnswers) (m : Nat) (q : Int) (is : List Nat) :
    ∀ w : OmxPorts, ((disablePorts n a is).run w).2.portMap m q =
      (w.portMap m q).or (disabledIf (decide (m = n) && a.inserts is q)) := by
  induction is with
  | nil => simp [disablePorts, CreateAnswers.inserts, disabledIf]
  | cons i is ih =>
      intro w
      rw [run_disablePorts_cons, ih, portMap_disableFirst, Option.or_assoc, disabledIf_or,
        ← Bool.and_or_distrib_left]
      simp [CreateAnswers.inserts]

theorem indices_disablePorts (n : Nat) (a : CreateAnswers) (is : List Nat) :
    ∀ w : OmxPorts, ((disablePorts n a is).run w).2.indices = w.indices := by
  induction is with
  | nil => exact fun _ => rfl
  | cons i is ih =>
      intro w
      rw [run_disablePorts_cons, ih]
      unfold disableFirst
      rw [run_sendCommand]
      split
      · split <;> rfl
      · rfl

/-- How many ports `create` loops over. -/
def OmxComponent.portCount (a : CreateAnswers) : OmxComponent → Nat
  | .videoScheduler => (a.nPorts + 1) % 2 ^ 32
  | .audioRenderer =>
      if a.rendererInput = 0 ∧ a.rendererOutput = 0 then (a.nPorts + 1) % 2 ^ 32 else a.nPorts
  | .clock | .videoRenderer | .audioMixer => a.nPorts

/-- The call creates a component with `k` ports, but no mixer, whose port numbers are fixed. -/
def PortCall.Creates (c : PortCall) (n : Nat) (a : CreateAnswers) (k : Nat) : Prop :=
  (∃ component, component ≠ .audioMixer ∧ c = .createComponent n component a ∧
      k = component.portCount a) ∨
    (∃ codec, (codec = .h262 ∨ codec = .h264) ∧ c = .createVideoCodec n codec a ∧ k = a.nPorts) ∨
    ∃ codec, codec ≠ .none ∧ c = .createAudioCodec n codec a ∧ k = a.nPorts

/-- What a creation leaves, up to what it writes elsewhere. -/
structure Created (n : Nat) (a : CreateAnswers) (k : Nat) (w v : OmxPorts) : Prop where
  portMap : ∀ m q, v.portMap m q =
    (w.portMap m q).or (disabledIf (decide (m = n) && a.inserts (List.range k) q))
  input : (v.indices n).input = portNumber a.nStartPortNumber 0
  output : (v.indices n).output = outputPort a.nStartPortNumber k ∨ (v.indices n).output = -1

theorem created_createPorts (n : Nat) (a : CreateAnswers) (k : Nat) {w v : OmxPorts}
    (hv : v.client = w.client) : Created n a k w ((createPorts n a k).run v).2 := by
  have hmap : ∀ m q, v.portMap m q = w.portMap m q := fun m q => by
    rw [OmxPorts.portMap, OmxPorts.portMap, hv]
  simp only [createPorts, run_bind, run_write]
  refine ⟨fun m q => ?_, ?_, .inl ?_⟩
  · rw [← hmap, ← portMap_disablePorts]
    rfl
  · simp [OmxPorts.onIndices]
  · simp [OmxPorts.onIndices]

theorem created_audioRenderer (n : Nat) (a : CreateAnswers) {w : OmxPorts}
    (hw : w.indices n = {}) :
    Created n a (OmxComponent.audioRenderer.portCount a) w
      ((createComponent n .audioRenderer a).run w).2 := by
  by_cases hknown : a.rendererInput = 0 ∧ a.rendererOutput = 0
  · have hrun : ((createComponent n .audioRenderer a).run w).2 =
        ((disablePorts n a (List.range ((a.nPorts + 1) % 2 ^ 32))).run
          (w.onIndices n fun _ => { input := 100, clockInput := 101, output := -1 })).2.onIndices n
            fun p => { p with input := portNumber a.nStartPortNumber 0 } := by
      simp [createComponent, hknown]
    rw [hrun, OmxComponent.portCount, if_pos hknown]
    refine ⟨fun m q => (portMap_disablePorts n a m q _ _), ?_, .inr ?_⟩
    · simp [OmxPorts.onIndices]
    · simp [OmxPorts.onIndices, indices_disablePorts]
  · have hrun : ((createComponent n .audioRenderer a).run w).2 =
        ((disablePorts n a (List.range a.nPorts)).run w).2.onIndices n
          fun p => { p with input := portNumber a.nStartPortNumber 0 } := by
      simp [createComponent, hknown]
    rw [hrun, OmxComponent.portCount, if_neg hknown]
    refine ⟨fun m q => (portMap_disablePorts n a m q _ _), ?_, .inr ?_⟩
    · simp [OmxPorts.onIndices]
    · simp [OmxPorts.onIndices, indices_disablePorts, hw]

theorem PortCall.Creates.created {c : PortCall} {n k : Nat} {a : CreateAnswers}
    (hc : c.Creates n a k) {w : OmxPorts} (hw : w.indices n = {}) :
    (c.prog.run w).1 = some resultSuccess ∧ Created n a k w (c.prog.run w).2 := by
  rcases hc with ⟨component, hmixer, rfl, rfl⟩ | ⟨codec, hcodec, rfl, rfl⟩ |
    ⟨codec, hcodec, rfl, rfl⟩
  · simp only [PortCall.prog, run_bind, run_pure]
    cases component with
    | clock =>
        simp only [DirectMedia.createComponent, run_bind, run_pure]
        exact ⟨trivial, created_createPorts n a _ rfl⟩
    | videoRenderer =>
        simp only [DirectMedia.createComponent, run_bind, run_pure]
        exact ⟨trivial, created_createPorts n a _ rfl⟩
    | audioRenderer =>
        refine ⟨?_, created_audioRenderer n a hw⟩
        simp [DirectMedia.createComponent]
    | videoScheduler =>
        simp only [DirectMedia.createComponent, run_bind, run_pure, run_write]
        exact ⟨trivial, created_createPorts n a _ rfl⟩
    | audioMixer => exact absurd rfl hmixer
  · simp only [PortCall.prog, run_bind, run_pure]
    rcases hcodec with rfl | rfl
    · simp only [DirectMedia.createVideoCodec, run_bind, run_pure]
      exact ⟨trivial, created_createPorts n a _ rfl⟩
    · simp only [DirectMedia.createVideoCodec, run_bind, run_pure]
      exact ⟨trivial, created_createPorts n a _ rfl⟩
  · simp only [PortCall.prog, run_bind, run_pure]
    cases codec
    case none => exact absurd rfl hcodec
    all_goals
      simp only [DirectMedia.createAudioCodec, run_bind, run_pure]
      exact ⟨trivial, created_createPorts n a _ rfl⟩

theorem portNumber_of_lt {start i : Nat} (h : start + i < 2 ^ 31) :
    portNumber start i = start + i := by
  unfold portNumber
  rw [Int.bmod_eq_of_le] <;> omega

/-- **The ports of a created component.** The creation (`Creates`) of a client without ports puts
exactly the ports that it learned of into the map, as disabled, and leaves those of the other
clients alone. Where there is a port, it learned of all of them, and their numbers are those of an
`int`, the input port it notes is in the map, and the output port too unless it is -1. -/
theorem create_ports {c : PortCall} {n k : Nat} {a : CreateAnswers} (hc : c.Creates n a k)
    {w : OmxPorts} (hw : w.indices n = {}) :
    (c.prog.run w).1 = some resultSuccess ∧
    (∀ m q, (c.prog.run w).2.portMap m q =
      (w.portMap m q).or (disabledIf (decide (m = n) && a.inserts (List.range k) q))) ∧
    (0 < k → a.nStartPortNumber + k ≤ 2 ^ 31 → (∀ i < k, (a.port i).skipped = false) →
      ((c.prog.run w).2.portMap n ((c.prog.run w).2.indices n).input).isSome ∧
        (((c.prog.run w).2.indices n).output = -1 ∨
          ((c.prog.run w).2.portMap n ((c.prog.run w).2.indices n).output).isSome)) := by
  obtain ⟨hresult, hcreated⟩ := hc.created hw
  refine ⟨hresult, hcreated.portMap, fun hk hstart hports => ?_⟩
  have hin : ∀ i < k, ((c.prog.run w).2.portMap n (portNumber a.nStartPortNumber i)).isSome := by
    intro i hi
    have hinserts : a.inserts (List.range k) (portNumber a.nStartPortNumber i) = true :=
      List.any_eq_true.mpr ⟨i, List.mem_range.mpr hi, by simp [hports i hi]⟩
    rw [hcreated.portMap, hinserts]
    simp [disabledIf]
  refine ⟨by rw [hcreated.input]; exact hin 0 hk, ?_⟩
  rcases hcreated.output with houtput | houtput
  · right
    -- the output port is the second one, or the only one
    have hlast : Int.bmod ((a.nStartPortNumber : Int) + k - 1) (2 ^ 32) =
        portNumber a.nStartPortNumber (k - 1) := by
      rw [portNumber_of_lt (by omega), Int.bmod_eq_of_le] <;> omega
    have hfirst : portNumber a.nStartPortNumber 0 = a.nStartPortNumber + (0 : Nat) :=
      portNumber_of_lt (by omega)
    have hend : portNumber a.nStartPortNumber (k - 1) = a.nStartPortNumber + (k - 1 : Nat) :=
      portNumber_of_lt (by omega)
    rw [houtput, outputPort, hlast]
    split
    case isTrue => exact hin _ (by omega)
    case isFalse hle =>
      have hsecond : portNumber a.nStartPortNumber 0 + 1 = portNumber a.nStartPortNumber 1 := by
        rw [hfirst, portNumber_of_lt (by omega)]
        omega
      rw [hsecond]
      exact hin 1 (by omega)
  · exact .inl houtput

/-- A scheduler is created with three ports. -/
theorem create_ports_scheduler :
    (PortCall.createComponent 0 .videoScheduler
      { nPorts := 2, nStartPortNumber := 10 }).Creates 0
        { nPorts := 2, nStartPortNumber := 10 } 3 ∧
    (((PortCall.createComponent 0 .videoScheduler
      { nPorts := 2, nStartPortNumber := 10 }).prog.run
        { link := fun _ _ => ⟨true, [], []⟩ }).2.portMap 0 12) = some false := by
  have hc : (PortCall.createComponent 0 .videoScheduler
      { nPorts := 2, nStartPortNumber := 10 }).Creates 0
        { nPorts := 2, nStartPortNumber := 10 } 3 := .inl ⟨_, by decide, rfl, rfl⟩
  refine ⟨hc, ?_⟩
  rw [(create_ports hc rfl).2.1 0 12]
  decide

end DirectMedia

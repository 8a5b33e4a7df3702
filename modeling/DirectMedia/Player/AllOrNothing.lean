import DirectMedia.Player.Api

set_option autoImplicit false

/-! # Load is all-or-nothing where it cannot fail

A load that fails should leave the player as it was, and a load that succeeds should leave it
loaded. Past its entry checks `load` undoes nothing: a failure leaves `loaded_` set, and the next
call finds it set and answers `NDL_ESP_RESULT_SUCCESS`. So the runs in which every load is
all-or-nothing are those in which no load that gets past its entry checks fails
(`load_allOrNothing_iff`).
-/

namespace DirectMedia

open Prog

/-- What a load call should do: if it succeeds, the status is one that a completed load has led to;
otherwise the player is not loaded, holds no component and no resource it did not hold before, and
the caller's metadata is unchanged. -/
def AllOrNothing (s : Session) (env : Env) (metaData : MetaData) (units : Option PtsUnits) : Prop :=
  let r := (loadCall env metaData units).run s.player
  if r.1.1 = resultSuccess then
    r.2.status ≠ .idle ∧
      ∃ old, .transit old .loaded ∈ s.history ++ (loadCall env metaData units).trace s.player
  else
    r.2.loaded = false ∧ NoComponents r.2 ∧ r.2.resources = s.player.resources ∧ r.1.2 = metaData

/-- The load calls of a run are all-or-nothing. -/
def LoadHolds (s : Session) (a : ApiCall × Env) : Prop :=
  match a.1 with
  | .load metaData units => AllOrNothing s a.2 metaData units
  | _ => True

/-- A load call that gets past its entry checks does not fail. -/
def LoadSafe (s : Session) (a : ApiCall × Env) : Prop :=
  match a.1 with
  | .load metaData _ =>
      s.player.loaded = true ∨ s.player.status ≠ .idle ∨
        LoadAccepted a.2 metaData s.player.targetPlaybackRate
  | _ => True

/-- What holds of a player whose loads did not fail. -/
structure Settled (s : Session) : Prop where
  idle : s.player.status = .idle → s.player.loaded = false
  empty : s.player.loaded = false → NoComponents s.player
  completed : s.player.status ≠ .idle → ∃ old, .transit old .loaded ∈ s.history

theorem settled_init : Settled {} :=
  ⟨fun _ => rfl, fun _ _ => rfl, fun h => absurd rfl h⟩

/-! ## One load call -/

/-- A load past its entry checks that cannot fail completes. -/
theorem load_completes {env : Env} {metaData : MetaData} {s : Esplayer} (hloaded : s.loaded = false)
    (hidle : s.status = .idle) (haccept : LoadAccepted env metaData s.targetPlaybackRate) :
    ((load env metaData).run s).1.1 = resultSuccess ∧
      ((load env metaData).run s).2.loaded = true ∧ Completes (load env metaData) s := by
  obtain ⟨hiff, hdone⟩ := loadsIff_loadAdmitted env metaData s.targetPlaybackRate s rfl
  have hsuccess := hiff.mpr haccept
  obtain ⟨hstatus, old, hmem⟩ := hdone hsuccess
  rcases load_cases env metaData s with ⟨h, -⟩ | ⟨-, h, -⟩ | ⟨-, -, hrun⟩
  · simp [hloaded] at h
  · exact absurd hidle h
  · refine ⟨by rw [hrun]; exact hsuccess, by rw [hrun]; exact loadAdmitted_loaded env metaData s,
      by rw [hrun]; exact hstatus, old, ?_⟩
    simp only [load, trace_bind, run_readLoaded, hloaded, Bool.false_eq_true, if_false,
      run_canTransit, (canTransit_loaded_iff _).mpr hidle, if_true]
    exact List.mem_append_right _ (List.mem_append_right _ hmem)

/-- Where no load has failed yet, a load call is all-or-nothing exactly if it does not fail past
its entry checks. -/
theorem loadHolds_iff {s : Session} (hs : Settled s) (a : ApiCall × Env) :
    LoadHolds s a ↔ LoadSafe s a := by
  obtain ⟨call, env⟩ := a
  cases call with
  | load metaData units =>
      simp only [LoadHolds, LoadSafe, AllOrNothing, run_loadCall, trace_loadCall]
      have hcases := load_cases env metaData (s.player.withUnits units)
      simp only [withUnits_loaded, withUnits_status] at hcases
      rcases hcases with ⟨hloaded, hrun⟩ | ⟨hloaded, hidle, hrun⟩ | ⟨hloaded, hidle, hrun⟩
      · have hidle : s.player.status ≠ .idle := fun h => by simp [hs.idle h] at hloaded
        obtain ⟨old, hmem⟩ := hs.completed hidle
        rw [hrun, if_pos rfl]
        exact ⟨fun _ => .inl hloaded,
          fun _ => ⟨by simpa using hidle, old, List.mem_append_left _ hmem⟩⟩
      · rw [hrun, if_neg (show resultFail ≠ resultSuccess by decide)]
        refine ⟨fun _ => .inr (.inl hidle), fun _ => ?_⟩
        exact ⟨by simpa using hloaded, fun c => by simpa using hs.empty hloaded c,
          withUnits_resources s.player, rfl⟩
      · have hrate : (s.player.withUnits units).targetPlaybackRate = s.player.targetPlaybackRate :=
          withUnits_targetPlaybackRate s.player
        by_cases haccept : LoadAccepted env metaData s.player.targetPlaybackRate
        · obtain ⟨hsuccess, -, hstatus, old, hmem⟩ := load_completes
            (s := s.player.withUnits units) (by simpa using hloaded) (by simpa using hidle)
            (hrate.symm ▸ haccept)
          rw [if_pos hsuccess, hstatus]
          exact ⟨fun _ => .inr (.inr haccept),
            fun _ => ⟨by decide, old, List.mem_append_right _ hmem⟩⟩
        · -- a failure leaves `loaded_` set
          have hiff := (loadsIff_loadAdmitted env metaData _ (s.player.withUnits units) rfl).1
          have hfail :
              ((load env metaData).run (s.player.withUnits units)).1.1 ≠ resultSuccess := by
            rw [hrun]
            exact fun h => haccept (hrate ▸ hiff.mp h)
          rw [if_neg hfail, hrun, loadAdmitted_loaded]
          simp [hloaded, hidle, haccept]
  | _ => exact Iff.rfl

/-! ## Runs -/

theorem Settled.step {s t : Session} {a : ApiCall × Env} (hsafe : LoadSafe s a) (hs : Settled s)
    (h : Session.step s a = some t) : Settled t := by
  obtain ⟨call, env⟩ := a
  obtain rfl := Option.some.inj h
  by_cases hload : call.isLoad = false
  · -- the player stays as it is in this respect, or is unloaded
    have hstatus := api_status env hload hs.idle
    have hloaded := api_loaded env hload s.player
    refine ⟨fun hidle => ?_, fun hnot => ?_, fun hidle => ?_⟩
    · rcases hloaded with ⟨hl, -⟩ | hu
      · exact hl.trans (hs.idle (hstatus.mp hidle))
      · exact hu.loaded
    · rcases hloaded with ⟨hl, hnone⟩ | hu
      · exact hnone (hs.empty (hl.symm.trans hnot))
      · exact hu.component
    · obtain ⟨old, hmem⟩ := hs.completed fun h => hidle (hstatus.mpr h)
      exact ⟨old, List.mem_append_left _ hmem⟩
  · cases call with
    | load metaData units =>
        simp only [LoadSafe] at hsafe
        have hrun : ((ApiCall.load metaData units).prog env).run s.player =
            (((load env metaData).run (s.player.withUnits units)).1.1,
              ((load env metaData).run (s.player.withUnits units)).2) := by
          simp [ApiCall.prog, run_loadCall]
        have htrace : ((ApiCall.load metaData units).prog env).trace s.player =
            (load env metaData).trace (s.player.withUnits units) := by
          simp [ApiCall.prog, trace_loadCall]
        simp only [hrun, htrace]
        have hcases := load_cases env metaData (s.player.withUnits units)
        simp only [withUnits_loaded, withUnits_status] at hcases
        -- where `load` returns at once the player is as before
        have hsame : Settled
            { player := s.player.withUnits units
              history := s.history ++ (load env metaData).trace (s.player.withUnits units) } := by
          refine ⟨fun hidle => ?_, fun hnot c => ?_, fun hidle => ?_⟩
          · simpa using hs.idle (by simpa using hidle)
          · simpa using hs.empty (by simpa using hnot) c
          · obtain ⟨old, hmem⟩ := hs.completed (by simpa using hidle)
            exact ⟨old, List.mem_append_left _ hmem⟩
        rcases hcases with ⟨-, hret⟩ | ⟨-, -, hret⟩ | ⟨hloaded, hidle, hret⟩
        · rw [hret]; exact hsame
        · rw [hret]; exact hsame
        · have haccept : LoadAccepted env metaData s.player.targetPlaybackRate := by
            simpa [hloaded, hidle] using hsafe
          obtain ⟨-, hset, hstatus, old, hmem⟩ := load_completes
            (s := s.player.withUnits units) (by simpa using hloaded) (by simpa using hidle)
            ((withUnits_targetPlaybackRate s.player).symm ▸ haccept)
          refine ⟨fun h => ?_, fun h => ?_, fun _ => ⟨old, List.mem_append_right _ hmem⟩⟩
          · simp [hstatus] at h
          · simp [hset] at h
    | _ => exact absurd rfl hload

/-- **Load is all-or-nothing where it cannot fail.** In a run of the interface from a fresh player
every load call is all-or-nothing exactly if no load call that gets past its entry checks fails. -/
theorem load_allOrNothing_iff (calls : List (ApiCall × Env)) :
    Lts.Along Session.step LoadHolds {} calls ↔ Lts.Along Session.step LoadSafe {} calls :=
  Lts.Along.congr (fun _ a _ hs => loadHolds_iff hs a)
    (fun _ _ _ _ hsafe hs h => hs.step hsafe h) (fun _ _ => trivial) settled_init

/-- The decoder of the first load does not open: the load fails, `loaded_` stays set, the resources
stay acquired, and a second load is answered `NDL_ESP_RESULT_SUCCESS` on an idle player. -/
theorem load_allOrNothing_fails :
    let env : Env := fun call => if call = .openAudio then 1 else 0
    let metaData : MetaData := { videoCodec := .h264, audioCodec := .aac }
    let first := (load env metaData).run {}
    let second := (load (fun _ => 0) metaData).run first.2
    ¬ LoadHolds {} (.load metaData none, env) ∧
      first.1.1 = resultFail ∧ first.2.loaded = true ∧ first.2.resources = true ∧
      second.1.1 = resultSuccess ∧ second.2.status = .idle := by
  refine ⟨fun h => ?_, rfl, rfl, rfl, rfl, rfl⟩
  exact absurd h.1 (by decide)

end DirectMedia

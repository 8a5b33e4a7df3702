import DirectMedia.Lib.Ledger
import DirectMedia.Lib.Lts

set_option autoImplicit false

/-! # The resources of a player

`ResourceRequestor` keeps the text of what the resource manager has granted in `acquiredResource_`
and gives it back with `release`. Four operations touch this text. `policyActionHandler` releases it
after `cb_`, the `unload` of the player, which may have released it already; it does not look at it
again and does not clear it.

What the manager grants is named by the text that `parseResources` makes of the response; a response
that cannot be read is a grant without a name.
-/

namespace DirectMedia

/-- The library `pbnjson`, as far as responses go: parsing one, with the entries of its key
`resources` if there is one, and writing entries as a text, which is never empty. -/
structure Pbnjson where
  parse : String → Option (Option (List (String × Int)))
  toText : List (String × Int) → Option String
  toText_ne : ∀ {entries text}, toText entries = some text → text ≠ ""

/-- `ResourceRequestor`, as far as resources are concerned. -/
structure ResourceRequestor where
  acquiredResource : String := ""
  allowPolicy : Bool := true
  deriving DecidableEq, Repr

/-- What the resource manager grants and takes back. -/
abbrev ResourceEntry := Ledger.Entry (Option String)

namespace ResourceRequestor

/-- `parsePortInformation`; `none` is an exception. -/
def parsePortInformation (json : Pbnjson) (payload : String) : Option (List (String × Int)) :=
  (json.parse payload).join

/-- `parseResources`; `none` is an exception. -/
def parseResources (json : Pbnjson) (payload : String) : Option String := do
  let entries ← (json.parse payload).join
  json.toText entries

/-- `acquireResources`: what it returns, the ports of `resourceMMap`, the requestor after it and the
entries. `payload` is the request, if it could be written; `answer` is what `acquire` returns. -/
def acquireResources (json : Pbnjson) (payload : Option String) (answer : Bool × String)
    (r : ResourceRequestor) :
    Bool × List (String × Int) × ResourceRequestor × List ResourceEntry :=
  match payload with
  | none => (false, [], r, [])
  | some _ =>
      let (granted, response) := answer
      if granted then
        -- granted, also where the response cannot be read below
        let entry := .granted (parseResources json response)
        match parsePortInformation json response with
        | none => (false, [], r, [entry])
        | some ports =>
            match parseResources json response with
            | none => (false, ports, r, [entry])
            | some resources => (true, ports, { r with acquiredResource := resources }, [entry])
      else (false, [], r, [])

/-- `umsRMC_->release(acquiredResource_)`. -/
def release (ok : Bool) (r : ResourceRequestor) : ResourceEntry :=
  .released (some r.acquiredResource) ok

/-- `releaseResource`. -/
def releaseResource (ok : Bool) (r : ResourceRequestor) :
    Bool × ResourceRequestor × List ResourceEntry :=
  if r.acquiredResource = "" then (true, r, [])
  else if ok then (true, { r with acquiredResource := "" }, [r.release true])
  else (false, r, [r.release false])

/-- `cb_`: the `unload` of the player, if it gets to `releaseResource`, with the answer there. -/
def callback (reached : Option Bool) (r : ResourceRequestor) :
    ResourceRequestor × List ResourceEntry :=
  match reached with
  | none => (r, [])
  | some ok => (r.releaseResource ok).2

/-- `policyActionHandler`. -/
def policyActionHandler (reached : Option Bool) (ok : Bool) (r : ResourceRequestor) :
    Bool × ResourceRequestor × List ResourceEntry :=
  if r.allowPolicy then
    let (r, entries) := r.callback reached
    -- what is recorded after the callback is released, be it empty, and stays recorded
    if ok then (r.allowPolicy, r, entries ++ [r.release true])
    else (false, r, entries ++ [r.release false])
  else (r.allowPolicy, r, [])

/-- `~ResourceRequestor`, which does not look at the answer. -/
def destroy (ok : Bool) (r : ResourceRequestor) : ResourceRequestor × List ResourceEntry :=
  if r.acquiredResource ≠ "" then ({ r with acquiredResource := "" }, [r.release ok]) else (r, [])

/-- The name that `acquiredResource_` records, if any. -/
def kept (r : ResourceRequestor) : Option (Option String) :=
  if r.acquiredResource = "" then none else some (some r.acquiredResource)

end ResourceRequestor

/-! ## Runs -/

/-- The calls, with the answers of the resource manager. -/
inductive ResourceAct where
  | acquireResources (payload : Option String) (answer : Bool × String)
  | releaseResource (ok : Bool)
  | policyAction (reached : Option Bool) (ok : Bool)
  | allowPolicyAction (allow : Bool)
  | destroy (ok : Bool)
  deriving DecidableEq, Repr

/-- A requestor, whether it is still there, and what the resource manager has granted and taken
back so far. -/
structure ResourceSession where
  requestor : ResourceRequestor := {}
  alive : Bool := true
  log : List ResourceEntry := []
  deriving DecidableEq, Repr

namespace ResourceSession

/-- The requestor after a call. -/
def call (json : Pbnjson) (r : ResourceRequestor) :
    ResourceAct → ResourceRequestor × List ResourceEntry
  | .acquireResources payload answer => (r.acquireResources json payload answer).2.2
  | .releaseResource ok => (r.releaseResource ok).2
  | .policyAction reached ok => (r.policyActionHandler reached ok).2
  | .allowPolicyAction allow => ({ r with allowPolicy := allow }, [])
  | .destroy ok => r.destroy ok

/-- One call; there is none after the destructor. -/
def step (json : Pbnjson) (x : ResourceSession) (a : ResourceAct) : Option ResourceSession :=
  if x.alive then
    some
      { requestor := (call json x.requestor a).1
        alive := match a with
          | .destroy _ => false
          | _ => true
        log := x.log ++ (call json x.requestor a).2 }
  else none

/-- What was granted has been released as often as it was granted or is recorded, and every release
was of something granted that was not released yet, by its text. -/
structure InOrder (x : ResourceSession) : Prop where
  accounted : Ledger.Accounted x.log x.requestor.kept
  named : ∀ ok, .released (some "") ok ∉ x.log

/-- Each call leaves the accounts in order. -/
def LeavesInOrder (json : Pbnjson) (x : ResourceSession) (a : ResourceAct) : Prop :=
  ∀ y, x.step json a = some y → y.InOrder

/-- The calls that leave the accounts in order. A grant must be readable, with nothing granted
before that is not released; `releaseResource`, an allowed policy action and the destructor must not
find a record of what has been released; the policy action must find a record, and the `unload` it
calls must not release it; the release of the destructor must succeed. -/
def Careful (json : Pbnjson) (x : ResourceSession) (a : ResourceAct) : Prop :=
  x.alive = true → match a with
  | .acquireResources payload answer => payload.isSome = true → answer.1 = true →
      (ResourceRequestor.parseResources json answer.2).isSome = true ∧ Ledger.Settled x.log
  | .releaseResource _ => x.requestor.acquiredResource ≠ "" → ¬ Ledger.Settled x.log
  | .policyAction reached _ => x.requestor.allowPolicy = true →
      ¬ Ledger.Settled x.log ∧ reached ≠ some true
  | .allowPolicyAction _ => True
  | .destroy ok => x.requestor.acquiredResource ≠ "" → ¬ Ledger.Settled x.log ∧ ok = true

/-! ## One call -/

variable {json : Pbnjson} {x : ResourceSession}

theorem kept_of_empty {r : ResourceRequestor} (h : r.acquiredResource = "") : r.kept = none :=
  if_pos h

theorem kept_of_text {r : ResourceRequestor} (h : r.acquiredResource ≠ "") :
    r.kept = some (some r.acquiredResource) :=
  if_neg h

theorem InOrder.unchanged (h : x.InOrder) {y : ResourceSession}
    (hr : y.requestor.kept = x.requestor.kept) (hlog : y.log = x.log) : y.InOrder := by
  refine ⟨?_, ?_⟩
  · rw [hr, hlog]
    exact h.accounted
  · rw [hlog]
    exact h.named

/-- More entries, none of them a release of the empty text. -/
theorem InOrder.concat (h : x.InOrder) {entries : List ResourceEntry}
    (hnamed : ∀ ok, .released (some "") ok ∉ entries) {r : ResourceRequestor} {alive : Bool} :
    (⟨r, alive, x.log ++ entries⟩ : ResourceSession).InOrder ↔
      Ledger.Accounted (x.log ++ entries) r.kept := by
  refine ⟨fun hafter => hafter.accounted, fun hafter => ⟨hafter, fun ok hmem => ?_⟩⟩
  rcases List.mem_append.mp hmem with hmem | hmem
  · exact h.named ok hmem
  · exact hnamed ok hmem

theorem parseResources_ne {response text : String}
    (h : ResourceRequestor.parseResources json response = some text) : text ≠ "" := by
  obtain ⟨entries, -, htext⟩ := Option.bind_eq_some_iff.mp h
  exact json.toText_ne htext

/-- A response that `parseResources` can read can be read by `parsePortInformation`. -/
theorem acquire_read {payload response text : String} (r : ResourceRequestor)
    (h : ResourceRequestor.parseResources json response = some text) :
    (r.acquireResources json (some payload) (true, response)).2.2 =
      ({ r with acquiredResource := text }, [.granted (some text)]) := by
  obtain ⟨entries, hentries, -⟩ := Option.bind_eq_some_iff.mp h
  have hports : ResourceRequestor.parsePortInformation json response = some entries := hentries
  simp only [ResourceRequestor.acquireResources, if_true, hports, h]

theorem acquire_unread {payload response : String} (r : ResourceRequestor)
    (h : ResourceRequestor.parseResources json response = none) :
    (r.acquireResources json (some payload) (true, response)).2.2 = (r, [.granted none]) := by
  simp only [ResourceRequestor.acquireResources, if_true, h]
  cases ResourceRequestor.parsePortInformation json response with
  | none => rfl
  | some ports => rfl

/-- The session after a call, before the destructor. -/
theorem leavesInOrder_alive (halive : x.alive = true) (a : ResourceAct) :
    x.LeavesInOrder json a ↔
      InOrder ⟨(call json x.requestor a).1, match a with
        | .destroy _ => false
        | _ => true, x.log ++ (call json x.requestor a).2⟩ := by
  unfold LeavesInOrder step
  rw [if_pos halive]
  exact ⟨fun h => h _ rfl, fun h y hy => Option.some.inj hy ▸ h⟩

theorem leaves_acquire (h : x.InOrder) (halive : x.alive = true) (payload : Option String)
    (answer : Bool × String) :
    x.LeavesInOrder json (.acquireResources payload answer) ↔
      (payload.isSome = true → answer.1 = true →
        (ResourceRequestor.parseResources json answer.2).isSome = true ∧ Ledger.Settled x.log) := by
  rw [leavesInOrder_alive halive]
  obtain ⟨granted, response⟩ := answer
  cases payload with
  | none => exact iff_of_true (h.unchanged rfl (List.append_nil _)) fun hnone => by cases hnone
  | some text =>
      cases granted with
      | false => exact iff_of_true (h.unchanged rfl (List.append_nil _)) fun _ hno => by cases hno
      | true =>
          refine Iff.trans ?_ ⟨fun h _ _ => h, fun h => h rfl rfl⟩
          show InOrder
            ⟨(x.requestor.acquireResources json (some text) (true, response)).2.2.1, true,
              x.log ++ (x.requestor.acquireResources json (some text) (true, response)).2.2.2⟩ ↔ _
          cases hread : ResourceRequestor.parseResources json response with
          | none =>
              -- granted and not recorded, so nothing will release it
              have hkept : x.requestor.kept ≠ some none := by
                unfold ResourceRequestor.kept
                split
                · simp
                · simp
              rw [acquire_unread _ hread, h.concat (by simp)]
              exact iff_of_false (Ledger.not_accounted_grant h.accounted hkept) fun hno => by
                cases hno.1
          | some resources =>
              -- the record is overwritten
              have hkept :
                  ResourceRequestor.kept { x.requestor with acquiredResource := resources } =
                    some (some resources) :=
                kept_of_text (parseResources_ne hread)
              rw [acquire_read _ hread, h.concat (by simp), hkept,
                Ledger.accounted_grant h.accounted]
              exact (and_iff_right rfl).symm

theorem release_named {r : ResourceRequestor} (h : r.acquiredResource ≠ "") (ok : Bool) :
    ∀ ok', .released (some "") ok' ∉ [r.release ok] := by
  intro ok' hmem
  have heq := List.mem_singleton.mp hmem
  simp only [ResourceRequestor.release, Ledger.Entry.released.injEq, Option.some.injEq] at heq
  exact h heq.1.symm

theorem leaves_release (h : x.InOrder) (halive : x.alive = true) (ok : Bool) :
    x.LeavesInOrder json (.releaseResource ok) ↔
      (x.requestor.acquiredResource ≠ "" → ¬ Ledger.Settled x.log) := by
  rw [leavesInOrder_alive halive]
  show InOrder ⟨(x.requestor.releaseResource ok).2.1, true,
    x.log ++ (x.requestor.releaseResource ok).2.2⟩ ↔ _
  unfold ResourceRequestor.releaseResource
  by_cases hempty : x.requestor.acquiredResource = ""
  · rw [if_pos hempty]
    exact iff_of_true (h.unchanged rfl (List.append_nil _)) fun hne => absurd hempty hne
  have hbefore := h.accounted
  rw [kept_of_text hempty] at hbefore
  rw [if_neg hempty, forall_prop_of_true hempty]
  cases ok with
  | true =>
      rw [if_pos rfl, h.concat (release_named hempty true), kept_of_empty rfl]
      exact (Ledger.accounted_release hbefore true (.inr rfl)).trans (and_iff_left fun _ => rfl)
  | false =>
      rw [if_neg (by decide), h.concat (release_named hempty false), kept_of_text hempty]
      exact (Ledger.accounted_release hbefore false (.inl rfl)).trans
        (and_iff_left fun h => by cases h)

theorem leaves_destroy (h : x.InOrder) (halive : x.alive = true) (ok : Bool) :
    x.LeavesInOrder json (.destroy ok) ↔
      (x.requestor.acquiredResource ≠ "" → ¬ Ledger.Settled x.log ∧ ok = true) := by
  rw [leavesInOrder_alive halive]
  show InOrder ⟨(x.requestor.destroy ok).1, false, x.log ++ (x.requestor.destroy ok).2⟩ ↔ _
  unfold ResourceRequestor.destroy
  by_cases hempty : x.requestor.acquiredResource = ""
  · rw [if_neg (not_not.mpr hempty)]
    exact iff_of_true (h.unchanged rfl (List.append_nil _)) fun hne => absurd hempty hne
  have hbefore := h.accounted
  rw [kept_of_text hempty] at hbefore
  rw [if_pos hempty, forall_prop_of_true hempty, h.concat (release_named hempty ok),
    kept_of_empty rfl]
  exact (Ledger.accounted_release hbefore ok (.inr rfl)).trans
    (and_congr_right fun _ => ⟨fun h => h rfl, fun h _ => h⟩)

/-- An allowed policy action: `unload`, and a release of what is recorded by then. -/
theorem policyAction_allowed {r : ResourceRequestor} (h : r.allowPolicy = true)
    (reached : Option Bool) (ok : Bool) :
    (r.policyActionHandler reached ok).2 =
      ((r.callback reached).1, (r.callback reached).2 ++ [(r.callback reached).1.release ok]) := by
  unfold ResourceRequestor.policyActionHandler
  rw [if_pos h]
  cases ok with
  | true => rfl
  | false => rfl

theorem leaves_policyAction (h : x.InOrder) (halive : x.alive = true) (reached : Option Bool)
    (ok : Bool) :
    x.LeavesInOrder json (.policyAction reached ok) ↔
      (x.requestor.allowPolicy = true → ¬ Ledger.Settled x.log ∧ reached ≠ some true) := by
  rw [leavesInOrder_alive halive]
  show InOrder ⟨(x.requestor.policyActionHandler reached ok).2.1, true,
    x.log ++ (x.requestor.policyActionHandler reached ok).2.2⟩ ↔ _
  by_cases hallow : x.requestor.allowPolicy = true
  case neg =>
    unfold ResourceRequestor.policyActionHandler
    rw [if_neg hallow]
    exact iff_of_true (h.unchanged rfl (List.append_nil _)) fun hyes => absurd hyes hallow
  rw [policyAction_allowed hallow, forall_prop_of_true hallow]
  by_cases hempty : x.requestor.acquiredResource = ""
  · -- nothing is recorded: the handler releases the empty text
    have hcallback : x.requestor.callback reached = (x.requestor, []) := by
      unfold ResourceRequestor.callback ResourceRequestor.releaseResource
      cases reached with
      | none => rfl
      | some ok => exact congrArg Prod.snd (if_pos hempty)
    have hsettled : Ledger.Settled x.log := by
      have hbefore := h.accounted
      rw [kept_of_empty hempty] at hbefore
      exact hbefore.settled
    rw [hcallback, List.nil_append]
    exact iff_of_false (fun hafter => Ledger.not_accounted_release hsettled _ _ _ hafter.accounted)
      fun hno => hno.1 hsettled
  have hbefore := h.accounted
  rw [kept_of_text hempty] at hbefore
  cases reached with
  | none =>
      -- `unload` does not get to `releaseResource`
      show InOrder ⟨x.requestor, true, x.log ++ [x.requestor.release ok]⟩ ↔ _
      rw [h.concat (release_named hempty ok), kept_of_text hempty]
      refine (Ledger.accounted_release hbefore ok (.inl rfl)).trans ?_
      exact and_congr_right fun _ => iff_of_true (fun h => by cases h) (by simp)
  | some released =>
      cases released with
      | true =>
          -- `unload` has released and cleared the record, and the handler releases the empty text
          have hcallback : x.requestor.callback (some true) =
              ({ x.requestor with acquiredResource := "" }, [x.requestor.release true]) := by
            unfold ResourceRequestor.callback ResourceRequestor.releaseResource
            exact congrArg Prod.snd ((if_neg hempty).trans (if_pos rfl))
          rw [hcallback]
          refine iff_of_false (fun hafter => ?_) fun hno => hno.2 rfl
          have haccounted := hafter.accounted
          rw [← List.append_assoc] at haccounted
          have howed := (Ledger.owed_released.mp haccounted.owed).1
          have hfirst : Ledger.Accounted (x.log ++ [x.requestor.release true]) none := by
            refine (Ledger.accounted_release hbefore true (.inr rfl)).mpr
              ⟨fun hsettled => ?_, fun _ => rfl⟩
            have hout := (Ledger.owed_released.mp howed).2
            rw [hsettled] at hout
            exact lt_irrefl _ hout
          exact Ledger.not_accounted_release hfirst.settled _ _ _ haccounted
      | false =>
          -- the release of `unload` fails, and the handler tries again
          have hcallback : x.requestor.callback (some false) =
              (x.requestor, [x.requestor.release false]) := by
            unfold ResourceRequestor.callback ResourceRequestor.releaseResource
            exact congrArg Prod.snd ((if_neg hempty).trans (if_neg (by decide)))
          have hnamed : ∀ ok', .released (some "") ok' ∉
              [x.requestor.release false] ++ [x.requestor.release ok] := by
            intro ok' hmem
            rcases List.mem_append.mp hmem with hmem | hmem
            · exact release_named hempty false ok' hmem
            · exact release_named hempty ok ok' hmem
          rw [hcallback, h.concat hnamed, ← List.append_assoc, kept_of_text hempty]
          exact (Ledger.accounted_releaseAgain hbefore ok).trans (and_iff_left (by simp)).symm

theorem leavesInOrder_iff (h : x.InOrder) (a : ResourceAct) :
    x.LeavesInOrder json a ↔ x.Careful json a := by
  by_cases halive : x.alive = true
  case neg =>
    refine iff_of_true (fun y hy => ?_) fun hyes => absurd hyes halive
    unfold step at hy
    rw [if_neg halive] at hy
    cases hy
  unfold Careful
  rw [forall_prop_of_true halive]
  cases a with
  | acquireResources payload answer => exact leaves_acquire h halive payload answer
  | releaseResource ok => exact leaves_release h halive ok
  | policyAction reached ok => exact leaves_policyAction h halive reached ok
  | allowPolicyAction allow =>
      rw [leavesInOrder_alive halive]
      exact iff_of_true (h.unchanged rfl (List.append_nil _)) trivial
  | destroy ok => exact leaves_destroy h halive ok

theorem inOrder_init : ({} : ResourceSession).InOrder :=
  ⟨⟨Ledger.owed_nil, fun _ h => (by cases h)⟩, fun _ h => (by cases h)⟩

end ResourceSession

/-- **The accounts with the resource manager.** In a run from a new requestor, every call leaves
what was granted recorded or released once, and releases only what is granted and not released yet,
exactly if every call is one of those that `Careful` describes. -/
theorem resources_accounted_iff (json : Pbnjson) (acts : List ResourceAct) :
    Lts.Along (ResourceSession.step json) (ResourceSession.LeavesInOrder json) {} acts ↔
      Lts.Along (ResourceSession.step json) (ResourceSession.Careful json) {} acts := by
  refine Lts.Along.congr (I := ResourceSession.InOrder) (L := fun _ => True)
    (fun x a _ hx => ResourceSession.leavesInOrder_iff hx a) (fun x a y _ ha hx hy => ?_)
    (fun _ _ => trivial) ResourceSession.inOrder_init
  exact (ResourceSession.leavesInOrder_iff hx a).mpr ha y hy

/-- The text of an entry. -/
def entryText (entry : String × Int) : String :=
  "\x7b\"resource\":\"" ++ entry.1 ++ "\",\"index\":" ++ toString entry.2 ++ "\x7d"

/-- A response that grants one decoder. -/
def oneDecoder : String := "\x7b\"resources\":[" ++ entryText ("VDEC", 0) ++ "]\x7d"

/-- `pbnjson` on that response. -/
def oneDecoderJson : Pbnjson where
  parse response := if response = oneDecoder then some (some [("VDEC", 0)]) else none
  toText entries := some ("[" ++ ",".intercalate (entries.map entryText) ++ "]")
  toText_ne := by
    rintro entries text h rfl
    have hlength := congrArg String.length (Option.some.inj h)
    simp at hlength

/-- A policy action whose `unload` releases the resources: the handler then releases the empty
text. -/
theorem resources_accounted_fails :
    ¬ Lts.Along (ResourceSession.step oneDecoderJson)
      (ResourceSession.LeavesInOrder oneDecoderJson) {}
      [.acquireResources (some "[]") (true, oneDecoder), .policyAction (some true) true] := by
  intro h
  have hacquired := h.1 _ rfl
  have hpolicy := (h.2 _ rfl).1
  have hcareful := (ResourceSession.leavesInOrder_iff hacquired _).mp hpolicy
  exact (hcareful rfl (by rfl)).2 rfl

end DirectMedia

import DirectMedia.Omx.Client

set_option autoImplicit false

/-! # Who owns a buffer

A buffer is the component's from an accepted submission until a done callback has returned it, and
its status says so at every moment. A submission goes through the check of that status, so that
no buffer is submitted twice; a callback goes through the same check by the place named in the
header, which for a buffer of a port is its own. So a refused submission and a callback for a
buffer that the component does not hold leave everything as it is (`buffers_owned`).
-/

namespace DirectMedia

/-! ## What the component holds -/

/-- Whether the component holds a buffer after an event. -/
def BufferEvent.holds (buf : Nat) (held : Bool) : BufferEvent → Bool
  | .submitted b accepted => held || (accepted && decide (b = buf))
  | .returned b => held && decide (b ≠ buf)
  | .notified _ _ _ => held

/-- The last submission of the buffer that was accepted has not been returned. -/
def outstanding (log : List BufferEvent) (buf : Nat) : Bool :=
  log.foldl (BufferEvent.holds buf) false

theorem outstanding_append (log es : List BufferEvent) (buf : Nat) :
    outstanding (log ++ es) buf = es.foldl (BufferEvent.holds buf) (outstanding log buf) :=
  List.foldl_append

/-- A buffer of one of the ports. -/
def OmxClient.Has (c : OmxClient) (buf : Nat) : Prop :=
  ∃ port bufs, c.portBuffers port = some bufs ∧ buf ∈ bufs

/-- What holds of every port between two steps. -/
structure BufferSession.Owned (x : BufferSession) : Prop where
  status : ∀ buf, x.client.Has buf →
    (x.client.getBufferStatus buf = some .ownedByComponent ↔ outstanding x.log buf = true)
  counts : ∀ port bufs, x.client.portBuffers port = some bufs →
    ∃ used, x.client.getUsedBufferCount port = some used ∧
      x.client.getFreeBufferCount port + used = bufs.length
  free : ∀ port bufs, x.client.portBuffers port = some bufs →
    (x.client.getFreeBufferIndex port = some (-1) ↔ x.client.getFreeBufferCount port = 0)

/-- What a step from `x` to `y` that shows `es` does not do: submit a buffer that the component
holds, or change a status when nothing was accepted and nothing came back, or when a done callback
is for a buffer that the component does not hold. -/
structure BufferSession.Respects (x y : BufferSession) (a : BufferAct) (es : List BufferEvent) :
    Prop where
  log : y.log = x.log ++ es
  single : ∀ buf accepted, .submitted buf accepted ∈ es → outstanding x.log buf = false
  refused : (∀ buf, .submitted buf true ∉ es ∧ .returned buf ∉ es) →
    ∀ buf, x.client.Has buf → y.client.getBufferStatus buf = x.client.getBufferStatus buf
  spurious : ∀ buf, a = .emptyBufferDone buf ∨ a = .fillBufferDone buf → x.client.Has buf →
    outstanding x.log buf = false → y = x

/-- The step respects the owners of the buffers. -/
def RespectsOwners (x : BufferSession) (a : BufferAct) : Prop :=
  ∀ y, x.step a = some y → ∃ es, x.Respects y a es

namespace OmxClient

/-! ## What the operations see of a client -/

/-- The place that the header at an address names. -/
def getPlace (c : OmxClient) (buf : Nat) : Option (Int × Int) :=
  c.headers[buf]?.map fun h => (h.portIndex, h.bufferIndex)

/-- The buffers of each port and the places of the headers. -/
def places (c : OmxClient) : (Int → Option (List Nat)) × (Nat → Option (Int × Int)) :=
  (c.portBuffers, c.getPlace)

/-- The write leaves the status and the place of a header alone. -/
structure Neutral (f : BufferHeader → BufferHeader) : Prop where
  status : ∀ h, (f h).status = h.status
  port : ∀ h, (f h).portIndex = h.portIndex
  index : ∀ h, (f h).bufferIndex = h.bufferIndex

theorem map_onHeader {β : Type} {g : BufferHeader → β} {f : BufferHeader → BufferHeader}
    (h : ∀ header, g (f header) = g header) (c : OmxClient) (buf b : Nat) :
    (c.onHeader buf f).headers[b]?.map g = c.headers[b]?.map g := by
  unfold onHeader
  rw [List.getElem?_modify]
  by_cases hb : buf = b
  · cases c.headers[b]? with
    | none => simp
    | some header => simp [hb, h]
  · simp [hb]

theorem places_onHeader {f : BufferHeader → BufferHeader} (hf : ∀ h, (f h).portIndex = h.portIndex)
    (hf' : ∀ h, (f h).bufferIndex = h.bufferIndex) (c : OmxClient) (buf : Nat) :
    (c.onHeader buf f).places = c.places := by
  refine Prod.ext rfl (funext fun b => ?_)
  exact map_onHeader (fun h => by rw [hf, hf']) c buf b

theorem getBufferStatus_onHeader {f : BufferHeader → BufferHeader}
    (hf : ∀ h, (f h).status = h.status) (c : OmxClient) (buf : Nat) :
    (c.onHeader buf f).getBufferStatus = c.getBufferStatus :=
  funext fun b => map_onHeader hf c buf b

theorem places_setBufferStatus (c : OmxClient) (buf : Nat) (status : BufferStatus) :
    (c.setBufferStatus buf status).places = c.places := by
  unfold setBufferStatus
  exact places_onHeader (by simp) (by simp) c buf

theorem getBufferStatus_setBufferStatus (c : OmxClient) {buf : Nat}
    (hbuf : (c.getBufferStatus buf).isSome) (status : BufferStatus) :
    (c.setBufferStatus buf status).getBufferStatus =
      Function.update c.getBufferStatus buf (some status) := by
  funext b
  unfold setBufferStatus onHeader getBufferStatus
  rw [List.getElem?_modify]
  by_cases hb : b = buf
  · subst hb
    unfold getBufferStatus at hbuf
    cases hheader : c.headers[b]? with
    | none => simp [hheader] at hbuf
    | some header => simp
  · simp [Function.update_of_ne hb, Ne.symm hb]

theorem isFreeBufferIndex_congr {c d : OmxClient} (hplaces : d.places = c.places)
    (hstatus : d.getBufferStatus = c.getBufferStatus) (port index : Int) :
    d.isFreeBufferIndex port index = c.isFreeBufferIndex port index := by
  have hbufs : d.portBuffers = c.portBuffers := congrArg Prod.fst hplaces
  simp only [isFreeBufferIndex, getBuffer, hbufs, hstatus]

/-! ## What a step can do -/

/-- What a call or callback does to the statuses: nothing, while OMX may have refused a free buffer;
or it gives a free buffer to the component; or it takes the buffer of a header back, after the check
of the place the header names. -/
inductive Change (c d : OmxClient) (es : List BufferEvent) : Prop
  | kept (places : d.places = c.places) (status : d.getBufferStatus = c.getBufferStatus)
      (refused : ∀ e ∈ es, ∃ buf, e = .submitted buf false ∧
        c.getBufferStatus buf = some .ownedByClient)
  | taken (buf : Nat) (free : c.getBufferStatus buf = some .ownedByClient)
      (places : d.places = c.places)
      (status : d.getBufferStatus =
        Function.update c.getBufferStatus buf (some .ownedByComponent))
      (events : es = [.submitted buf true])
  | freed (buf : Nat) (place : Int × Int) (named : c.getPlace buf = some place)
      (checked : c.isFreeBufferIndex place.1 place.2 = some false) (places : d.places = c.places)
      (status : d.getBufferStatus = Function.update c.getBufferStatus buf (some .ownedByClient))
      (events : .returned buf ∈ es)
      (others : ∀ e ∈ es, e = .returned buf ∨ ∃ event data1 data2, e = .notified event data1 data2)

theorem Change.refl (c : OmxClient) : Change c c [] := .kept rfl rfl (by simp)

/-- After a write to a header that is neutral. -/
theorem Change.after_write {c d : OmxClient} {es : List BufferEvent}
    {f : BufferHeader → BufferHeader} (hf : Neutral f) (buf : Nat)
    (h : Change (c.onHeader buf f) d es) : Change c d es := by
  have hplaces := places_onHeader hf.port hf.index c buf
  have hstatus := getBufferStatus_onHeader hf.status c buf
  cases h with
  | kept places status refused =>
      exact .kept (places.trans hplaces) (status.trans hstatus) (by rwa [hstatus] at refused)
  | taken buf free places status events =>
      rw [hstatus] at free status
      exact .taken buf free (places.trans hplaces) status events
  | freed buf place named checked places status events others =>
      rw [hstatus] at status
      rw [isFreeBufferIndex_congr hplaces hstatus] at checked
      rw [show (c.onHeader _ f).getPlace = c.getPlace from congrArg Prod.snd hplaces] at named
      exact .freed buf place named checked (places.trans hplaces) status events others

theorem submitBuffer_change {c : OmxClient} {port index ret : Int}
    {prepare : BufferHeader → BufferHeader} (hprepare : Neutral prepare) {r : Outcome}
    (h : c.submitBuffer port index prepare ret = some r) : Change c r.2.1 r.2.2 := by
  unfold submitBuffer at h
  split at h
  case h_1 =>
    obtain rfl := Option.some.inj h
    exact .refl c
  case h_2 buf hbuf =>
    obtain ⟨free, hfree, rfl⟩ := Option.map_eq_some_iff.mp h
    cases free with
    | false => exact .refl c
    | true =>
        have hclient : c.getBufferStatus buf = some .ownedByClient := by
          simpa [isFreeBufferIndex, hbuf, Option.bind_eq_some_iff] using hfree
        have hsome : ∀ status, (((c.onHeader buf prepare).setBufferStatus buf
            status).getBufferStatus buf).isSome := by
          intro status
          rw [getBufferStatus_setBufferStatus]
          · simp
          · rw [getBufferStatus_onHeader hprepare.status, hclient]
            rfl
        refine Change.after_write hprepare buf ?_
        have hclient' : (c.onHeader buf prepare).getBufferStatus buf = some .ownedByClient := by
          rw [getBufferStatus_onHeader hprepare.status, hclient]
        generalize c.onHeader buf prepare = d at hclient' hsome
        have htaken := getBufferStatus_setBufferStatus d (by rw [hclient']; rfl) .ownedByComponent
        by_cases hret : ret ≠ 0
        · -- set and set back
          rw [if_pos rfl, if_pos hret]
          refine .kept ?_ ?_ ?_
          · exact (places_setBufferStatus _ _ _).trans (places_setBufferStatus _ _ _)
          · rw [getBufferStatus_setBufferStatus _ (hsome _), htaken, Function.update_idem,
              ← hclient', Function.update_eq_self]
          · simpa using hclient'
        · rw [if_pos rfl, if_neg hret]
          exact .taken buf hclient' (places_setBufferStatus _ _ _) htaken rfl

theorem emptyBuffer_change {c : OmxClient} {port index ret : Int} {r : Outcome}
    (h : c.emptyBuffer port index ret = some r) : Change c r.2.1 r.2.2 := by
  refine submitBuffer_change ?_ h
  exact ⟨fun _ => rfl, fun _ => rfl, fun _ => rfl⟩

theorem fillBuffer_change {c : OmxClient} {port index ret : Int} {r : Outcome}
    (h : c.fillBuffer port index ret = some r) : Change c r.2.1 r.2.2 := by
  unfold fillBuffer at h
  refine submitBuffer_change ?_ h
  exact ⟨fun _ => rfl, fun _ => rfl, fun _ => rfl⟩

theorem writeAndEmpty_change {c : OmxClient} {port index ret : Int} {buf : Nat}
    {write : BufferHeader → BufferHeader} (hwrite : Neutral write) {r : Outcome}
    (h : c.writeAndEmpty port index buf write ret = some r) : Change c r.2.1 r.2.2 := by
  obtain ⟨r', hr', rfl⟩ := Option.map_eq_some_iff.mp h
  have hchange : Change (c.onHeader buf write) r'.2.1 r'.2.2 := emptyBuffer_change hr'
  exact Change.after_write hwrite buf hchange

theorem writeFree_change {c : OmxClient} {port ret : Int} {write : BufferHeader → BufferHeader}
    (hwrite : Neutral write) {r : Outcome} (h : c.writeFree port write ret = some r) :
    Change c r.2.1 r.2.2 := by
  obtain ⟨index, -, h⟩ := Option.bind_eq_some_iff.mp h
  split at h
  case isTrue =>
    obtain rfl := Option.some.inj h
    exact .refl c
  case isFalse =>
    split at h
    case h_1 =>
      obtain rfl := Option.some.inj h
      exact .refl c
    case h_2 => exact writeAndEmpty_change hwrite h

theorem fill_status (b : Buffer) (data : List UInt8) (pts : Int) (flags : BitVec 32) :
    (Port.fill b data pts flags).status = b.status := by
  unfold Port.fill
  split
  · rfl
  · rfl

theorem writeToFreeBuffer_change {c : OmxClient} {port : Int} {data : List UInt8} {pts : Int}
    {flags : BitVec 32} {ret : Int} {r : Outcome}
    (h : c.writeToFreeBuffer port data pts flags ret = some r) : Change c r.2.1 r.2.2 := by
  unfold writeToFreeBuffer at h
  refine writeFree_change ?_ h
  exact ⟨fun _ => fill_status _ _ _ _, fun _ => rfl, fun _ => rfl⟩

theorem writeToConfigBuffer_change {c : OmxClient} {port : Int} {data : List UInt8} {ret : Int}
    {r : Outcome} (h : c.writeToConfigBuffer port data ret = some r) : Change c r.2.1 r.2.2 := by
  unfold writeToConfigBuffer at h
  refine writeFree_change ?_ h
  exact ⟨fun _ => rfl, fun _ => rfl, fun _ => rfl⟩

theorem writeOwnersBuffer_change {c : OmxClient} {port index : Int} {owner : Option BufferHeader}
    {ret : Int} {r : Outcome} (h : c.writeOwnersBuffer port index owner ret = some r) :
    Change c r.2.1 r.2.2 := by
  unfold writeOwnersBuffer at h
  split at h
  case h_1 =>
    refine writeAndEmpty_change ?_ h
    exact ⟨fun _ => rfl, fun _ => rfl, fun _ => rfl⟩
  case h_2 =>
    obtain rfl := Option.some.inj h
    exact .refl c

theorem bufferDone_change {c : OmxClient} {buf : Nat}
    {events : BufferHeader → Bool → List BufferEvent}
    (hreturned : ∀ h enabled, .returned buf ∈ events h enabled)
    (hothers : ∀ h enabled, ∀ e ∈ events h enabled,
      e = .returned buf ∨ ∃ event data1 data2, e = .notified event data1 data2)
    {r : Outcome} (h : c.bufferDone buf events = some r) : Change c r.2.1 r.2.2 := by
  obtain ⟨header, hheader, h⟩ := Option.bind_eq_some_iff.mp h
  obtain ⟨free, hfree, h⟩ := Option.bind_eq_some_iff.mp h
  cases free with
  | true =>
      obtain rfl := Option.some.inj h
      exact .refl c
  | false =>
      obtain ⟨enabled, -, h⟩ := Option.bind_eq_some_iff.mp h
      obtain rfl := Option.some.inj h
      refine .freed buf (header.portIndex, header.bufferIndex) ?_ hfree
        (places_setBufferStatus c buf _) ?_ (hreturned _ _) (hothers _ _)
      · simp [getPlace, hheader]
      · exact getBufferStatus_setBufferStatus c (by simp [getBufferStatus, hheader]) _

theorem notify_events (c : OmxClient) (enabled : Bool) (event : ClientEvent) (data1 data2 : Int) :
    ∀ e ∈ c.notify enabled event data1 data2, e = .notified event data1 data2 := by
  unfold notify
  split
  · simp
  · simp

theorem emptyBufferDone_change {c : OmxClient} {buf : Nat} {r : Outcome}
    (h : c.emptyBufferDone buf = some r) : Change c r.2.1 r.2.2 := by
  refine bufferDone_change (fun _ _ => by simp) (fun header enabled e he => ?_) h
  rcases List.mem_append.mp he with he | he
  · exact .inr ⟨_, _, _, notify_events _ _ _ _ _ e he⟩
  · exact .inl (List.mem_singleton.mp he)

theorem fillBufferDone_change {c : OmxClient} {buf : Nat} {r : Outcome}
    (h : c.fillBufferDone buf = some r) : Change c r.2.1 r.2.2 := by
  refine bufferDone_change (fun _ _ => by simp) (fun header enabled e he => ?_) h
  rcases List.mem_cons.mp he with he | he
  · exact .inl he
  · exact .inr ⟨_, _, _, notify_events _ _ _ _ _ e he⟩

/-- A done callback for a buffer of a port that is free. -/
theorem bufferDone_spurious {c : OmxClient} {buf index : Nat} {port : Int}
    (hplace : c.getPlace buf = some (port, (index : Int)))
    (hbuf : c.getBuffer port index = some buf)
    (hfree : c.getBufferStatus buf = some .ownedByClient)
    (events : BufferHeader → Bool → List BufferEvent) :
    c.bufferDone buf events = some (omxErrorUndefined, c, []) := by
  obtain ⟨header, hheader, hnamed⟩ := Option.map_eq_some_iff.mp hplace
  obtain ⟨hport, hindex⟩ := Prod.mk.inj hnamed
  have hcheck : c.isFreeBufferIndex port index = some true := by
    simp [isFreeBufferIndex, hbuf, hfree]
  unfold bufferDone
  simp only [hheader, hport, hindex, hcheck, Option.bind_eq_bind, Option.bind_some, if_true]
  rfl

/-! ## Set-up -/

/-- New headers, free; they may be the buffers of a port from now on. -/
structure Grown (c d : OmxClient) (made : List BufferHeader) : Prop where
  free : ∀ h ∈ made, h.status = .ownedByClient
  headers : d.headers = c.headers ++ made
  bufs : d.portBuffers = c.portBuffers ∨ ∃ port, d = c.setUp port made ∧
    ∀ (i : Nat) (h : BufferHeader), made[i]? = some h →
      h.portIndex = port ∧ h.bufferIndex = (i : Int)

theorem Grown.old {c d : OmxClient} {made : List BufferHeader} (h : Grown c d made) {b : Nat}
    (hb : b < c.headers.length) : d.headers[b]? = c.headers[b]? := by
  rw [h.headers, List.getElem?_append_left hb]

theorem useHeaders_places (port : Int) (use : Nat → Int) (owners : List BufferHeader) :
    ∀ (index i : Nat) (h : BufferHeader), (useHeaders port use index owners).2[i]? = some h →
      h.status = .ownedByClient ∧ h.portIndex = port ∧
        h.bufferIndex = ((index + i : Nat) : Int) := by
  induction owners with
  | nil =>
      intro index i h hi
      simp [useHeaders] at hi
  | cons owner owners ih =>
      intro index i h hi
      unfold useHeaders at hi
      split at hi
      case isTrue => simp at hi
      case isFalse =>
        cases i with
        | zero =>
            obtain rfl := Option.some.inj hi
            exact ⟨rfl, rfl, rfl⟩
        | succ i =>
            obtain ⟨hstatus, hport, hindex⟩ := ih (index + 1) i h hi
            exact ⟨hstatus, hport, by rw [hindex]; omega⟩

theorem useHeaders_free (port : Int) (use : Nat → Int) (owners : List BufferHeader) :
    ∀ h ∈ (useHeaders port use 0 owners).2, h.status = .ownedByClient := by
  intro h hh
  obtain ⟨i, hi⟩ := List.mem_iff_getElem?.mp hh
  exact (useHeaders_places port use owners 0 i h hi).1

theorem allocateBuffer_grown (c : OmxClient) (port : Int) (allocLens : List Nat) (enable : Int) :
    (c.allocateBuffer port allocLens enable).2.2 = [] ∧
      ∃ headers, Grown c (c.allocateBuffer port allocLens enable).2.1 headers := by
  unfold allocateBuffer
  split
  case isTrue => exact ⟨rfl, [], by simp, by simp, .inl rfl⟩
  case isFalse =>
    refine ⟨rfl, allocLens.mapIdx (newHeader port), ?_, rfl, .inr ⟨port, rfl, ?_⟩⟩
    · intro h hh
      obtain ⟨i, hi, rfl⟩ := List.mem_mapIdx.mp hh
      rfl
    · intro i h hi
      rw [List.getElem?_mapIdx] at hi
      obtain ⟨n, -, rfl⟩ := Option.map_eq_some_iff.mp hi
      exact ⟨rfl, rfl⟩

theorem useBuffer_grown (c : OmxClient) (port : Int) (owners : Option (List BufferHeader))
    (enable : Int) (use : Nat → Int) :
    (c.useBuffer port owners enable use).2.2 = [] ∧
      ∃ headers, Grown c (c.useBuffer port owners enable use).2.1 headers := by
  have hnone : Grown c c [] := ⟨by simp, by simp, .inl rfl⟩
  unfold useBuffer
  cases owners with
  | none => exact ⟨rfl, [], hnone⟩
  | some owners =>
      dsimp only
      split
      case isTrue => exact ⟨rfl, [], hnone⟩
      case isFalse =>
        have hfree := useHeaders_free port use owners
        split
        case isTrue => exact ⟨rfl, _, hfree, rfl, .inl rfl⟩
        case isFalse =>
          refine ⟨rfl, _, hfree, rfl, .inr ⟨port, rfl, fun i h hi => ?_⟩⟩
          obtain ⟨-, hport, hindex⟩ := useHeaders_places port use owners 0 i h hi
          exact ⟨hport, by rw [hindex, Nat.zero_add]⟩

end OmxClient

/-! ## The invariant -/

/-- Every buffer of a port names its place, and the status of every header tells whether the
component holds it. -/
structure BufferSession.Consistent (x : BufferSession) : Prop where
  place : ∀ (port : Int) (bufs : List Nat) (i buf : Nat), x.client.portBuffers port = some bufs →
    bufs[i]? = some buf → x.client.getPlace buf = some (port, (i : Int))
  status : ∀ buf,
    x.client.getBufferStatus buf = some .ownedByComponent ↔ outstanding x.log buf = true

theorem foldl_refused {es : List BufferEvent} (h : ∀ e ∈ es, ∃ buf, e = .submitted buf false)
    (buf : Nat) (held : Bool) : es.foldl (BufferEvent.holds buf) held = held := by
  induction es generalizing held with
  | nil => rfl
  | cons e es ih =>
      obtain ⟨b, rfl⟩ := h e (by simp)
      rw [List.foldl_cons, ih fun e he => h e (by simp [he])]
      simp [BufferEvent.holds]

/-- Events that return one buffer and notify of it. -/
theorem foldl_returned {es : List BufferEvent} {buf : Nat}
    (h : ∀ e ∈ es, e = .returned buf ∨ ∃ event data1 data2, e = .notified event data1 data2)
    (b : Nat) (held : Bool) :
    es.foldl (BufferEvent.holds b) held = (held && decide (b = buf → .returned buf ∉ es)) := by
  induction es generalizing held with
  | nil => simp
  | cons e es ih =>
      rw [List.foldl_cons, ih fun e he => h e (by simp [he])]
      rcases h e (by simp) with rfl | ⟨event, data1, data2, rfl⟩
      · by_cases hb : b = buf
        · simp [BufferEvent.holds, hb]
        · simp [BufferEvent.holds, hb, Ne.symm hb]
      · simp [BufferEvent.holds]

namespace BufferSession

/-- A buffer of a port that the component does not hold is the client's. -/
theorem Consistent.free {x : BufferSession} (hx : x.Consistent) {buf : Nat}
    (hhas : x.client.Has buf) (hout : outstanding x.log buf = false) :
    x.client.getBufferStatus buf = some .ownedByClient := by
  obtain ⟨port, bufs, hbufs, hmem⟩ := hhas
  obtain ⟨i, hi⟩ := List.mem_iff_getElem?.mp hmem
  obtain ⟨header, hheader, -⟩ := Option.map_eq_some_iff.mp (hx.place port bufs i buf hbufs hi)
  have hstatus : x.client.getBufferStatus buf = some header.status := by
    simp [OmxClient.getBufferStatus, hheader]
  cases hcase : header.status with
  | ownedByClient => rw [hstatus, hcase]
  | ownedByComponent =>
      rw [hcase] at hstatus
      rw [(hx.status buf).mp hstatus] at hout
      cases hout

theorem Consistent.change {x y : BufferSession} {es : List BufferEvent} (hx : x.Consistent)
    (h : OmxClient.Change x.client y.client es) (hlog : y.log = x.log ++ es) : y.Consistent := by
  have hplace : y.client.places = x.client.places →
      ∀ (port : Int) (bufs : List Nat) (i buf : Nat), y.client.portBuffers port = some bufs →
        bufs[i]? = some buf → y.client.getPlace buf = some (port, (i : Int)) := by
    intro hplaces port bufs i buf hbufs hi
    rw [show y.client.portBuffers = x.client.portBuffers from congrArg Prod.fst hplaces] at hbufs
    rw [show y.client.getPlace = x.client.getPlace from congrArg Prod.snd hplaces]
    exact hx.place port bufs i buf hbufs hi
  cases h with
  | kept places status refused =>
      refine ⟨hplace places, fun b => ?_⟩
      have hfold := foldl_refused fun e he => (refused e he).imp fun _ h => h.1
      rw [hlog, outstanding_append, hfold, status]
      exact hx.status b
  | taken buf free places status events =>
      refine ⟨hplace places, fun b => ?_⟩
      rw [hlog, outstanding_append, events, status]
      by_cases hb : b = buf
      · simp [hb, BufferEvent.holds]
      · simpa [Function.update_of_ne hb, BufferEvent.holds, Ne.symm hb] using hx.status b
  | freed buf place named checked places status events others =>
      refine ⟨hplace places, fun b => ?_⟩
      rw [hlog, outstanding_append, foldl_returned others, status]
      by_cases hb : b = buf
      · simp [hb, events]
      · simpa [Function.update_of_ne hb, hb] using hx.status b

theorem Consistent.grown {x y : BufferSession} {made : List BufferHeader} (hx : x.Consistent)
    (h : OmxClient.Grown x.client y.client made) (hlog : y.log = x.log) : y.Consistent := by
  have hold := fun b => h.old (b := b)
  obtain ⟨hfree, hheaders, hbufs⟩ := h
  -- headers are only added
  have hkeep : ∀ {b : Nat} {place : Int × Int}, x.client.getPlace b = some place →
      y.client.getPlace b = some place := by
    intro b place hplace
    obtain ⟨header, hheader, -⟩ := Option.map_eq_some_iff.mp hplace
    rw [OmxClient.getPlace, hold b (List.getElem?_eq_some_iff.mp hheader).1]
    exact hplace
  refine ⟨fun port bufs i buf hport hi => ?_, fun b => ?_⟩
  · rcases hbufs with hsame | ⟨q, hset, hnames⟩
    · exact hkeep (hx.place port bufs i buf (hsame ▸ hport) hi)
    · have hupdate : y.client.portBuffers = Function.update x.client.portBuffers q
          (some (List.range' x.client.headers.length made.length)) := by
        rw [hset]
        rfl
      rw [hupdate] at hport
      by_cases hq : port = q
      · subst hq
        -- the buffers of the port are the new headers, which name their places
        rw [Function.update_self, Option.some.injEq] at hport
        subst hport
        have hlt : i < made.length := by simpa using (List.getElem?_eq_some_iff.mp hi).1
        rw [List.getElem?_range' hlt, Nat.one_mul, Option.some.injEq] at hi
        subst hi
        obtain ⟨hname, hindex⟩ := hnames i made[i] (List.getElem?_eq_getElem hlt)
        have hnew : y.client.headers[x.client.headers.length + i]? = some made[i] := by
          calc y.client.headers[x.client.headers.length + i]?
              = made[x.client.headers.length + i - x.client.headers.length]? := by
                rw [hheaders, List.getElem?_append_right (by omega)]
            _ = made[i]? := by rw [Nat.add_sub_cancel_left]
            _ = some made[i] := List.getElem?_eq_getElem hlt
        rw [OmxClient.getPlace, hnew, Option.map_some, hname, hindex]
      · rw [Function.update_of_ne hq] at hport
        exact hkeep (hx.place port bufs i buf hport hi)
  · rw [hlog, ← hx.status b]
    by_cases hb : b < x.client.headers.length
    · rw [OmxClient.getBufferStatus, OmxClient.getBufferStatus, hold b hb]
    · -- a new header is free, and nothing is outstanding at its address
      refine iff_of_false (fun h => ?_) fun h => ?_
      · obtain ⟨header, hheader, hstatus⟩ := Option.map_eq_some_iff.mp h
        rw [hheaders, List.getElem?_append_right (by omega)] at hheader
        rw [hfree header (List.mem_of_getElem? hheader)] at hstatus
        cases hstatus
      · obtain ⟨header, hheader, -⟩ := Option.map_eq_some_iff.mp h
        exact hb (List.getElem?_eq_some_iff.mp hheader).1

theorem Consistent.owned {x : BufferSession} (hx : x.Consistent) : x.Owned := by
  refine ⟨fun buf _ => hx.status buf, fun port bufs hbufs => ?_, fun port bufs hbufs => ?_⟩
  · refine ⟨bufs.countP (x.client.hasStatus .ownedByComponent), ?_, ?_⟩
    · simp [OmxClient.getUsedBufferCount, hbufs]
    · -- a buffer of a port has one owner or the other
      have hsplit : bufs.countP (x.client.hasStatus .ownedByComponent) =
          bufs.countP fun buf => !x.client.hasStatus .ownedByClient buf := by
        refine List.countP_congr fun buf hbuf => ?_
        cases hout : outstanding x.log buf with
        | true =>
            have hheld := (hx.status buf).mpr hout
            simp [OmxClient.hasStatus, hheld]
        | false =>
            have hfree := hx.free ⟨port, bufs, hbufs, hbuf⟩ hout
            simp [OmxClient.hasStatus, hfree]
      calc x.client.getFreeBufferCount port + bufs.countP (x.client.hasStatus .ownedByComponent)
          = bufs.countP (x.client.hasStatus .ownedByClient) +
              bufs.countP (fun buf => !x.client.hasStatus .ownedByClient buf) := by
            rw [OmxClient.getFreeBufferCount, hbufs, Option.elim_some, hsplit]
        _ = bufs.length := by
            rw [List.length_eq_countP_add_countP (x.client.hasStatus .ownedByClient)]
            simp
  · have hindex : x.client.getFreeBufferIndex port = some (-1) ↔
        bufs.findIdx? (x.client.hasStatus .ownedByClient) = none := by
      unfold OmxClient.getFreeBufferIndex
      rw [hbufs, Option.map_some, Option.some.injEq]
      cases bufs.findIdx? (x.client.hasStatus .ownedByClient) with
      | none => simp
      | some index =>
          have hindex : (index : Int) ≠ -1 := by omega
          exact iff_of_false hindex (by simp)
    rw [hindex, OmxClient.getFreeBufferCount, hbufs, Option.elim_some, List.countP_eq_zero,
      List.findIdx?_eq_none_iff]
    simp

theorem Consistent.respects {x y : BufferSession} {a : BufferAct} {es : List BufferEvent}
    (hx : x.Consistent) (h : OmxClient.Change x.client y.client es) (hlog : y.log = x.log ++ es)
    (hspurious : ∀ buf, a = .emptyBufferDone buf ∨ a = .fillBufferDone buf → x.client.Has buf →
      outstanding x.log buf = false → y = x) : x.Respects y a es := by
  -- what the client owns is not outstanding
  have hfree : ∀ {buf}, x.client.getBufferStatus buf = some .ownedByClient →
      outstanding x.log buf = false := by
    intro buf hclient
    rw [Bool.eq_false_iff]
    intro hout
    rw [(hx.status buf).mpr hout] at hclient
    cases hclient
  refine ⟨hlog, ?_, ?_, hspurious⟩
  · intro buf accepted hmem
    cases h with
    | kept places status refused =>
        obtain ⟨b, hb, hclient⟩ := refused _ hmem
        cases hb
        exact hfree hclient
    | taken b free places status events =>
        rw [events, List.mem_singleton] at hmem
        cases hmem
        exact hfree free
    | freed b place named checked places status events others =>
        rcases others _ hmem with h | ⟨_, _, _, h⟩
        · cases h
        · cases h
  · intro hnone buf _
    cases h with
    | kept places status refused => rw [status]
    | taken b free places status events => exact absurd (by simp [events]) (hnone b).1
    | freed b place named checked places status events others => exact absurd events (hnone b).2

/-- What a done callback for a buffer of a port does when the component does not hold it. -/
theorem Consistent.spurious {x : BufferSession} (hx : x.Consistent) {buf : Nat}
    (hhas : x.client.Has buf) (hout : outstanding x.log buf = false)
    (events : BufferHeader → Bool → List BufferEvent) :
    x.client.bufferDone buf events = some (omxErrorUndefined, x.client, []) := by
  have hfree := hx.free hhas hout
  obtain ⟨port, bufs, hbufs, hmem⟩ := hhas
  obtain ⟨i, hi⟩ := List.mem_iff_getElem?.mp hmem
  refine OmxClient.bufferDone_spurious (hx.place port bufs i buf hbufs hi) ?_ hfree events
  simp [OmxClient.getBuffer, hbufs, hi]

/-- The step is a change of the statuses, or it makes headers and shows nothing. -/
theorem step_cases {x y : BufferSession} {a : BufferAct} (h : x.step a = some y) :
    (∃ es, OmxClient.Change x.client y.client es ∧ y.log = x.log ++ es) ∨
      ((∀ buf, a ≠ .emptyBufferDone buf ∧ a ≠ .fillBufferDone buf) ∧
        ∃ made, OmxClient.Grown x.client y.client made ∧ y.log = x.log) := by
  obtain ⟨r, hr, rfl⟩ := Option.map_eq_some_iff.mp h
  have hchange : OmxClient.Change x.client r.2.1 r.2.2 →
      ∃ es, OmxClient.Change x.client r.2.1 es ∧ x.log ++ r.2.2 = x.log ++ es :=
    fun hc => ⟨r.2.2, hc, rfl⟩
  cases a with
  | allocateBuffer port allocLens enable =>
      obtain rfl := Option.some.inj hr
      obtain ⟨hes, made, hmade⟩ := x.client.allocateBuffer_grown port allocLens enable
      exact .inr ⟨by simp, made, hmade, by rw [hes, List.append_nil]⟩
  | useBuffer port owners enable use =>
      obtain rfl := Option.some.inj hr
      obtain ⟨hes, made, hmade⟩ := x.client.useBuffer_grown port owners enable use
      exact .inr ⟨by simp, made, hmade, by rw [hes, List.append_nil]⟩
  | writeToFreeBuffer port data pts flags ret =>
      exact .inl (hchange (OmxClient.writeToFreeBuffer_change hr))
  | writeOwnersBuffer port index owner ret =>
      exact .inl (hchange (OmxClient.writeOwnersBuffer_change hr))
  | writeToConfigBuffer port data ret =>
      exact .inl (hchange (OmxClient.writeToConfigBuffer_change hr))
  | emptyBuffer port index ret => exact .inl (hchange (OmxClient.emptyBuffer_change hr))
  | fillBuffer port index ret => exact .inl (hchange (OmxClient.fillBuffer_change hr))
  | emptyBufferDone buf => exact .inl (hchange (OmxClient.emptyBufferDone_change hr))
  | fillBufferDone buf => exact .inl (hchange (OmxClient.fillBufferDone_change hr))
  | portsChanged enabledPorts running =>
      obtain rfl := Option.some.inj hr
      exact .inl (hchange (.kept rfl rfl (by simp)))

/-- A step of a consistent session respects the owners and leaves the session consistent. -/
theorem Consistent.step {x y : BufferSession} {a : BufferAct} (hx : x.Consistent)
    (h : x.step a = some y) : y.Consistent ∧ ∃ es, x.Respects y a es := by
  rcases step_cases h with ⟨es, hchange, hlog⟩ | ⟨hlabel, made, hmade, hlog⟩
  · refine ⟨hx.change hchange hlog, es, hx.respects hchange hlog ?_⟩
    -- a callback for a buffer that is not outstanding is refused
    rintro buf (rfl | rfl) hhas hout
    · have hnothing : x.client.emptyBufferDone buf = _ := hx.spurious hhas hout _
      simp only [BufferSession.step, BufferAct.outcome, hnothing, Option.map_some,
        List.append_nil, Option.some.injEq] at h
      exact h.symm
    · have hnothing : x.client.fillBufferDone buf = _ := hx.spurious hhas hout _
      simp only [BufferSession.step, BufferAct.outcome, hnothing, Option.map_some,
        List.append_nil, Option.some.injEq] at h
      exact h.symm
  · refine ⟨hx.grown hmade hlog, [], by rw [hlog, List.append_nil], by simp,
      fun _ buf hhas => ?_, ?_⟩
    · obtain ⟨port, bufs, hbufs, hmem⟩ := hhas
      obtain ⟨i, hi⟩ := List.mem_iff_getElem?.mp hmem
      obtain ⟨header, hheader, -⟩ := Option.map_eq_some_iff.mp (hx.place port bufs i buf hbufs hi)
      rw [OmxClient.getBufferStatus, hmade.old (List.getElem?_eq_some_iff.mp hheader).1]
      rfl
    · rintro buf (rfl | rfl)
      · exact absurd rfl (hlabel buf).1
      · exact absurd rfl (hlabel buf).2

theorem consistent_init : BufferSession.Consistent {} := by
  refine ⟨fun _ _ _ _ h => ?_, fun _ => iff_of_false (fun h => ?_) fun h => ?_⟩
  · cases h
  · cases h
  · cases h

theorem consistent_of_run {acts : List BufferAct} {x : BufferSession}
    (h : Lts.exec BufferSession.step {} acts = some x) : x.Consistent :=
  Lts.exec_invariant (Q := fun _ => True) (fun _ _ _ _ hx h => (hx.step h).1)
    (fun _ _ => trivial) consistent_init h

end BufferSession

/-- **The owners of the buffers.** In a run of a client from its beginning, with any ports set up,
the status of a buffer tells whether the component holds it, the two counts make up the buffers of a
port and there is a free index exactly if there is a free buffer; and every step respects the
owners. -/
theorem buffers_owned (acts : List BufferAct) :
    Lts.Along BufferSession.step RespectsOwners {} acts ∧
      ∀ x, Lts.exec BufferSession.step {} acts = some x → x.Owned := by
  constructor
  · exact Lts.Along.of_invariant (fun _ _ hx _ h => (hx.step h).2)
      (fun _ _ _ hx h => (hx.step h).1) BufferSession.consistent_init
  · exact fun x hx => (BufferSession.consistent_of_run hx).owned

end DirectMedia

import DirectMedia.Omx.Ownership

set_option autoImplicit false

/-! # The ports of a client

The buffers of one port, read through their addresses, are a `Port`. In a run every buffer of a
port names its place, so that no header is on two ports, or twice on one: what a call does to the
buffers of a client is what the operation on the `Port` does, and the other ports keep theirs.
-/

namespace DirectMedia

namespace OmxClient

/-- Every buffer of a port names its place. -/
def Placed (c : OmxClient) : Prop :=
  ∀ (port : Int) (bufs : List Nat) (i buf : Nat), c.portBuffers port = some bufs →
    bufs[i]? = some buf → c.getPlace buf = some (port, (i : Int))

/-- The buffer at an address. -/
def bufferAt (c : OmxClient) (buf : Nat) : Option Buffer := c.headers[buf]?.map (·.toBuffer)

/-- The buffers of the port are those of the list. -/
def Shows (c : OmxClient) (port : Int) (l : Port) : Prop :=
  ∃ bufs, c.portBuffers port = some bufs ∧ bufs.map c.bufferAt = l.map some

theorem Placed.exists_shows {c : OmxClient} (hc : c.Placed) {port : Int} {bufs : List Nat}
    (h : c.portBuffers port = some bufs) : ∃ l, c.Shows port l := by
  refine ⟨bufs.filterMap c.bufferAt, bufs, h, ?_⟩
  rw [List.map_filterMap_some_eq_filter_map_isSome, List.filter_eq_self.mpr]
  intro b hb
  obtain ⟨buf, hbuf, rfl⟩ := List.mem_map.mp hb
  obtain ⟨i, hi⟩ := List.mem_iff_getElem?.mp hbuf
  obtain ⟨header, hheader, -⟩ := Option.map_eq_some_iff.mp (hc port bufs i buf h hi)
  simp [bufferAt, hheader]

theorem Shows.getElem? {c : OmxClient} {port : Int} {l : Port} (h : c.Shows port l) (i : Nat) :
    (c.getBuffer port i).map c.bufferAt = l[i]?.map some := by
  obtain ⟨bufs, hbufs, hmap⟩ := h
  have hindex : ¬ (i : Int) < 0 := by omega
  simp only [getBuffer, hbufs, Option.bind_eq_bind, Option.bind_some, if_neg hindex,
    Int.toNat_natCast]
  rw [← List.getElem?_map, hmap, List.getElem?_map]

/-! ## One header changes -/

theorem bufferAt_onHeader {f : BufferHeader → BufferHeader} {g : Buffer → Buffer}
    (hfg : ∀ h, (f h).toBuffer = g h.toBuffer) (c : OmxClient) (buf b : Nat) :
    (c.onHeader buf f).bufferAt b = if buf = b then (c.bufferAt b).map g else c.bufferAt b := by
  unfold bufferAt onHeader
  rw [List.getElem?_modify]
  by_cases hb : buf = b
  · cases c.headers[b]? with
    | none => simp [hb]
    | some header => simp [hb, hfg]
  · simp [hb]

theorem Placed.of_places {c d : OmxClient} (hc : c.Placed) (h : d.places = c.places) :
    d.Placed := by
  have hbufs : d.portBuffers = c.portBuffers := congrArg Prod.fst h
  have hplace : d.getPlace = c.getPlace := congrArg Prod.snd h
  unfold Placed
  rw [hbufs, hplace]
  exact hc

theorem getBuffer_eq_some_iff {c : OmxClient} {port : Int} {i buf : Nat} :
    c.getBuffer port i = some buf ↔
      ∃ bufs, c.portBuffers port = some bufs ∧ bufs[i]? = some buf := by
  have hindex : ¬ (i : Int) < 0 := by omega
  simp [getBuffer, Option.bind_eq_some_iff, hindex]

/-- A buffer of a port changes there, and no other port has it. -/
theorem Shows.onHeader {c : OmxClient} (hc : c.Placed) {port : Int} {i buf : Nat}
    (hbuf : c.getBuffer port i = some buf) {f : BufferHeader → BufferHeader}
    {g : Buffer → Buffer} (hfg : ∀ h, (f h).toBuffer = g h.toBuffer) {q : Int} {l : Port}
    (hl : c.Shows q l) :
    (c.onHeader buf f).Shows q (if q = port then l.modify i g else l) := by
  obtain ⟨bufs, hbufs, hmap⟩ := hl
  obtain ⟨bufs', hbufs', hi⟩ := getBuffer_eq_some_iff.mp hbuf
  have hplace : c.getPlace buf = some (port, (i : Int)) := hc port bufs' i buf hbufs' hi
  refine ⟨bufs, hbufs, List.ext_getElem? fun j => ?_⟩
  have hj : bufs[j]?.map c.bufferAt = l[j]?.map some := by
    rw [← List.getElem?_map, hmap, List.getElem?_map]
  cases hb : bufs[j]? with
  | none =>
      have hnone : l[j]? = none := by simpa [hb] using hj.symm
      split
      · simp [hb, List.getElem?_modify, hnone]
      · simp [hb, hnone]
  | some b =>
      have hthere : c.getPlace b = some (q, (j : Int)) := hc q bufs j b hbufs hb
      rw [hb, Option.map_some] at hj
      obtain ⟨x, hx, hbx⟩ := Option.map_eq_some_iff.mp hj.symm
      rw [List.getElem?_map, List.getElem?_map, hb, Option.map_some, bufferAt_onHeader hfg, ← hbx]
      -- the address is that of the place only
      by_cases hsame : buf = b
      · rw [hsame, hthere, Option.some.injEq, Prod.mk.injEq, Int.natCast_inj] at hplace
        obtain ⟨rfl, rfl⟩ := hplace
        simp [hsame, hx]
      · rw [if_neg hsame]
        by_cases hq : q = port
        · have hij : i ≠ j := by
            rintro rfl
            rw [hq, hbufs', Option.some.injEq] at hbufs
            rw [← hbufs, hi, Option.some.injEq] at hb
            exact hsame hb
          simp [hq, hij, hx]
        · simp [hq, hx]

/-! ## What a port tells -/

theorem hasStatus_eq (c : OmxClient) (status : BufferStatus) :
    c.hasStatus status = (fun x => decide (x.map (·.status) = some status)) ∘ c.bufferAt := by
  funext buf
  simp only [hasStatus, getBufferStatus, bufferAt, Function.comp_apply, Option.map_map]
  rfl

theorem some_status (status : BufferStatus) :
    (fun x : Option Buffer => decide (x.map (·.status) = some status)) ∘ some =
      fun b => decide (b.status = status) := by
  funext b
  simp

theorem Shows.countP {c : OmxClient} {l : Port} {bufs : List Nat}
    (h : bufs.map c.bufferAt = l.map some) (status : BufferStatus) :
    bufs.countP (c.hasStatus status) = l.countP fun b => decide (b.status = status) := by
  calc bufs.countP (c.hasStatus status)
      = (bufs.map c.bufferAt).countP (fun x => decide (x.map (·.status) = some status)) := by
        rw [hasStatus_eq, List.countP_map]
    _ = (l.map some).countP (fun x => decide (x.map (·.status) = some status)) := by rw [h]
    _ = l.countP (fun b => decide (b.status = status)) := by rw [List.countP_map, some_status]

theorem Shows.getFreeBufferCount {c : OmxClient} {port : Int} {l : Port} (h : c.Shows port l) :
    c.getFreeBufferCount port = l.getFreeBufferCount := by
  obtain ⟨bufs, hbufs, hmap⟩ := h
  rw [OmxClient.getFreeBufferCount, hbufs, Option.elim_some, Shows.countP hmap]
  rfl

theorem Shows.getUsedBufferCount {c : OmxClient} {port : Int} {l : Port} (h : c.Shows port l) :
    c.getUsedBufferCount port = some l.getUsedBufferCount := by
  obtain ⟨bufs, hbufs, hmap⟩ := h
  rw [OmxClient.getUsedBufferCount, hbufs, Option.map_some, Shows.countP hmap]
  rfl

theorem Shows.getFreeBufferIndex {c : OmxClient} {port : Int} {l : Port} (h : c.Shows port l) :
    c.getFreeBufferIndex port = some (l.getFreeBufferIndex.elim (-1) fun i => (i : Int)) := by
  obtain ⟨bufs, hbufs, hmap⟩ := h
  have hfind : bufs.findIdx? (c.hasStatus .ownedByClient) = l.getFreeBufferIndex := by
    rw [hasStatus_eq, ← List.findIdx?_map, hmap, List.findIdx?_map, some_status]
    rfl
  rw [OmxClient.getFreeBufferIndex, hbufs, Option.map_some, hfind]
  cases l.getFreeBufferIndex with
  | none => rfl
  | some i => rfl

/-! ## Submissions -/

theorem setBufferStatus_twice (c : OmxClient) (buf : Nat) (status status' : BufferStatus) :
    (c.setBufferStatus buf status).setBufferStatus buf status' = c.setBufferStatus buf status' := by
  unfold setBufferStatus onHeader
  rw [List.modify_modify_eq]
  rfl

theorem setBufferStatus_same {c : OmxClient} {buf : Nat} {status : BufferStatus}
    (h : c.getBufferStatus buf = some status) : c.setBufferStatus buf status = c := by
  obtain ⟨header, hheader, rfl⟩ := Option.map_eq_some_iff.mp h
  have hmodify : c.headers.modify buf (fun h => { h with status := header.status }) =
      c.headers := by
    refine List.ext_getElem? fun b => ?_
    rw [List.getElem?_modify]
    by_cases hb : buf = b
    · subst hb
      simp [hheader]
    · simp [hb]
  unfold setBufferStatus onHeader
  rw [hmodify]

/-- A free buffer goes to the component, and is as before if OMX refuses it. -/
theorem emptyBuffer_free {c : OmxClient} {port index : Int} {buf : Nat}
    (hbuf : c.getBuffer port index = some buf)
    (hfree : c.getBufferStatus buf = some .ownedByClient) (ret : Int) :
    c.emptyBuffer port index ret =
      some (ret, if ret = 0 then c.setBufferStatus buf .ownedByComponent else c,
        [.submitted buf (decide (ret = 0))]) := by
  have hcheck : c.isFreeBufferIndex port index = some true := by
    simp [isFreeBufferIndex, hbuf, hfree]
  have hsame : (c.onHeader buf id) = c := by simp [onHeader]
  unfold emptyBuffer submitBuffer
  simp only [hbuf, hcheck, Option.map_some, if_true, hsame]
  by_cases hret : ret = 0
  · simp [hret]
  · -- set and set back
    have hback := (setBufferStatus_twice c buf .ownedByComponent .ownedByClient).trans
      (setBufferStatus_same hfree)
    simp [hret, hback]

/-- The free buffer that the port finds first. -/
theorem Shows.firstFree {c : OmxClient} {port : Int} {l : Port} (h : c.Shows port l) {i : Nat}
    (hi : l.getFreeBufferIndex = some i) :
    ∃ buf header, c.getBuffer port i = some buf ∧ c.headers[buf]? = some header ∧
      l[i]? = some header.toBuffer ∧ header.status = .ownedByClient := by
  obtain ⟨hlt, hfree, -⟩ := List.findIdx?_eq_some_iff_getElem.mp hi
  have helem := h.getElem? i
  rw [List.getElem?_eq_getElem hlt, Option.map_some] at helem
  obtain ⟨buf, hbuf, hat⟩ := Option.map_eq_some_iff.mp helem
  obtain ⟨header, hheader, heq⟩ := Option.map_eq_some_iff.mp hat
  refine ⟨buf, header, hbuf, hheader, ?_, ?_⟩
  · rw [List.getElem?_eq_getElem hlt, heq]
  · rw [show header.status = l[i].status by rw [← heq]]
    exact of_decide_eq_true hfree

theorem Shows.writeFree_none {c : OmxClient} {port : Int} {l : Port} (h : c.Shows port l)
    (hi : l.getFreeBufferIndex = none) (write : BufferHeader → BufferHeader) (ret : Int) :
    c.writeFree port write ret = some (-1, c, []) := by
  unfold writeFree
  rw [h.getFreeBufferIndex, hi]
  rfl

/-- A write into the first free buffer of the port. -/
theorem Shows.writeFree_some {c : OmxClient} (hc : c.Placed) {port : Int} {l : Port}
    (h : c.Shows port l) {i : Nat} (hi : l.getFreeBufferIndex = some i) {b : Buffer}
    (hb : l[i]? = some b) {write : BufferHeader → BufferHeader} (hwrite : Neutral write)
    {g : Buffer → Buffer} (hg : ∀ h, (write h).toBuffer = g h.toBuffer) (ret : Int) :
    ∃ d es, c.writeFree port write ret =
        some (if ret = 0 then ((g b).filledLen : Int) else 0, d, es) ∧
      ∀ q l', c.Shows q l' →
        d.Shows q (if q = port then Port.emptyBuffer (l'.modify i g) i ret else l') := by
  obtain ⟨buf, header, hbuf, hheader, hb', hfree⟩ := h.firstFree hi
  obtain rfl := Option.some.inj (hb'.symm.trans hb)
  have hindex : ¬ (i : Int) < 0 := by omega
  have hbuf' : (c.onHeader buf write).getBuffer port i = some buf := hbuf
  have hfree' : (c.onHeader buf write).getBufferStatus buf = some .ownedByClient := by
    rw [getBufferStatus_onHeader hwrite.status, getBufferStatus, hheader, Option.map_some, hfree]
  have hwrote : (c.onHeader buf write).headers[buf]? = some (write header) := by
    simp [OmxClient.onHeader, hheader]
  refine ⟨if ret = 0 then (c.onHeader buf write).setBufferStatus buf .ownedByComponent
      else c.onHeader buf write, [.submitted buf (decide (ret = 0))], ?_, fun q l' hl' => ?_⟩
  · unfold writeFree writeAndEmpty
    rw [h.getFreeBufferIndex, hi]
    simp only [Option.elim_some, Option.bind_eq_bind, Option.bind_some, if_neg hindex, hbuf,
      emptyBuffer_free hbuf' hfree', Option.map_some, hwrote, ← hg]
  · have hwritten := hl'.onHeader hc hbuf hg
    have hplaced := hc.of_places (places_onHeader hwrite.port hwrite.index c buf)
    unfold Port.emptyBuffer
    by_cases hret : ret = 0
    · have hsubmitted := hwritten.onHeader hplaced hbuf'
        (f := fun h => { h with status := .ownedByComponent })
        (g := fun b => { b with status := .ownedByComponent }) (fun _ => rfl)
      rw [if_pos hret, if_pos hret]
      by_cases hq : q = port
      · rw [if_pos hq, if_pos hq] at hsubmitted
        rw [if_pos hq]
        exact hsubmitted
      · rw [if_neg hq, if_neg hq] at hsubmitted
        rw [if_neg hq]
        exact hsubmitted
    · rw [if_neg hret, if_neg hret]
      exact hwritten

/-- The outcome of a call on a port of a client: the client returns `v`, shows `l` on the port, and
shows on the other ports what it showed. -/
def OnPort (c : OmxClient) (port : Int) (r : Outcome) (v : Int) (l : Port) : Prop :=
  r.1 = v ∧ r.2.1.Shows port l ∧ ∀ q l', q ≠ port → c.Shows q l' → r.2.1.Shows q l'

theorem OnPort.of_shows {c : OmxClient} {port : Int} {r : Outcome} {f : Port → Port}
    (h : ∀ q l, c.Shows q l → r.2.1.Shows q (if q = port then f l else l)) {l : Port}
    (hl : c.Shows port l) : OnPort c port r r.1 (f l) := by
  refine ⟨rfl, ?_, fun q l' hq hl' => ?_⟩
  · have hport := h port l hl
    rwa [if_pos rfl] at hport
  · have hother := h q l' hl'
    rwa [if_neg hq] at hother

theorem onPort_writeFree {c : OmxClient} (hc : c.Placed) {port : Int} {l : Port}
    (h : c.Shows port l) (write : BufferHeader → BufferHeader) (hwrite : Neutral write)
    (g : Buffer → Buffer) (hg : ∀ h, (write h).toBuffer = g h.toBuffer) (ret : Int) :
    ∃ r, c.writeFree port write ret = some r ∧
      match l.getFreeBufferIndex with
      | none => OnPort c port r (-1) l
      | some i => ∃ b, l[i]? = some b ∧
          OnPort c port r (if ret = 0 then ((g b).filledLen : Int) else 0)
            (Port.emptyBuffer (l.set i (g b)) i ret) := by
  cases hi : l.getFreeBufferIndex with
  | none => exact ⟨_, h.writeFree_none hi write ret, rfl, h, fun _ _ _ hq => hq⟩
  | some i =>
      obtain ⟨-, header, -, -, hb, -⟩ := h.firstFree hi
      obtain ⟨d, es, hcall, hshows⟩ := h.writeFree_some hc hi hb hwrite hg ret
      refine ⟨_, hcall, _, hb, ?_⟩
      have hset : l.modify i g = l.set i (g header.toBuffer) := by
        rw [List.modify_eq_set_getElem?, hb]
        rfl
      rw [← hset]
      exact OnPort.of_shows (f := fun l => Port.emptyBuffer (l.modify i g) i ret) hshows h

/-- `writeToFreeBuffer` is the operation on the port. -/
theorem onPort_writeToFreeBuffer {c : OmxClient} (hc : c.Placed) {port : Int} {l : Port}
    (h : c.Shows port l) (data : List UInt8) (pts : Int) (flags : BitVec 32) (ret : Int) :
    ∃ r, c.writeToFreeBuffer port data pts flags ret = some r ∧
      OnPort c port r (l.writeToFreeBuffer data pts flags ret).1
        (l.writeToFreeBuffer data pts flags ret).2.1 := by
  obtain ⟨r, hcall, hr⟩ := onPort_writeFree hc h
    (fun h => { h with toBuffer := Port.fill h.toBuffer data pts flags, offset := 0 })
    ⟨fun _ => fill_status _ _ _ _, fun _ => rfl, fun _ => rfl⟩
    (fun b => Port.fill b data pts flags) (fun _ => rfl) ret
  refine ⟨r, hcall, ?_⟩
  unfold Port.writeToFreeBuffer
  cases hi : l.getFreeBufferIndex with
  | none =>
      rw [hi] at hr
      exact hr
  | some i =>
      rw [hi] at hr
      obtain ⟨b, hb, hr⟩ := hr
      simp only [hb]
      by_cases hret : ret = 0
      · simpa [hret] using hr
      · simpa [hret] using hr

/-- `writeToConfigBuffer` is the operation on the port. -/
theorem onPort_writeToConfigBuffer {c : OmxClient} (hc : c.Placed) {port : Int} {l : Port}
    (h : c.Shows port l) (data : List UInt8) (ret : Int) :
    ∃ r, c.writeToConfigBuffer port data ret = some r ∧
      OnPort c port r (l.writeToConfigBuffer data ret).1 (l.writeToConfigBuffer data ret).2 := by
  obtain ⟨r, hcall, hr⟩ := onPort_writeFree hc h
    (fun h =>
      { h with
        offset := 0
        filledLen := data.length
        bytes := data
        flags := bufferFlagCodecConfig ||| bufferFlagEndOfFrame })
    ⟨fun _ => rfl, fun _ => rfl, fun _ => rfl⟩
    (fun b =>
      { b with
        filledLen := data.length
        flags := bufferFlagCodecConfig ||| bufferFlagEndOfFrame
        bytes := data }) (fun _ => rfl) ret
  refine ⟨r, hcall, ?_⟩
  unfold Port.writeToConfigBuffer
  cases hi : l.getFreeBufferIndex with
  | none =>
      rw [hi] at hr
      exact hr
  | some i =>
      rw [hi] at hr
      obtain ⟨b, hb, hr⟩ := hr
      simp only [hb]
      by_cases hret : ret = 0
      · simpa [hret] using hr
      · simpa [hret] using hr

/-! ## Buffers that come back -/

/-- `emptyBufferDone` is the operation on the port of its buffer. -/
theorem onPort_emptyBufferDone {c : OmxClient} (hc : c.Placed) {port : Int} {l : Port}
    (h : c.Shows port l) {i buf : Nat} (hbuf : c.getBuffer port i = some buf) {r : Outcome}
    (hcall : c.emptyBufferDone buf = some r) : OnPort c port r r.1 (l.emptyBufferDone i) := by
  obtain ⟨bufs, hbufs, hi⟩ := getBuffer_eq_some_iff.mp hbuf
  have hplace := hc port bufs i buf hbufs hi
  obtain ⟨header, hheader, hnamed⟩ := Option.map_eq_some_iff.mp hplace
  obtain ⟨hport, hindex⟩ := Prod.mk.inj hnamed
  have hstatus : c.getBufferStatus buf = some header.status := by simp [getBufferStatus, hheader]
  have hcheck : c.isFreeBufferIndex port i = some (decide (header.status = .ownedByClient)) := by
    simp [isFreeBufferIndex, hbuf, hstatus]
  -- in both cases the client has the buffer
  have hclient : r.2.1 = c.setBufferStatus buf .ownedByClient := by
    unfold emptyBufferDone bufferDone at hcall
    simp only [hheader, hport, hindex, hcheck, Option.bind_eq_bind, Option.bind_some] at hcall
    by_cases hfree : header.status = .ownedByClient
    · rw [if_pos (decide_eq_true hfree)] at hcall
      obtain rfl := Option.some.inj hcall
      rw [hfree] at hstatus
      exact (setBufferStatus_same hstatus).symm
    · rw [if_neg (by simpa using hfree)] at hcall
      obtain ⟨enabled, -, hr⟩ := Option.bind_eq_some_iff.mp hcall
      obtain rfl := Option.some.inj hr
      rfl
  refine OnPort.of_shows (f := fun l => l.emptyBufferDone i) (fun q l' hl' => ?_) h
  rw [hclient]
  refine hl'.onHeader hc hbuf fun h => ?_
  split
  case isTrue hfree => rw [← hfree]
  case isFalse => rfl

end OmxClient

/-- **The ports of a client.** In a run of a client from its beginning a port shows its buffers; the
client counts and finds the free ones among them, and writes and returned buffers are the operations
on the port. -/
theorem port_refined {acts : List BufferAct} {x : BufferSession}
    (hx : Lts.exec BufferSession.step {} acts = some x) {port : Int} {bufs : List Nat}
    (hbufs : x.client.portBuffers port = some bufs) :
    ∃ l : Port, x.client.Shows port l ∧
      x.client.getFreeBufferCount port = l.getFreeBufferCount ∧
      x.client.getUsedBufferCount port = some l.getUsedBufferCount ∧
      (∀ data pts flags ret, ∃ r, x.client.writeToFreeBuffer port data pts flags ret = some r ∧
        x.client.OnPort port r (l.writeToFreeBuffer data pts flags ret).1
          (l.writeToFreeBuffer data pts flags ret).2.1) ∧
      (∀ data ret, ∃ r, x.client.writeToConfigBuffer port data ret = some r ∧
        x.client.OnPort port r (l.writeToConfigBuffer data ret).1
          (l.writeToConfigBuffer data ret).2) ∧
      ∀ i buf r, bufs[i]? = some buf → x.client.emptyBufferDone buf = some r →
        x.client.OnPort port r r.1 (l.emptyBufferDone i) := by
  have hplaced : x.client.Placed := (BufferSession.consistent_of_run hx).place
  obtain ⟨l, hl⟩ := hplaced.exists_shows hbufs
  refine ⟨l, hl, hl.getFreeBufferCount, hl.getUsedBufferCount,
    OmxClient.onPort_writeToFreeBuffer hplaced hl, OmxClient.onPort_writeToConfigBuffer hplaced hl,
    fun i buf r hi hcall => ?_⟩
  have hbuf := OmxClient.getBuffer_eq_some_iff.mpr ⟨bufs, hbufs, hi⟩
  exact OmxClient.onPort_emptyBufferDone hplaced hl hbuf hcall

end DirectMedia

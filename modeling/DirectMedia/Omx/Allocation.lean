import DirectMedia.Omx.Client

set_option autoImplicit false

/-! # Buffers that OMX fails to provide

`allocateBuffer` and `useBuffer` ask OMX for one header after the other, each into a variable `buf`
without a value. Here OMX may fail at any of them, and a call shows which headers it was provided
with, through which pointers it reads and writes, and which headers it frees. Without a failure the
calls are those of `OmxClient`.
-/

namespace DirectMedia

/-- A value of type `OMX_BUFFERHEADERTYPE*`. -/
inductive HeaderPtr where
  /-- a header that OMX has provided, by its address -/
  | header (buf : Nat)
  /-- whatever was in the variable before -/
  | wild
  deriving DecidableEq, Repr

/-- What happens to headers in a call. -/
inductive HeaderEvent where
  /-- `OMX_AllocateBuffer` or `OMX_UseBuffer` has provided a header -/
  | provided (buf : Nat)
  /-- it has failed -/
  | refused (err : Int)
  /-- fields are read through the pointer -/
  | read (buf : HeaderPtr)
  /-- `buf->pAppPrivate = info` -/
  | tagged (buf : HeaderPtr) (info : Option BufferInfo)
  /-- `OMX_FreeBuffer` -/
  | freed (buf : HeaderPtr)
  deriving DecidableEq, Repr

/-- The pointer that is dereferenced. -/
def HeaderEvent.deref : HeaderEvent → Option HeaderPtr
  | .read buf | .tagged buf _ => some buf
  | _ => none

/-- The headers that OMX has provided so far are at the addresses below `made`. -/
structure HeaderTable where
  made : Nat := 0
  portBuffers : Int → Option (List HeaderPtr) := fun _ => none

/-- The result of a call, what it leaves and what happened to headers. -/
abbrev HeaderOutcome := Int × HeaderTable × List HeaderEvent

/-- What the loop over the buffers leaves: `err`, `buffers` and what happened. -/
structure HeaderLoop where
  err : Int := 0
  made : Nat
  buffers : List HeaderPtr := []
  events : List HeaderEvent := []

/-- The end of an iteration: the header is given its `BufferInfo` and pushed. -/
def HeaderLoop.push (port : Int) (index : Nat) (buf : HeaderPtr) (r : HeaderLoop) : HeaderLoop :=
  { r with
    buffers := buf :: r.buffers
    events := .tagged buf (some ⟨.ownedByClient, port, index⟩) :: r.events }

/-- Something happens before the rest of the loop. -/
def HeaderLoop.after (events : List HeaderEvent) (r : HeaderLoop) : HeaderLoop :=
  { r with events := events ++ r.events }

namespace HeaderTable

/-- The loop of `allocateBuffer` for the next `n` indices, with what `OMX_AllocateBuffer` returns
for each index. -/
def allocateLoop (port : Int) (omx : Nat → Int) : Nat → Nat → Nat → HeaderLoop
  | 0, _, made => { made := made }
  | n + 1, index, made =>
      if omx index ≠ 0 then
        -- the failure is logged, and the loop goes on with `buf` as it was
        ((allocateLoop port omx n (index + 1) made).push port index .wild).after
          [.refused (omx index)]
      else
        ((allocateLoop port omx n (index + 1) (made + 1)).push port index (.header made)).after
          [.provided made]

/-- The loop of `useBuffer`, with what `OMX_UseBuffer` returns for each index. -/
def useLoop (port : Int) (omx : Nat → Int) : Nat → List HeaderPtr → Nat → HeaderLoop
  | _, [], made => { made := made }
  | index, owner :: owners, made =>
      if omx index ≠ 0 then
        -- `nAllocLen` and `pBuffer` of the owner's buffer have been read
        { err := omx index, made := made, events := [.read owner, .refused (omx index)] }
      else
        ((useLoop port omx (index + 1) owners (made + 1)).push port index (.header made)).after
          [.read owner, .provided made]

/-- `OmxClient::allocateBuffer`, with what `enablePort` returns. -/
def allocateBuffer (t : HeaderTable) (port count enable : Int) (omx : Nat → Int) : HeaderOutcome :=
  if enable ≠ 0 then (-1, t, [])
  else
    let r := allocateLoop port omx count.toNat 0 t.made
    (0, { made := r.made, portBuffers := Function.update t.portBuffers port (some r.buffers) },
      r.events)

/-- `OmxClient::useBuffer`, with the buffers that the owner has on its port, if any. -/
def useBuffer (t : HeaderTable) (port : Int) (owners : Option (List HeaderPtr)) (enable : Int)
    (omx : Nat → Int) : HeaderOutcome :=
  match owners with
  | none => (-1, t, [])
  | some owners =>
      if enable ≠ 0 then (-1, t, [])
      else
        let r := useLoop port omx 0 owners t.made
        if r.err ≠ 0 then (r.err, { t with made := r.made }, r.events)
        else
          (0,
            { made := r.made
              portBuffers := Function.update t.portBuffers port (some r.buffers) },
            r.events)

/-- `OmxClient::freeBuffer`; `none` is the exception of `at`. -/
def freeBuffer (t : HeaderTable) (port enable : Int) : Option HeaderOutcome :=
  if enable ≠ 0 then some (-1, t, [])
  else
    (t.portBuffers port).map fun bufs =>
      (0, { t with portBuffers := Function.update t.portBuffers port none },
        bufs.flatMap fun buf => [.read buf, .tagged buf none, .freed buf])

end HeaderTable

@[simp] theorem HeaderLoop.mem_push {port : Int} {index : Nat} {buf : HeaderPtr} {r : HeaderLoop}
    {x : HeaderEvent} :
    x ∈ (r.push port index buf).events ↔
      x = .tagged buf (some ⟨.ownedByClient, port, index⟩) ∨ x ∈ r.events :=
  List.mem_cons

@[simp] theorem HeaderLoop.mem_after {events : List HeaderEvent} {r : HeaderLoop}
    {x : HeaderEvent} : x ∈ (r.after events).events ↔ x ∈ events ∨ x ∈ r.events :=
  List.mem_append

/-! ## The two loops -/

section Loops

variable (port : Int) (omx : Nat → Int)

/-- The loop of `useBuffer` reports a failure at any index. -/
theorem useLoop_err (owners : List HeaderPtr) (index made : Nat) {k : Nat} (hk : k < owners.length)
    (hfail : omx (index + k) ≠ 0) : (HeaderTable.useLoop port omx index owners made).err ≠ 0 := by
  induction owners generalizing index made k with
  | nil => exact absurd hk (Nat.not_lt_zero k)
  | cons owner owners ih =>
      unfold HeaderTable.useLoop
      split
      case isTrue hfirst => exact hfirst
      case isFalse hfirst =>
        cases k with
        | zero => exact absurd hfail hfirst
        | succ k =>
            rw [show index + (k + 1) = index + 1 + k by omega] at hfail
            exact ih (index + 1) (made + 1) (by simpa using hk) hfail

/-- It frees nothing. -/
theorem useLoop_not_freed (owners : List HeaderPtr) (index made : Nat) (buf : HeaderPtr) :
    .freed buf ∉ (HeaderTable.useLoop port omx index owners made).events := by
  induction owners generalizing index made with
  | nil => exact List.not_mem_nil
  | cons owner owners ih =>
      unfold HeaderTable.useLoop
      split
      · simp
      · simpa using ih (index + 1) (made + 1)

end Loops

/-! ## All or nothing -/

/-- A call that is to set up the buffers of a port. -/
inductive AllocCall where
  | allocateBuffer (port count enable : Int) (omx : Nat → Int)
  | useBuffer (port : Int) (owners : Option (List HeaderPtr)) (enable : Int) (omx : Nat → Int)

namespace AllocCall

def outcome (t : HeaderTable) : AllocCall → HeaderOutcome
  | allocateBuffer port count enable omx => t.allocateBuffer port count enable omx
  | useBuffer port owners enable omx => t.useBuffer port owners enable omx

/-- OMX fails at an index of the call. -/
def Refused : AllocCall → Prop
  | allocateBuffer _ count enable omx => enable = 0 ∧ ∃ index < count.toNat, omx index ≠ 0
  | useBuffer _ owners enable omx =>
      enable = 0 ∧ ∃ bufs, owners = some bufs ∧ ∃ index < bufs.length, omx index ≠ 0

/-- The failure that leaves nothing behind: `OMX_UseBuffer` fails at the first buffer, and the
owner's first buffer is a header. -/
def AtOnce : AllocCall → Prop
  | allocateBuffer _ _ _ _ => False
  | useBuffer _ owners _ omx => omx 0 ≠ 0 ∧ ∀ bufs ∈ owners, bufs.head? ≠ some .wild

end AllocCall

/-- A call that has failed: it says so, it has gone through no pointer but to headers, the ports are
as before, and what OMX provided is freed. -/
structure NothingLeft (t : HeaderTable) (r : HeaderOutcome) : Prop where
  result : r.1 ≠ 0
  deref : ∀ x ∈ r.2.2, x.deref ≠ some .wild
  kept : r.2.1.portBuffers = t.portBuffers
  freed : ∀ buf, .provided buf ∈ r.2.2 → .freed (.header buf) ∈ r.2.2

/-- **A failure leaves nothing behind** exactly if it is one of `OMX_UseBuffer` at the first buffer:
`allocateBuffer` goes on after a failure and reports none, and `useBuffer` does not free the headers
it was provided with before. -/
theorem nothingLeft_iff (t : HeaderTable) (x : AllocCall) (h : x.Refused) :
    NothingLeft t (x.outcome t) ↔ x.AtOnce := by
  cases x with
  | allocateBuffer port count enable omx =>
      refine iff_of_false (fun hleft => hleft.result ?_) id
      simp [AllocCall.outcome, HeaderTable.allocateBuffer, h.1]
  | useBuffer port owners enable omx =>
      obtain ⟨rfl, bufs, rfl, k, hk, hfail⟩ := h
      have herr := useLoop_err port omx bufs 0 t.made hk (by rwa [Nat.zero_add])
      have houtcome : AllocCall.outcome t (.useBuffer port (some bufs) 0 omx) =
          ((HeaderTable.useLoop port omx 0 bufs t.made).err,
            { t with made := (HeaderTable.useLoop port omx 0 bufs t.made).made },
            (HeaderTable.useLoop port omx 0 bufs t.made).events) := by
        simp only [AllocCall.outcome, HeaderTable.useBuffer]
        rw [if_neg (by simp), if_pos herr]
      have hnone := useLoop_not_freed port omx bufs 0 t.made
      rw [houtcome]
      cases bufs with
      | nil => exact absurd hk (Nat.not_lt_zero k)
      | cons owner owners =>
          by_cases hfirst : omx 0 ≠ 0
          · have hevents : (HeaderTable.useLoop port omx 0 (owner :: owners) t.made).events =
                [.read owner, .refused (omx 0)] := by
              rw [HeaderTable.useLoop, if_pos hfirst]
            constructor
            · intro hleft
              refine ⟨hfirst, fun bufs hbufs => ?_⟩
              cases hbufs
              have hderef := hleft.deref (.read owner) (by simp [hevents])
              simpa [HeaderEvent.deref] using hderef
            · rintro ⟨_, howner⟩
              have howner := howner _ rfl
              refine ⟨herr, fun x hx => ?_, rfl, fun buf hbuf => ?_⟩
              · simp only [hevents, List.mem_cons, List.not_mem_nil, or_false] at hx
                obtain rfl | rfl := hx
                · simpa [HeaderEvent.deref] using howner
                · simp [HeaderEvent.deref]
              · simp [hevents] at hbuf
          · -- the header of the first buffer is lost
            refine iff_of_false (fun hleft => ?_) fun hatonce => hfirst hatonce.1
            refine hnone _ (hleft.freed t.made ?_)
            simp [HeaderTable.useLoop, hfirst]

theorem nothingLeft_iff_first :
    NothingLeft {}
        (AllocCall.outcome {} (.useBuffer 1 (some [.header 7, .header 8]) 0 fun _ => -1)) ↔
      AllocCall.AtOnce (.useBuffer 1 (some [.header 7, .header 8]) 0 fun _ => -1) :=
  nothingLeft_iff {} _ ⟨rfl, [.header 7, .header 8], rfl, 0, by decide, by decide⟩

/-- OMX fails at the second of two buffers. -/
def allocateTwo : AllocCall := .allocateBuffer 1 2 0 fun index => index

def useTwo : AllocCall := .useBuffer 1 (some [.header 7, .header 8]) 0 fun index => index

/-- With the second of two buffers missing `allocateBuffer` returns 0, with a header on the port
that nobody provided, and `useBuffer` loses the first. -/
theorem allocation_half_done :
    allocateTwo.Refused ∧ (allocateTwo.outcome {}).1 = 0 ∧
      (allocateTwo.outcome {}).2.1.portBuffers 1 = some [.header 0, .wild] ∧
      ¬ NothingLeft {} (allocateTwo.outcome {}) ∧
      useTwo.Refused ∧
      (useTwo.outcome {}).2.2 =
        [.read (.header 7), .provided 0, .tagged (.header 0) (some ⟨.ownedByClient, 1, 0⟩),
          .read (.header 8), .refused 1] ∧
      ¬ NothingLeft {} (useTwo.outcome {}) := by
  refine ⟨⟨rfl, 1, by decide, by decide⟩, rfl, by decide, fun h => h.result rfl,
    ⟨rfl, [.header 7, .header 8], rfl, 1, by decide, by decide⟩, by decide, fun h => ?_⟩
  exact absurd (h.freed 0 (by decide)) (by decide)

/-! ## What is lost -/

/-- The headers on the ports are at addresses below `made`. -/
def HeaderTable.Sound (t : HeaderTable) : Prop :=
  ∀ port, ∀ bufs ∈ t.portBuffers port, ∀ buf, HeaderPtr.header buf ∈ bufs → buf < t.made

/-- `freeBuffer` frees the headers of the port and no other. -/
theorem freeBuffer_freed {t : HeaderTable} {port enable : Int} {r : HeaderOutcome}
    (h : t.freeBuffer port enable = some r) {buf : HeaderPtr} (hfreed : .freed buf ∈ r.2.2) :
    ∃ bufs ∈ t.portBuffers port, buf ∈ bufs := by
  unfold HeaderTable.freeBuffer at h
  split at h
  · cases h
    simp at hfreed
  · obtain ⟨bufs, hbufs, rfl⟩ := Option.map_eq_some_iff.mp h
    obtain ⟨owner, howner, hmem⟩ := List.mem_flatMap.mp hfreed
    refine ⟨bufs, hbufs, ?_⟩
    simp only [List.mem_cons, List.not_mem_nil, or_false, reduceCtorEq, false_or,
      HeaderEvent.freed.injEq] at hmem
    rwa [hmem]

/-- A header that `useBuffer` was provided with before it failed is freed by no `freeBuffer` that
follows, whatever the port. -/
theorem useBuffer_leaks {t : HeaderTable} (ht : t.Sound) {port : Int} {bufs : List HeaderPtr}
    {omx : Nat → Int} {k : Nat} (hk : k < bufs.length) (hfail : omx k ≠ 0) {buf : Nat}
    (hbuf : t.made ≤ buf) {port' enable : Int} {r : HeaderOutcome}
    (hfree : (t.useBuffer port (some bufs) 0 omx).2.1.freeBuffer port' enable = some r) :
    .freed (.header buf) ∉ r.2.2 := by
  intro hfreed
  have herr := useLoop_err port omx bufs 0 t.made hk (by rwa [Nat.zero_add])
  obtain ⟨on, hon, hmem⟩ := freeBuffer_freed hfree hfreed
  have hkept : (t.useBuffer port (some bufs) 0 omx).2.1.portBuffers = t.portBuffers := by
    simp only [HeaderTable.useBuffer]
    rw [if_neg (by simp), if_pos herr]
  rw [hkept] at hon
  have := ht port' on hon buf hmem
  omega

/-! ## Without a failure -/

/-- The headers of a client, all of which OMX has provided. -/
def OmxClient.table (c : OmxClient) : HeaderTable where
  made := c.headers.length
  portBuffers port := (c.portBuffers port).map (·.map .header)

theorem OmxClient.table_setUp (c : OmxClient) (port : Int) (headers : List BufferHeader) :
    (c.setUp port headers).table =
      { made := c.headers.length + headers.length
        portBuffers := Function.update c.table.portBuffers port
          (some ((List.range' c.headers.length headers.length).map .header)) } := by
  unfold OmxClient.table OmxClient.setUp
  simp only [List.length_append, HeaderTable.mk.injEq, true_and]
  funext i
  by_cases hi : i = port
  · subst hi
    simp
  · simp [hi]

section Connection

variable (port : Int) (omx : Nat → Int)

theorem allocateLoop_all (n index made : Nat) (h : ∀ k < n, omx (index + k) = 0) :
    (HeaderTable.allocateLoop port omx n index made).made = made + n ∧
      (HeaderTable.allocateLoop port omx n index made).buffers =
        (List.range' made n).map .header := by
  induction n generalizing index made with
  | zero => exact ⟨rfl, rfl⟩
  | succ n ih =>
      have hfirst : omx index = 0 := h 0 (Nat.succ_pos n)
      obtain ⟨hmade, hbuffers⟩ := ih (index + 1) (made + 1) fun k hk => by
        rw [show index + 1 + k = index + (k + 1) by omega]
        exact h (k + 1) (by omega)
      unfold HeaderTable.allocateLoop
      rw [if_neg (by simpa using hfirst)]
      refine ⟨?_, ?_⟩
      · show (HeaderTable.allocateLoop port omx n (index + 1) (made + 1)).made = made + (n + 1)
        omega
      · show .header made :: (HeaderTable.allocateLoop port omx n (index + 1) (made + 1)).buffers =
          (List.range' made (n + 1)).map .header
        rw [hbuffers, List.range'_succ, List.map_cons]

/-- If OMX provides all headers, `allocateBuffer` is that of `OmxClient`. -/
theorem OmxClient.allocateBuffer_table (c : OmxClient) (allocLens : List Nat) (enable : Int)
    (h : ∀ k < allocLens.length, omx k = 0) :
    (c.table.allocateBuffer port allocLens.length enable omx).1 =
        (c.allocateBuffer port allocLens enable).1 ∧
      (c.table.allocateBuffer port allocLens.length enable omx).2.1 =
        (c.allocateBuffer port allocLens enable).2.1.table := by
  unfold HeaderTable.allocateBuffer OmxClient.allocateBuffer
  split
  · exact ⟨rfl, rfl⟩
  · obtain ⟨hmade, hbuffers⟩ := allocateLoop_all port omx allocLens.length 0
      c.table.made fun k hk => by rw [Nat.zero_add]; exact h k hk
    refine ⟨rfl, ?_⟩
    simp only [OmxClient.table_setUp, List.length_mapIdx, Int.toNat_natCast, hmade, hbuffers]
    rfl

theorem useLoop_eq (owners : List BufferHeader) (bufs : List HeaderPtr)
    (hlen : bufs.length = owners.length) (index made : Nat) :
    (HeaderTable.useLoop port omx index bufs made).err =
        (OmxClient.useHeaders port omx index owners).1 ∧
      (HeaderTable.useLoop port omx index bufs made).made =
        made + (OmxClient.useHeaders port omx index owners).2.length ∧
      (HeaderTable.useLoop port omx index bufs made).buffers =
        (List.range' made (OmxClient.useHeaders port omx index owners).2.length).map .header := by
  induction owners generalizing bufs index made with
  | nil =>
      rw [List.length_nil, List.length_eq_zero_iff] at hlen
      subst hlen
      exact ⟨rfl, rfl, rfl⟩
  | cons owner owners ih =>
      obtain ⟨buf, rest, rfl⟩ := List.exists_cons_of_length_eq_add_one hlen
      unfold HeaderTable.useLoop OmxClient.useHeaders
      split
      · exact ⟨rfl, rfl, rfl⟩
      · obtain ⟨herr, hmade, hbuffers⟩ := ih rest (by simpa using hlen) (index + 1) (made + 1)
        refine ⟨herr, ?_, ?_⟩
        · show (HeaderTable.useLoop port omx (index + 1) rest (made + 1)).made = made + (_ + 1)
          omega
        · show .header made :: (HeaderTable.useLoop port omx (index + 1) rest (made + 1)).buffers =
            (List.range' made (_ + 1)).map .header
          rw [hbuffers, List.range'_succ, List.map_cons]

/-- `useBuffer` is that of `OmxClient`, whether or not OMX fails. -/
theorem OmxClient.useBuffer_table (c : OmxClient) (owners : Option (List BufferHeader))
    (bufs : Option (List HeaderPtr)) (hlen : bufs.map List.length = owners.map List.length)
    (enable : Int) :
    (c.table.useBuffer port bufs enable omx).1 = (c.useBuffer port owners enable omx).1 ∧
      (c.table.useBuffer port bufs enable omx).2.1 =
        (c.useBuffer port owners enable omx).2.1.table := by
  cases owners with
  | none =>
      rw [Option.map_none, Option.map_eq_none_iff] at hlen
      subst hlen
      exact ⟨rfl, rfl⟩
  | some owners =>
      obtain ⟨bufs, rfl, hsame⟩ := Option.map_eq_some_iff.mp hlen
      unfold HeaderTable.useBuffer OmxClient.useBuffer
      obtain ⟨herr, hmade, hbuffers⟩ := useLoop_eq port omx owners bufs hsame 0
        c.table.made
      by_cases henable : enable ≠ 0
      · simp only [if_pos henable, and_self]
      · simp only [if_neg henable, herr, hmade, hbuffers]
        split
        · simp only [OmxClient.table, List.length_append, and_self]
        · simp only [OmxClient.table_setUp, true_and]
          rfl

end Connection

end DirectMedia

import DirectMedia.Lib.Lts
import DirectMedia.Parser.Chunking

set_option autoImplicit false

/-! # What no framing and no writer can break

The framing functions and the writer are outside the parser. Whatever they return, as long as an
offset lies inside the data and the writer takes no more than it is given, the parser stays within
its buffers, keeps `frame_buffer_filled_` and `frame_buffer_required_` in step, and gets on
(`parser_safe`).

A writer that takes a part of a frame is another matter. What it leaves of a frame that is in the
data is left in the data. What it leaves of a frame completed in `frame_buffer_` is gone
(`parse_keeps_rest_iff`).
-/

namespace DirectMedia

/-- The offsets returned for data lie inside it. -/
def Framing.Inside (framing : Framing) : Prop :=
  ∀ data, data ≠ [] → framing.getFrameOffset data < data.length

namespace Parser

/-! ## Sequences of calls -/

/-- A call, with the framing functions and the writer as they are during it. -/
inductive ParserCall where
  | parse (framing : Framing) (writer : List UInt8 → Int) (data : List UInt8)
  | clear

/-- The parser after a call; `none` is an access outside the buffers. -/
def callStep (p : Parser) : ParserCall → Option Parser
  | .parse framing writer data => (p.parse framing writer data).map (·.parser)
  | .clear => some p.clear

/-- A writer takes no more than it is given. -/
def Modest (writer : List UInt8 → Int) : Prop := ∀ frame, writer frame ≤ frame.length

/-- What the parser may expect of a call. -/
def ParserCall.Expected : ParserCall → Prop
  | .parse framing writer data => data.length < 2 ^ 31 ∧ framing.Inside ∧ Modest writer
  | .clear => True

/-- There is no part of a frame in `frame_buffer_`, or there is one and the rest still fits. -/
def Bounded (p : Parser) : Prop :=
  p.frameBufferFilled = 0 ∨
    (0 < p.frameBufferFilled ∧ 0 < p.frameBufferRequired ∧
      p.frameBufferFilled + p.frameBufferRequired ≤ p.frameBufferSize)

/-- The call takes between one byte and all of them, or it returns `-1`, and then the writer has
returned a negative value. -/
def Advances (data : List UInt8) (r : Parsed) : Prop :=
  (r.result = -1 ∧ ∃ frame n, r.written = some (frame, n) ∧ n < 0) ∨
    (1 ≤ r.result ∧ r.result ≤ data.length)

/-- The call advances if it is given data. -/
def ParserCall.Answered (p : Parser) : ParserCall → Prop
  | .parse framing writer data =>
      data ≠ [] → ∀ r, p.parse framing writer data = some r → Advances data r
  | .clear => True

/-! ## One call -/

theorem memcpy_inside {p : Parser} {filled n : Int} {src : List UInt8} (hfilled : 0 ≤ filled)
    (hn : 0 ≤ n) (hfits : filled + n ≤ p.frameBufferSize) (hsrc : n ≤ src.length) :
    ∃ q, p.memcpy filled src n = some q ∧ q.frameBufferSize = p.frameBufferSize ∧
      q.frameBufferFilled = p.frameBufferFilled ∧
      q.frameBufferRequired = p.frameBufferRequired := by
  unfold memcpy
  rw [dif_pos ⟨hfilled, hn, hfits, hsrc⟩]
  exact ⟨_, rfl, rfl, rfl, rfl⟩

theorem memcpy_some {p q : Parser} {filled n : Int} {src : List UInt8}
    (h : p.memcpy filled src n = some q) :
    0 ≤ filled ∧ 0 ≤ n ∧ filled + n ≤ p.frameBufferSize ∧
      q.frameBufferSize = p.frameBufferSize ∧ q.frameBufferFilled = p.frameBufferFilled := by
  unfold memcpy at h
  split at h
  case isTrue hcopy =>
    obtain rfl := Option.some.inj h
    exact ⟨hcopy.1, hcopy.2.1, hcopy.2.2.1, rfl, rfl⟩
  case isFalse => cases h

section Call

variable {framing : Framing} {writer : List UInt8 → Int} {data : List UInt8} {p : Parser}

theorem parseAligned_safe (hp : p.frameBufferFilled = 0) (hdata : data ≠ [])
    (hshort : data.length < 2 ^ 31) (hframing : framing.Inside) (hwriter : Modest writer) :
    ∃ r, p.parseAligned framing writer data = some r ∧ r.parser.Bounded ∧ Advances data r := by
  have hpos : 0 < data.length := List.length_pos_iff.mpr hdata
  have hinside := hframing data hdata
  have hsame : p.Bounded := .inl hp
  unfold parseAligned
  rw [asInt_of_lt hshort]
  generalize framing.getFrameOffset data = offset at hinside ⊢
  by_cases hoffset : offset < 0
  · rw [if_pos hoffset]
    exact ⟨_, rfl, hsame, .inr ⟨by simp only; omega, by simp⟩⟩
  rw [if_neg hoffset, if_neg (by omega)]
  have hlength : ((data.drop offset.toNat).length : Int) = data.length - offset := by
    rw [List.length_drop]
    omega
  generalize data.drop offset.toNat = pos at hlength ⊢
  simp only
  generalize framing.getFrameSize pos = size
  by_cases hnegative : size < 0
  · rw [if_pos hnegative]
    exact ⟨_, rfl, hsame, .inr ⟨by simp only; omega, by simp⟩⟩
  rw [if_neg hnegative]
  by_cases hwhole : size ≤ data.length - offset
  · -- the frame is in the data
    rw [if_pos hwhole]
    have htaken : ((pos.take size.toNat).length : Int) ≤ size := by
      rw [List.length_take]
      omega
    have hwritten := hwriter (pos.take size.toNat)
    by_cases hrefused : writer (pos.take size.toNat) < 0
    · rw [if_pos hrefused]
      exact ⟨_, rfl, hsame, .inl ⟨rfl, _, _, rfl, hrefused⟩⟩
    rw [if_neg hrefused]
    by_cases hnothing : writer (pos.take size.toNat) = 0
    · rw [if_pos hnothing]
      exact ⟨_, rfl, hsame, .inr ⟨by simp only; omega, by simp⟩⟩
    rw [if_neg hnothing]
    exact ⟨_, rfl, hsame, .inr ⟨by simp only; omega, by simp only; omega⟩⟩
  rw [if_neg hwhole]
  by_cases hlarge : size > p.frameBufferSize
  · rw [if_pos hlarge]
    exact ⟨_, rfl, hsame, .inr ⟨by simp only; omega, by simp⟩⟩
  -- a part of a frame is kept: the copy is shorter than the frame, which fits
  rw [if_neg hlarge]
  obtain ⟨q, hq, hsize, -, -⟩ := @memcpy_inside p 0 (data.length - offset) pos (Int.le_refl 0)
    (by omega) (by omega) (by omega)
  rw [hq, Option.map_some]
  refine ⟨_, rfl, .inr ⟨?_, ?_, ?_⟩, .inr ⟨?_, ?_⟩⟩
  all_goals simp only [hsize]; omega

theorem parseMerged_safe (hp : 0 < p.frameBufferFilled ∧ 0 < p.frameBufferRequired ∧
      p.frameBufferFilled + p.frameBufferRequired ≤ p.frameBufferSize) (hdata : data ≠ [])
    (hshort : data.length < 2 ^ 31) :
    ∃ r, p.parseMerged writer data = some r ∧ r.parser.Bounded ∧ Advances data r := by
  obtain ⟨hfilled, hrequired, hfits⟩ := hp
  have hpos : 0 < data.length := List.length_pos_iff.mpr hdata
  -- the copy takes what is there, but no more than what is missing
  have hcopy : 1 ≤ p.copyToFrameBuffer data.length ∧
      p.copyToFrameBuffer data.length ≤ data.length ∧
      p.copyToFrameBuffer data.length ≤ p.frameBufferRequired := by
    unfold copyToFrameBuffer
    split <;> omega
  unfold parseMerged
  simp only [asInt_of_lt hshort]
  generalize p.copyToFrameBuffer data.length = copy at hcopy ⊢
  obtain ⟨hone, hle, hmissing⟩ := hcopy
  obtain ⟨q, hq, hqsize, hqfilled, hqrequired⟩ := @memcpy_inside p
    p.frameBufferFilled copy data (by omega) (by omega) (by omega) hle
  rw [hq, Option.bind_eq_bind, Option.bind_some]
  by_cases hmore : copy < q.frameBufferRequired
  · rw [if_pos hmore]
    refine ⟨_, rfl, .inr ⟨?_, ?_, ?_⟩, .inr ⟨hone, hle⟩⟩
    all_goals simp only [hqsize, hqfilled, hqrequired] at hmore ⊢; omega
  rw [if_neg hmore]
  generalize q.frameBuffer.take (q.frameBufferFilled + copy).toNat = frame
  by_cases hrefused : writer frame < 0
  · -- the parser is as before but for the bytes behind the part that it keeps
    rw [if_pos hrefused]
    refine ⟨_, rfl, .inr ⟨?_, ?_, ?_⟩, .inl ⟨rfl, _, _, rfl, hrefused⟩⟩
    all_goals simp only [hqsize, hqfilled, hqrequired]; omega
  rw [if_neg hrefused]
  by_cases hnothing : writer frame = 0
  · rw [if_pos hnothing]
    exact ⟨_, rfl, .inl rfl, .inr ⟨by simp only; omega, by simp⟩⟩
  · rw [if_neg hnothing]
    exact ⟨_, rfl, .inl rfl, .inr ⟨hone, hle⟩⟩

/-- A call with data. -/
theorem parse_safe (hp : p.Bounded) (hdata : data ≠ []) (hshort : data.length < 2 ^ 31)
    (hframing : framing.Inside) (hwriter : Modest writer) :
    ∃ r, p.parse framing writer data = some r ∧ r.parser.Bounded ∧ Advances data r := by
  have hlength : data.length ≠ 0 := fun h => hdata (List.length_eq_zero_iff.mp h)
  unfold parse
  rw [if_neg hlength]
  by_cases hfilled : p.frameBufferFilled = 0
  · rw [if_pos hfilled]
    exact parseAligned_safe hfilled hdata hshort hframing hwriter
  · rw [if_neg hfilled]
    exact parseMerged_safe (hp.resolve_left hfilled) hdata hshort

end Call

/-- A call keeps the bounds. -/
theorem callStep_bounded {p : Parser} (hp : p.Bounded) {c : ParserCall} (hc : c.Expected) :
    ∃ q, p.callStep c = some q ∧ q.Bounded := by
  cases c with
  | clear => exact ⟨p.clear, rfl, .inl rfl⟩
  | parse framing writer data =>
      obtain ⟨hshort, hframing, hwriter⟩ := hc
      by_cases hdata : data = []
      · -- the end of the stream passes the parser by
        subst hdata
        exact ⟨p, rfl, hp⟩
      · obtain ⟨r, hr, hbounded, -⟩ := parse_safe hp hdata hshort hframing hwriter
        exact ⟨r.parser, by rw [callStep, hr, Option.map_some], hbounded⟩

/-! ## The caller -/

/-- How far a caller has come that advances by what `parse` returns. -/
inductive Progress where
  | finished (p : Parser)
  /-- the writer has refused -/
  | refused (rest : List UInt8) (p : Parser)
  /-- it has made all the calls it was allowed -/
  | underway (rest : List UInt8) (p : Parser)

/-- The caller makes `n` calls at most; the framing functions and the writer may be others each
time. -/
def advanceAll (outside : Nat → Framing × (List UInt8 → Int)) : Nat → List UInt8 → Parser →
    Option Progress
  | 0, rest, p => if rest.length = 0 then some (.finished p) else some (.underway rest p)
  | n + 1, rest, p =>
      if rest.length = 0 then some (.finished p)
      else
        (p.parse (outside n).1 (outside n).2 rest).bind fun r =>
          if r.result < 0 then some (.refused rest r.parser)
          else advanceAll outside n (rest.drop r.result.toNat) r.parser

/-- As many calls as there are bytes are enough. -/
theorem advanceAll_ends (outside : Nat → Framing × (List UInt8 → Int))
    (houtside : ∀ n, (outside n).1.Inside ∧ Modest (outside n).2) :
    ∀ (n : Nat) (rest : List UInt8) (p : Parser), p.Bounded → rest.length < 2 ^ 31 →
      rest.length ≤ n → ∃ q, advanceAll outside n rest p = some (.finished q) ∨
        ∃ left, advanceAll outside n rest p = some (.refused left q) := by
  intro n
  induction n with
  | zero =>
      intro rest p _ _ hn
      exact ⟨p, .inl (by rw [advanceAll, if_pos (by omega)])⟩
  | succ n ih =>
      intro rest p hp hshort hn
      by_cases hempty : rest.length = 0
      · exact ⟨p, .inl (by rw [advanceAll, if_pos hempty])⟩
      · have hrest : rest ≠ [] := fun h => hempty (by rw [h]; rfl)
        obtain ⟨r, hr, hbounded, hadvances⟩ :=
          parse_safe hp hrest hshort (houtside n).1 (houtside n).2
        rw [advanceAll, if_neg hempty, hr, Option.bind_some]
        obtain ⟨hresult, -⟩ | ⟨hone, hle⟩ := hadvances
        · rw [if_pos (by omega)]
          exact ⟨r.parser, .inr ⟨rest, rfl⟩⟩
        · rw [if_neg (by omega)]
          exact ih _ r.parser hbounded (by rw [List.length_drop]; omega)
            (by rw [List.length_drop]; omega)

/-- **The parser is safe and gets on.** In any sequence of calls it stays inside its buffers and
keeps its bounds, every call with data advances, and a caller that goes on from there comes to the
end of its data unless the writer refuses. A new parser has the bounds. -/
theorem parser_safe (p : Parser) (hp : p.Bounded) (calls : List ParserCall)
    (hcalls : ∀ c ∈ calls, c.Expected) :
    ∃ q, Lts.exec callStep p calls = some q ∧ q.Bounded ∧
      Lts.Along callStep (fun p c => c.Answered p) p calls ∧
      ∀ (outside : Nat → Framing × (List UInt8 → Int)),
        (∀ n, (outside n).1.Inside ∧ Modest (outside n).2) →
        ∀ rest : List UInt8, rest.length < 2 ^ 31 → ∃ z,
          advanceAll outside rest.length rest q = some (.finished z) ∨
            ∃ left, advanceAll outside rest.length rest q = some (.refused left z) := by
  induction calls generalizing p with
  | nil =>
      refine ⟨p, rfl, hp, trivial, fun outside houtside rest hrest => ?_⟩
      exact advanceAll_ends outside houtside _ rest p hp hrest (Nat.le_refl _)
  | cons c calls ih =>
      have hc := hcalls c List.mem_cons_self
      obtain ⟨q, hq, hbounded⟩ := callStep_bounded hp hc
      obtain ⟨z, hz, hz', halong, hends⟩ := ih q hbounded fun d hd =>
        hcalls d (List.mem_cons_of_mem c hd)
      refine ⟨z, Lts.exec_cons_iff.mpr ⟨q, hq, hz⟩, hz', Lts.Along.cons ?_ hq halong, hends⟩
      cases c with
      | clear => trivial
      | parse framing writer data =>
          obtain ⟨hshort, hframing, hwriter⟩ := hc
          intro hdata r hr
          obtain ⟨r', hr', -, hadvances⟩ := parse_safe hp hdata hshort hframing hwriter
          obtain rfl := Option.some.inj (hr.symm.trans hr')
          exact hadvances

/-- A parser with a buffer of two bytes. -/
def twoBytes : Parser := { frameBuffer := [0, 0], frameBufferSize := 2, allocated := rfl }

theorem inside_ofLength (n : Nat) : (Framing.ofLength n).Inside := fun _ hdata => by
  have := List.length_pos_iff.mpr hdata
  show (0 : Int) < _
  omega

theorem parser_safe_twoBytes :
    ∃ q, Lts.exec callStep twoBytes
        [.parse (.ofLength 2) (fun frame => frame.length) [1], .clear] = some q ∧ q.Bounded := by
  obtain ⟨q, hq, hbounded, -⟩ := parser_safe twoBytes (.inl rfl)
    [.parse (.ofLength 2) (fun frame => frame.length) [1], .clear] (by
      intro c hc
      rcases List.mem_pair.mp hc with rfl | rfl
      · exact ⟨by decide, inside_ofLength 2, fun frame => Int.le_refl _⟩
      · trivial)
  exact ⟨q, hq, hbounded⟩

/-! ## Frames that are taken in part -/

/-- Where the first byte of the frame stands in the data; it is before the data if a part of the
frame is in `frame_buffer_`. -/
def origin (framing : Framing) (data : List UInt8) (p : Parser) : Int :=
  if p.frameBufferFilled = 0 then framing.getFrameOffset data else -p.frameBufferFilled

/-- After the call byte `j` of the frame is in the data that the call has not taken, or it is in
`frame_buffer_` and belongs to the part that is kept. -/
def Remains (framing : Framing) (data : List UInt8) (p : Parser) (r : Parsed)
    (frame : List UInt8) (j : Nat) : Prop :=
  (0 ≤ p.origin framing data + j ∧ r.result ≤ p.origin framing data + j ∧
      data[(p.origin framing data + j).toNat]? = frame[j]?) ∨
    (j < r.parser.frameBufferFilled ∧ r.parser.frameBuffer[j]? = frame[j]?)

instance (framing : Framing) (data : List UInt8) (p : Parser) (r : Parsed) (frame : List UInt8)
    (j : Nat) : Decidable (Remains framing data p r frame j) :=
  inferInstanceAs (Decidable (_ ∨ _))

section ShortWrite

variable {framing : Framing} {writer : List UInt8 → Int} {data frame : List UInt8} {p : Parser}
  {r : Parsed} {written : Int}

/-- A frame in the data: the call takes what is before it and what the writer took. -/
theorem parseAligned_written (h : p.parseAligned framing writer data = some r)
    (hwritten : r.written = some (frame, written)) (hpos : 0 < written) :
    0 ≤ framing.getFrameOffset data ∧ r.result = framing.getFrameOffset data + written ∧
      ∃ size, frame = (data.drop (framing.getFrameOffset data).toNat).take size := by
  unfold parseAligned at h
  extract_lets offset pos remained size frame' written' at h
  have hnone : ∀ {q : Parsed}, q.written = none → some q = some r → False := by
    intro q hq hr
    obtain rfl := Option.some.inj hr
    rw [hq] at hwritten
    cases hwritten
  split_ifs at h
  · exact (hnone rfl h).elim
  · exact (hnone rfl h).elim
  · obtain rfl := Option.some.inj h
    obtain ⟨rfl, rfl⟩ := Prod.mk.inj (Option.some.inj hwritten)
    omega
  · obtain rfl := Option.some.inj h
    obtain ⟨rfl, rfl⟩ := Prod.mk.inj (Option.some.inj hwritten)
    omega
  · obtain rfl := Option.some.inj h
    obtain ⟨rfl, rfl⟩ := Prod.mk.inj (Option.some.inj hwritten)
    exact ⟨by omega, rfl, size.toNat, rfl⟩
  · exact (hnone rfl h).elim
  · obtain ⟨q, -, rfl⟩ := Option.map_eq_some_iff.mp h
    cases hwritten

/-- A frame completed in `frame_buffer_`: nothing of it is kept, and the call takes all of it that
was in the data. -/
theorem parseMerged_written (h : p.parseMerged writer data = some r)
    (hwritten : r.written = some (frame, written)) (hpos : 0 < written) :
    r.parser.frameBufferFilled = 0 ∧ (frame.length : Int) = p.frameBufferFilled + r.result := by
  obtain ⟨q, hq, h⟩ := Option.bind_eq_some_iff.mp h
  obtain ⟨hfilled, hcopy, hfits, hsize, hqfilled⟩ := memcpy_some hq
  extract_lets frame' written' at h
  split_ifs at h
  · obtain rfl := Option.some.inj h
    cases hwritten
  · obtain rfl := Option.some.inj h
    obtain ⟨rfl, rfl⟩ := Prod.mk.inj (Option.some.inj hwritten)
    omega
  · obtain rfl := Option.some.inj h
    obtain ⟨rfl, rfl⟩ := Prod.mk.inj (Option.some.inj hwritten)
    omega
  · obtain rfl := Option.some.inj h
    obtain ⟨rfl, rfl⟩ := Prod.mk.inj (Option.some.inj hwritten)
    refine ⟨rfl, ?_⟩
    have hallocated := q.allocated
    simp only [frame', List.length_take]
    omega

/-- **Short writes.** A call in which the writer takes a part of a frame leaves the rest of the
frame in the data or in `frame_buffer_` exactly if no part of the frame was in `frame_buffer_`
before the call. -/
theorem parse_keeps_rest_iff (framing : Framing) (writer : List UInt8 → Int)
    (data : List UInt8) (p : Parser) (r : Parsed) (h : p.parse framing writer data = some r)
    (frame : List UInt8) (written : Int) (hwritten : r.written = some (frame, written))
    (hpos : 0 < written) (hshort : written < frame.length) :
    (∀ j : Nat, written ≤ j → j < frame.length → Remains framing data p r frame j) ↔
      p.frameBufferFilled = 0 := by
  have hdata : data.length ≠ 0 := by
    intro hempty
    rw [parse, if_pos hempty] at h
    obtain rfl := Option.some.inj h
    obtain ⟨rfl, -⟩ := Prod.mk.inj (Option.some.inj hwritten)
    omega
  rw [parse, if_neg hdata] at h
  by_cases hfilled : p.frameBufferFilled = 0
  · rw [if_pos hfilled] at h
    obtain ⟨hoffset, hresult, size, rfl⟩ := parseAligned_written h hwritten hpos
    refine iff_of_true (fun j hj hlt => .inl ?_) hfilled
    rw [origin, if_pos hfilled]
    refine ⟨by omega, by omega, ?_⟩
    rw [List.length_take] at hlt
    rw [List.getElem?_take_of_lt (by omega), List.getElem?_drop]
    congr 1
    omega
  · rw [if_neg hfilled] at h
    obtain ⟨hcleared, hlength⟩ := parseMerged_written h hwritten hpos
    refine iff_of_false (fun hall => ?_) hfilled
    -- the last byte of the frame is neither kept nor left in the data
    obtain ⟨-, hresult, -⟩ | ⟨hpending, -⟩ := hall (frame.length - 1) (by omega) (by omega)
    · rw [origin, if_neg hfilled] at hresult
      omega
    · rw [hcleared] at hpending
      omega

end ShortWrite

theorem parse_keeps_rest_iff_whole :
    ∃ r, twoBytes.parse (.ofLength 2) (fun _ => 1) [1, 2] = some r ∧
      ((∀ j : Nat, (1 : Int) ≤ j → j < [1, 2].length →
        Remains (.ofLength 2) [1, 2] twoBytes r [1, 2] j) ↔ twoBytes.frameBufferFilled = 0) :=
  ⟨_, rfl, parse_keeps_rest_iff (.ofLength 2) (fun _ => 1) [1, 2] twoBytes _ rfl [1, 2] 1 rfl
    (by decide) (by decide)⟩

/-- A frame of two bytes in two calls, of which the writer takes one byte: the other is gone. -/
theorem parse_loses_rest :
    ∃ q r, twoBytes.parse (.ofLength 2) (fun _ => 1) [1] = some { result := 1, parser := q } ∧
      q.parse (.ofLength 2) (fun _ => 1) [2] = some r ∧ r.written = some ([1, 2], 1) ∧
      ¬ Remains (.ofLength 2) [2] q r [1, 2] 1 :=
  ⟨_, _, rfl, rfl, rfl, by decide⟩

end Parser

end DirectMedia

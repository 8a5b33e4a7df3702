import DirectMedia.Lib.Chunks
import DirectMedia.Parser.Parse

set_option autoImplicit false

/-! # Frames through the parser, in chunks

A caller feeds the parser a stream that is a sequence of frames. It gives `parse` what is left of
the chunk at hand, goes on by what `parse` returns, and tries again after -1. The writer takes a
frame whole or answers -1.

`int remained = len` makes a chunk of `2 ^ 31` bytes or more negative. Up to that length it does not
matter how the stream is cut, if no cut is too close to the start of a frame.
-/

namespace DirectMedia

open Chunks

/-- A writer that takes every frame whole, or none. -/
def wholeWriter (accepts : Bool) (frame : List UInt8) : Int :=
  if accepts then frame.length else -1

@[simp] theorem wholeWriter_true (frame : List UInt8) : wholeWriter true frame = frame.length := rfl

@[simp] theorem wholeWriter_false (frame : List UInt8) : wholeWriter false frame = -1 := rfl

/-- The parser, what is left of the chunks, and what the writer has accepted. -/
structure Feeder where
  parser : Parser
  chunks : List (List UInt8)
  accepted : List (List UInt8) := []

namespace Feeder

/-- One call of `parse`; `none` if it leaves its buffers. -/
def feed (framing : Framing) (x : Feeder) (accepts : Bool) : Option Feeder :=
  match x.chunks with
  | [] => some x
  | data :: _ => do
      let r ← x.parser.parse framing (wholeWriter accepts) data
      some
        { parser := r.parser
          chunks := if r.result = -1 then x.chunks else advance r.result.toNat x.chunks
          accepted := x.accepted ++
            match r.written with
            | some (frame, written) => if 0 < written then [frame] else []
            | none => [] }

/-- The first `n` calls, where `answers` are those of the writer. -/
def feeds (framing : Framing) (answers : Nat → Bool) (x : Feeder) : Nat → Option Feeder
  | 0 => some x
  | n + 1 => (x.feeds framing answers n).bind fun y => y.feed framing (answers n)

/-- After finitely many calls all is parsed, the writer has accepted the frames, and the parser
keeps nothing. -/
def Delivers (framing : Framing) (answers : Nat → Bool) (x : Feeder) (frames : List (List UInt8)) :
    Prop :=
  ∃ n y, x.feeds framing answers n = some y ∧ y.chunks = [] ∧ y.accepted = frames ∧
    y.parser.frameBufferFilled = 0 ∧ y.parser.frameBufferRequired = 0

end Feeder

/-- With the first `h` bytes of a frame at hand, and more of it or of what follows, the framing
functions find it. -/
def Framed (framing : Framing) (h : Nat) (frameBufferSize : Int) : List (List UInt8) → Prop
  | [] => True
  | f :: frames =>
      (h ≤ f.length ∧ f.length ≤ frameBufferSize) ∧
        (∀ data, data <+: f ++ frames.flatten → h ≤ data.length →
          framing.getFrameOffset data = 0 ∧ framing.getFrameSize data = f.length) ∧
        Framed framing h frameBufferSize frames

/-- The stream of `frames`, in chunks whose lengths are of type `unsigned int`. -/
structure Division (h : Nat) (frames chunks : List (List UInt8)) : Prop where
  flatten : chunks.flatten = frames.flatten
  nonempty : ∀ c ∈ chunks, c ≠ []
  length_lt : ∀ c ∈ chunks, c.length < 2 ^ 32
  noCut : NoCut h 0 frames chunks

/-! ## One call -/

namespace Feeder

section Feed

variable {framing : Framing} {h : Nat}

/-- Where the parser is in the frames that are still to be written: before the first of them, or in
it with `part` in the buffer. -/
inductive At (framing : Framing) (h : Nat) (x : Feeder) : List (List UInt8) → Prop
  | aligned {frames : List (List UInt8)} (keeps : x.parser.Keeps [] 0)
      (flatten : x.chunks.flatten = frames.flatten) (noCut : NoCut h 0 frames x.chunks)
      (framed : Framed framing h x.parser.frameBufferSize frames) : At framing h x frames
  | inside {part rest : List UInt8} {frames : List (List UInt8)} (part_ne : part ≠ [])
      (rest_ne : rest ≠ []) (keeps : x.parser.Keeps part rest.length)
      (flatten : x.chunks.flatten = rest ++ frames.flatten)
      (noCut : NoCut h rest.length frames x.chunks)
      (framed : Framed framing h x.parser.frameBufferSize frames) :
      At framing h x ((part ++ rest) :: frames)

/-- What holds before and after every call. -/
structure Follows (framing : Framing) (h bound : Nat) (all : List (List UInt8)) (x : Feeder) :
    Prop where
  nonempty : ∀ c ∈ x.chunks, c ≠ []
  length_lt : ∀ c ∈ x.chunks, c.length < bound
  at_frames : ∃ frames, all = x.accepted ++ frames ∧ x.At framing h frames

variable {frames cs : List (List UInt8)} {data : List UInt8} {x : Feeder}

/-! The outcomes of a call, as they come back to the caller. -/

theorem feed_refused {q : Parser} {frame : List UInt8} {accepts : Bool} {written : Int}
    (hx : x.chunks = data :: cs) (hwritten : written < 0)
    (hparse : x.parser.parse framing (wholeWriter accepts) data =
      some { result := -1, parser := q, written := some (frame, written) }) :
    x.feed framing accepts = some { x with parser := q } := by
  have hnot : ¬ 0 < written := by omega
  simp [feed, hx, hparse, hnot]

theorem feed_kept {q : Parser} {accepts : Bool} {m : Nat} (hx : x.chunks = data :: cs)
    (hparse : x.parser.parse framing (wholeWriter accepts) data =
      some { result := m, parser := q }) :
    x.feed framing accepts =
      some { parser := q, chunks := advance m x.chunks, accepted := x.accepted } := by
  have hm : ¬ (m : Int) = -1 := by omega
  simp [feed, hx, hparse, hm]

theorem feed_taken {q : Parser} {frame : List UInt8} {accepts : Bool} {m : Nat} {written : Int}
    (hx : x.chunks = data :: cs) (hwritten : 0 < written)
    (hparse : x.parser.parse framing (wholeWriter accepts) data =
      some { result := m, parser := q, written := some (frame, written) }) :
    x.feed framing accepts =
      some { parser := q, chunks := advance m x.chunks, accepted := x.accepted ++ [frame] } := by
  have hm : ¬ (m : Int) = -1 := by omega
  simp [feed, hx, hparse, hm, hwritten]

/-- What a call does to a caller with `data` at hand: it stays where it is if the writer refuses, or
it moves on. -/
structure Fed (framing : Framing) (h : Nat) (data : List UInt8) (accepts : Bool) (x y : Feeder)
    (frames : List (List UInt8)) : Prop where
  moves : accepts = false ∧ y.chunks = x.chunks ∨
    ∃ m, 0 < m ∧ m ≤ data.length ∧ y.chunks = advance m x.chunks
  at_frames : ∃ rest, x.accepted ++ frames = y.accepted ++ rest ∧ y.At framing h rest

theorem At.feed_aligned (hx : x.chunks = data :: cs) (hdata : data ≠ [])
    (hshort : data.length < 2 ^ 31) (hpos : 1 ≤ h) (keeps : x.parser.Keeps [] 0)
    (flatten : x.chunks.flatten = frames.flatten) (noCut : NoCut h 0 frames x.chunks)
    (framed : Framed framing h x.parser.frameBufferSize frames) (accepts : Bool) :
    ∃ y, x.feed framing accepts = some y ∧ Fed framing h data accepts x y frames := by
  have hlength := List.length_pos_iff.mpr hdata
  cases frames with
  | nil =>
      rw [hx, List.flatten_cons] at flatten
      exact absurd (List.append_eq_nil_iff.mp flatten).1 hdata
  | cons f frames =>
      have hall := flatten
      rw [hx, List.flatten_cons, List.flatten_cons] at flatten
      rw [hx] at noCut
      obtain ⟨⟨hlow, hfits⟩, hfind, hframed⟩ := framed
      obtain ⟨hoffset, hsize⟩ := hfind data ⟨cs.flatten, flatten⟩ (noCut.le_length hdata)
      rcases append_cases flatten with ⟨rest, hrest, rfl, hcs⟩ | ⟨more, hmore, hframes⟩
      · -- the frame goes on behind `data`, which is kept
        have hrestlength := List.length_pos_iff.mpr hrest
        rw [List.length_append] at hsize
        obtain ⟨q, hparse, hkeeps⟩ := Parser.parse_aligned_kept framing (wholeWriter accepts)
          keeps hdata hshort hoffset hsize (by omega) (by simpa using hfits)
        refine ⟨_, feed_kept hx hparse, Or.inr ⟨_, hlength, Nat.le_refl _, rfl⟩, _, rfl, ?_⟩
        rw [Nat.add_sub_cancel_left] at hkeeps
        rw [hx, advance_ge (Nat.le_refl _)]
        have hcut := noCut.tail.consume (Nat.le_refl data.length) (by simp)
        rw [advance_ge (Nat.le_refl _), Nat.zero_add, List.length_append,
          Nat.add_sub_cancel_left] at hcut
        exact At.inside hdata hrest hkeeps hcs hcut (Parser.parse_size hparse ▸ hframed)
      · -- the frame is there, and goes to the writer
        have hle : f.length ≤ data.length := by simp [hmore]
        have hframe : data.take f.length = f := by simp [hmore]
        have hparse := Parser.parse_aligned_whole framing (wholeWriter accepts) keeps hdata hshort
          hoffset hsize hle
        simp only [hframe] at hparse
        cases accepts with
        | false =>
            -- nothing is consumed, and the same chunk is fed again
            rw [wholeWriter_false, if_pos (by decide)] at hparse
            refine ⟨_, feed_refused hx (by decide) hparse, Or.inl ⟨rfl, rfl⟩, _, rfl, ?_⟩
            exact At.aligned keeps hall (hx ▸ noCut) ⟨⟨hlow, hfits⟩, hfind, hframed⟩
        | true =>
            rw [wholeWriter_true, if_neg (by omega), if_neg (by omega)] at hparse
            refine ⟨_, feed_taken hx (by omega) hparse, Or.inr ⟨_, by omega, hle, rfl⟩, frames,
              by simp, ?_⟩
            refine At.aligned keeps ?_ ?_ hframed
            · calc (advance f.length x.chunks).flatten
                  = x.chunks.flatten.drop f.length := by rw [hx, flatten_advance hle]
                _ = (f ++ frames.flatten).drop f.length := by rw [hall, List.flatten_cons]
                _ = frames.flatten := List.drop_left
            · rw [hx]
              exact noCut.consume_record hle

theorem At.feed_inside {part rest : List UInt8} (hx : x.chunks = data :: cs) (hdata : data ≠ [])
    (hshort : data.length < 2 ^ 31) (part_ne : part ≠ []) (rest_ne : rest ≠ [])
    (keeps : x.parser.Keeps part rest.length) (flatten : x.chunks.flatten = rest ++ frames.flatten)
    (noCut : NoCut h rest.length frames x.chunks)
    (framed : Framed framing h x.parser.frameBufferSize frames) (accepts : Bool) :
    ∃ y, x.feed framing accepts = some y ∧
      Fed framing h data accepts x y ((part ++ rest) :: frames) := by
  have hlength := List.length_pos_iff.mpr hdata
  have hall := flatten
  rw [hx, List.flatten_cons] at flatten
  rw [hx] at noCut
  rcases append_cases flatten with ⟨rest, hrest, rfl, hcs⟩ | ⟨more, rfl, hframes⟩
  · -- the frame goes on behind `data`
    have hrestlength := List.length_pos_iff.mpr hrest
    rw [List.length_append] at keeps noCut
    obtain ⟨q, hparse, hkeeps⟩ := Parser.parse_merged_grown framing (wholeWriter accepts)
      keeps part_ne hdata hshort (by omega)
    refine ⟨_, feed_kept hx hparse, Or.inr ⟨_, hlength, Nat.le_refl _, rfl⟩, _, rfl, ?_⟩
    rw [Nat.add_sub_cancel_left] at hkeeps
    rw [hx, advance_ge (Nat.le_refl _), ← List.append_assoc]
    have hcut := noCut.consume (Nat.le_refl data.length) (Nat.le_add_right _ _)
    rw [advance_ge (Nat.le_refl _), Nat.add_sub_cancel_left] at hcut
    have hpart : part ++ data ≠ [] := by simp [part_ne]
    exact At.inside hpart hrest hkeeps hcs hcut (Parser.parse_size hparse ▸ framed)
  · -- the frame is complete, and goes to the writer
    have hle : rest.length ≤ (rest ++ more).length := by simp
    obtain ⟨q, hkeeps, hparse⟩ := Parser.parse_merged_whole framing (wholeWriter accepts)
      keeps part_ne hdata hshort hle
    have hqsize := Parser.parse_size hparse
    simp only [List.take_left] at hparse hqsize
    cases accepts with
    | false =>
        -- the bytes are in the buffer already, but the parser still waits for them
        rw [wholeWriter_false, if_pos (by decide), if_pos (by decide)] at hparse
        rw [wholeWriter_false, if_pos (by decide)] at hqsize
        refine ⟨_, feed_refused hx (by decide) hparse, Or.inl ⟨rfl, rfl⟩, _, rfl, ?_⟩
        exact At.inside part_ne rest_ne hkeeps hall (hx ▸ noCut) (hqsize ▸ framed)
    | true =>
        have hpart := List.length_pos_iff.mpr part_ne
        have hrest := List.length_pos_iff.mpr rest_ne
        have hwritten : ((part ++ rest).length : Int) > 0 := by
          rw [List.length_append]
          omega
        rw [wholeWriter_true, if_neg (by omega), if_neg (by omega), if_neg (by omega)] at hparse
        rw [wholeWriter_true, if_neg (by omega)] at hqsize
        refine ⟨_, feed_taken hx hwritten hparse, Or.inr ⟨_, hrest, hle, rfl⟩, frames, by simp, ?_⟩
        refine At.aligned (Parser.keeps_clear q) ?_ ?_ (hqsize ▸ framed)
        · calc (advance rest.length x.chunks).flatten
              = x.chunks.flatten.drop rest.length := by rw [hx, flatten_advance hle]
            _ = (rest ++ frames.flatten).drop rest.length := by rw [hall]
            _ = frames.flatten := List.drop_left
        · have hcut := noCut.consume hle (Nat.le_refl _)
          rw [Nat.sub_self] at hcut
          rwa [hx]

theorem At.feed_short (hat : x.At framing h frames) (hx : x.chunks = data :: cs) (hdata : data ≠ [])
    (hshort : data.length < 2 ^ 31) (hpos : 1 ≤ h) (accepts : Bool) :
    ∃ y, x.feed framing accepts = some y ∧ Fed framing h data accepts x y frames := by
  cases hat with
  | aligned keeps flatten noCut framed =>
      exact feed_aligned hx hdata hshort hpos keeps flatten noCut framed accepts
  | inside part_ne rest_ne keeps flatten noCut framed =>
      exact feed_inside hx hdata hshort part_ne rest_ne keeps flatten noCut framed accepts

/-- No call goes well with a chunk that is too long. -/
theorem At.feed_long (hat : x.At framing h frames) (hx : x.chunks = data :: cs)
    (hlong : 2 ^ 31 ≤ data.length) (hlength : data.length < 2 ^ 32) (accepts : Bool) :
    x.feed framing accepts = none := by
  have hdata : data ≠ [] := by
    rintro rfl
    simp at hlong
  have hnone : x.parser.parse framing (wholeWriter accepts) data = none := by
    cases hat with
    | inside part_ne _ keeps =>
        exact Parser.parse_merged_long _ _ keeps part_ne hlong hlength
    | aligned keeps flatten noCut framed =>
        rw [hx] at flatten noCut
        cases frames with
        | nil => exact absurd (List.append_eq_nil_iff.mp flatten).1 hdata
        | cons f frames =>
            obtain ⟨⟨-, hfits⟩, hfind, -⟩ := framed
            obtain ⟨hoffset, hsize⟩ :=
              hfind data ⟨cs.flatten, flatten⟩ (noCut.le_length hdata)
            exact Parser.parse_aligned_long _ _ keeps hlong hlength hoffset hsize hfits
  simp [feed, hx, hnone]

/-- With no chunk left there is no frame left. -/
theorem At.eq_nil (hat : x.At framing h frames) (hx : x.chunks = []) (hpos : 1 ≤ h) :
    frames = [] ∧ x.parser.Keeps [] 0 := by
  cases hat with
  | inside part_ne rest_ne keeps flatten =>
      rw [hx] at flatten
      exact absurd (List.append_eq_nil_iff.mp flatten.symm).1 rest_ne
  | aligned keeps flatten noCut framed =>
      refine ⟨?_, keeps⟩
      cases frames with
      | nil => rfl
      | cons f frames =>
          have hlow := framed.1.1
          have hlength := congrArg List.length flatten
          simp only [hx, List.flatten_cons, List.flatten_nil, List.length_nil,
            List.length_append] at hlength
          omega

variable {bound : Nat} {all : List (List UInt8)}

/-- **A call keeps the parser in step with the frames.** The caller stays where it is or moves on.
-/
theorem Follows.feed (hfollows : x.Follows framing h bound all) (hpos : 1 ≤ h)
    (hx : x.chunks = data :: cs) (hshort : data.length < 2 ^ 31) (accepts : Bool) :
    ∃ y, x.feed framing accepts = some y ∧ y.Follows framing h bound all ∧
      (accepts = false ∧ y.chunks = x.chunks ∨
        ∃ m, 0 < m ∧ m ≤ data.length ∧ y.chunks = advance m x.chunks) := by
  obtain ⟨frames, hall, hat⟩ := hfollows.at_frames
  have hdata : data ≠ [] := hfollows.nonempty data (by simp [hx])
  obtain ⟨y, hy, hmoves, frames', hrest, hat'⟩ := hat.feed_short hx hdata hshort hpos accepts
  refine ⟨y, hy, ⟨?_, ?_, frames', hall.trans hrest, hat'⟩, hmoves⟩
  · intro c hc
    rcases hmoves with ⟨-, heq⟩ | ⟨m, -, -, heq⟩
    · exact hfollows.nonempty c (heq ▸ hc)
    · rcases of_mem_advance (heq ▸ hc) with hc | ⟨d, -, rfl, hlt⟩
      · exact hfollows.nonempty c hc
      · rw [ne_eq, List.drop_eq_nil_iff]
        omega
  · intro c hc
    rcases hmoves with ⟨-, heq⟩ | ⟨m, -, -, heq⟩
    · exact hfollows.length_lt c (heq ▸ hc)
    · rcases of_mem_advance (heq ▸ hc) with hc | ⟨d, hd, rfl, -⟩
      · exact hfollows.length_lt c hc
      · have := hfollows.length_lt d hd
        rw [List.length_drop]
        omega

/-! ## All calls -/

/-- A call with chunks that are short enough: it never takes the caller back, and takes it on if the
writer accepts. -/
theorem Follows.feed_length (hfollows : x.Follows framing h (2 ^ 31) all) (hpos : 1 ≤ h)
    (accepts : Bool) :
    ∃ y, x.feed framing accepts = some y ∧ y.Follows framing h (2 ^ 31) all ∧
      y.chunks.flatten.length ≤ x.chunks.flatten.length ∧
      (accepts = true → x.chunks ≠ [] → y.chunks.flatten.length < x.chunks.flatten.length) := by
  cases hx : x.chunks with
  | nil => exact ⟨x, by simp [Feeder.feed, hx], hfollows, by rw [hx], fun _ h => absurd rfl h⟩
  | cons data cs =>
      have hshort : data.length < 2 ^ 31 := hfollows.length_lt data (by simp [hx])
      obtain ⟨y, hy, hfollows', hmoves⟩ := hfollows.feed hpos hx hshort accepts
      refine ⟨y, hy, hfollows', ?_⟩
      rcases hmoves with ⟨rfl, heq⟩ | ⟨m, hm, hle, heq⟩
      · rw [heq, hx]
        exact ⟨Nat.le_refl _, fun h => by cases h⟩
      · have hlength : (data :: cs).flatten.length = data.length + cs.flatten.length := by simp
        rw [heq, hx, flatten_advance hle, List.length_drop]
        exact ⟨by omega, fun _ _ => by omega⟩

variable {answers : Nat → Bool}

theorem Follows.feeds_length {y : Feeder} {n m : Nat} (hpos : 1 ≤ h)
    (hy : x.feeds framing answers n = some y) (hfollows : y.Follows framing h (2 ^ 31) all)
    (hm : n ≤ m) :
    ∃ z, x.feeds framing answers m = some z ∧ z.Follows framing h (2 ^ 31) all ∧
      z.chunks.flatten.length ≤ y.chunks.flatten.length := by
  induction m, hm using Nat.le_induction with
  | base => exact ⟨y, hy, hfollows, Nat.le_refl _⟩
  | succ m _ ih =>
      obtain ⟨z, hz, hfollows', hle⟩ := ih
      obtain ⟨w, hw, hfollows'', hle', -⟩ := hfollows'.feed_length hpos (answers m)
      exact ⟨w, by rw [feeds, hz, Option.bind_some, hw], hfollows'', hle'.trans hle⟩

/-- The caller comes to the end, by induction on what is left of the stream. -/
theorem Follows.feeds_end (hpos : 1 ≤ h) (hfair : ∀ n, ∃ m ≥ n, answers m = true) (left : Nat) :
    ∀ {n : Nat} {y : Feeder}, x.feeds framing answers n = some y →
      y.Follows framing h (2 ^ 31) all → y.chunks.flatten.length ≤ left →
      ∃ m z, x.feeds framing answers m = some z ∧ z.Follows framing h (2 ^ 31) all ∧
        z.chunks = [] := by
  induction left with
  | zero =>
      intro n y hy hfollows hleft
      refine ⟨n, y, hy, hfollows, ?_⟩
      cases hchunks : y.chunks with
      | nil => rfl
      | cons data cs =>
          have hpos := List.length_pos_iff.mpr (hfollows.nonempty data (by simp [hchunks]))
          simp only [hchunks, List.flatten_cons, List.length_append] at hleft
          omega
  | succ left ih =>
      intro n y hy hfollows hleft
      obtain ⟨m, hm, hanswer⟩ := hfair n
      obtain ⟨z, hz, hfollows', hle⟩ := Follows.feeds_length hpos hy hfollows hm
      by_cases hchunks : z.chunks = []
      · exact ⟨m, z, hz, hfollows', hchunks⟩
      · obtain ⟨w, hw, hfollows'', -, hlt⟩ := hfollows'.feed_length hpos (answers m)
        have := hlt hanswer hchunks
        refine ih (n := m + 1) ?_ hfollows'' (by omega)
        rw [feeds, hz, Option.bind_some, hw]

/-- A chunk that is too long is there as long as the calls go well. -/
theorem Follows.long_stays (hpos : 1 ≤ h) (hfollows : x.Follows framing h (2 ^ 32) all)
    (hlong : ∃ c ∈ x.chunks, 2 ^ 31 ≤ c.length) {n : Nat} {y : Feeder}
    (hy : x.feeds framing answers n = some y) :
    y.Follows framing h (2 ^ 32) all ∧ ∃ c ∈ y.chunks, 2 ^ 31 ≤ c.length := by
  induction n generalizing y with
  | zero => exact Option.some.inj hy ▸ ⟨hfollows, hlong⟩
  | succ n ih =>
      obtain ⟨z, hz, hfeed⟩ := Option.bind_eq_some_iff.mp hy
      obtain ⟨hfollows', c, hc, hlength⟩ := ih hz
      cases hchunks : z.chunks with
      | nil =>
          rw [hchunks] at hc
          cases hc
      | cons data cs =>
          obtain ⟨frames, hall, hat⟩ := hfollows'.at_frames
          rcases Nat.lt_or_ge data.length (2 ^ 31) with hshort | hge
          · obtain ⟨w, hw, hfollows'', hmoves⟩ := hfollows'.feed hpos hchunks hshort (answers n)
            obtain rfl : w = y := Option.some.inj (hw.symm.trans hfeed)
            refine ⟨hfollows'', c, ?_, hlength⟩
            rcases hmoves with ⟨-, heq⟩ | ⟨m, -, -, heq⟩
            · exact heq ▸ hc
            · rw [hchunks] at hc heq
              rcases List.mem_cons.mp hc with rfl | hc
              · omega
              · exact heq ▸ subset_advance m data cs hc
          · have hlt := hfollows'.length_lt data (by simp [hchunks])
            rw [hat.feed_long hchunks hge hlt] at hfeed
            cases hfeed

end Feed

/-- Before the first call. -/
theorem follows_start {framing : Framing} {h bound : Nat} {p : Parser}
    {frames chunks : List (List UInt8)} (hkeeps : p.Keeps [] 0)
    (hframed : Framed framing h p.frameBufferSize frames) (hdivision : Division h frames chunks)
    (hbound : ∀ c ∈ chunks, c.length < bound) :
    Follows framing h bound frames { parser := p, chunks := chunks } where
  nonempty := hdivision.nonempty
  length_lt := hbound
  at_frames := ⟨frames, rfl, .aligned hkeeps hdivision.flatten hdivision.noCut hframed⟩

end Feeder

/-! ## The frames are delivered -/

/-- **The way a stream is cut does not matter, up to chunks of `2 ^ 31` bytes.** -/
theorem frames_delivered_iff (framing : Framing) (h : Nat) (hpos : 1 ≤ h) (p : Parser)
    (hfilled : p.frameBufferFilled = 0) (hrequired : p.frameBufferRequired = 0)
    (frames chunks : List (List UInt8)) (hframed : Framed framing h p.frameBufferSize frames)
    (hdivision : Division h frames chunks) (answers : Nat → Bool)
    (hfair : ∀ n, ∃ m ≥ n, answers m = true) :
    Feeder.Delivers framing answers { parser := p, chunks := chunks } frames ↔
      ∀ c ∈ chunks, c.length < 2 ^ 31 := by
  have hkeeps : p.Keeps [] 0 := Parser.keeps_nil_iff.mpr ⟨hfilled, hrequired⟩
  constructor
  · rintro ⟨n, y, hy, hchunks, -⟩
    by_contra hlong
    push Not at hlong
    have hfollows := Feeder.follows_start hkeeps hframed hdivision hdivision.length_lt
    obtain ⟨-, c, hc, -⟩ := hfollows.long_stays hpos hlong hy
    rw [hchunks] at hc
    cases hc
  · intro hshort
    have hfollows := Feeder.follows_start hkeeps hframed hdivision hshort
    obtain ⟨n, y, hy, hfollows', hchunks⟩ :=
      Feeder.Follows.feeds_end hpos hfair _ (n := 0) rfl hfollows (Nat.le_refl _)
    obtain ⟨rest, hall, hat⟩ := hfollows'.at_frames
    obtain ⟨rfl, hempty⟩ := hat.eq_nil hchunks hpos
    rw [List.append_nil] at hall
    exact ⟨n, y, hy, hchunks, hall.symm, Parser.keeps_nil_iff.mp hempty⟩

/-- Frames that all have the same length. -/
def Framing.ofLength (n : Nat) : Framing where
  getFrameOffset _ := 0
  getFrameSize _ := n

theorem framed_ofLength {h n : Nat} {size : Int} {frames : List (List UInt8)} (hlow : h ≤ n)
    (hhigh : n ≤ size) (hframes : ∀ f ∈ frames, f.length = n) :
    Framed (.ofLength n) h size frames := by
  induction frames with
  | nil => trivial
  | cons f frames ih =>
      have hf := hframes f (by simp)
      exact ⟨hf ▸ ⟨hlow, hhigh⟩, fun _ _ _ => ⟨rfl, by rw [hf]; rfl⟩,
        ih fun g hg => hframes g (by simp [hg])⟩

/-- Three frames of two bytes, cut in the middle of the first and of the last; the writer refuses
every other time. -/
theorem frames_delivered_iff_pairs :
    Feeder.Delivers (.ofLength 2) (fun n => n % 2 = 1)
      { parser := { frameBuffer := [0, 0], frameBufferSize := 2, allocated := rfl }
        chunks := [[1], [2, 3, 4, 5], [6]] }
      [[1, 2], [3, 4], [5, 6]] :=
  (frames_delivered_iff (.ofLength 2) 1 (Nat.le_refl _)
    { frameBuffer := [0, 0], frameBufferSize := 2, allocated := rfl } rfl rfl
    [[1, 2], [3, 4], [5, 6]] [[1], [2, 3, 4, 5], [6]]
    (framed_ofLength (by decide) (by decide) (by decide))
    ⟨by decide, by decide, by decide, noCut_one _ _ _⟩ (fun n => n % 2 = 1)
    fun n => ⟨2 * n + 1, by omega, by simp⟩).mpr (by decide)

/-- Many frames of the same length at once. -/
theorem not_delivers_replicate {k n : Nat} {p : Parser} (hpos : 1 ≤ n)
    (hsize : n ≤ p.frameBufferSize) (hkeeps : p.Keeps [] 0) (hlong : 2 ^ 31 ≤ k * n)
    (hlength : k * n < 2 ^ 32) (answers : Nat → Bool) :
    let frames := List.replicate k (List.replicate n (0 : UInt8))
    Framed (.ofLength n) 1 p.frameBufferSize frames ∧ Division 1 frames [frames.flatten] ∧
      ¬ Feeder.Delivers (.ofLength n) answers { parser := p, chunks := [frames.flatten] }
        frames := by
  intro frames
  have hflatten : frames.flatten.length = k * n := by simp [frames]
  have hframed : Framed (.ofLength n) 1 p.frameBufferSize frames :=
    framed_ofLength hpos hsize fun f hf => by
      rw [List.eq_of_mem_replicate hf, List.length_replicate]
  have hdivision : Division 1 frames [frames.flatten] := by
    refine ⟨by simp, ?_, ?_, noCut_one _ _ _⟩
    · intro c hc
      rw [List.mem_singleton.mp hc]
      refine List.length_pos_iff.mp ?_
      omega
    · intro c hc
      rw [List.mem_singleton.mp hc]
      omega
  refine ⟨hframed, hdivision, ?_⟩
  rintro ⟨m, y, hy, hchunks, -⟩
  have hfollows := Feeder.follows_start hkeeps hframed hdivision hdivision.length_lt
  obtain ⟨-, c, hc, -⟩ :=
    hfollows.long_stays (Nat.le_refl _) ⟨_, List.mem_singleton_self _, by omega⟩ hy
  rw [hchunks] at hc
  cases hc

/-- `2 ^ 21` frames of 1024 bytes in one chunk. -/
theorem frames_delivered_fails :
    ¬ ∀ (framing : Framing) (h : Nat) (p : Parser) (frames chunks : List (List UInt8))
        (answers : Nat → Bool), 1 ≤ h → p.frameBufferFilled = 0 → p.frameBufferRequired = 0 →
      Framed framing h p.frameBufferSize frames → Division h frames chunks →
      (∀ n, ∃ m ≥ n, answers m = true) →
      Feeder.Delivers framing answers { parser := p, chunks := chunks } frames := by
  intro hclaim
  have hallocated : ((List.replicate 1024 (0 : UInt8)).length : Int) = 1024 := by
    rw [List.length_replicate]
    rfl
  obtain ⟨hframed, hdivision, hnot⟩ :=
    not_delivers_replicate (k := 2 ^ 21) (n := 1024) (p := ⟨_, 1024, 0, 0, hallocated⟩)
      (by omega) (Int.le_refl _) (Parser.keeps_nil_iff.mpr ⟨rfl, rfl⟩) (by omega) (by omega)
      fun _ => true
  refine hnot (hclaim _ 1 _ _ _ _ (Nat.le_refl _) rfl rfl hframed hdivision ?_)
  exact fun n => ⟨n, Nat.le_refl _, rfl⟩

end DirectMedia

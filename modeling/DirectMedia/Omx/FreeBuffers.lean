import DirectMedia.Omx.Port
import Mathlib.Data.List.Basic

set_option autoImplicit false

/-! # The free buffers of a port

`writeToFreeBuffer` takes the first buffer that is free, whatever its size. So the sizes that matter
for the next `n` writes are those of the first `n` free buffers (`FirstFree`): a write uses up one,
and a buffer that comes back may come in between.
-/

namespace DirectMedia

namespace Port

/-- The buffer a writer finds. -/
def getFreeBuffer (port : Port) : Option Buffer := do
  let index ← port.getFreeBufferIndex
  port[index]?

/-- It is the first that is free. -/
theorem getFreeBuffer_eq_find (port : Port) :
    port.getFreeBuffer = port.find? fun b => b.status = .ownedByClient := by
  unfold getFreeBuffer getFreeBufferIndex
  induction port with
  | nil => rfl
  | cons b port ih =>
      rw [List.findIdx?_cons, List.find?_cons]
      by_cases hfree : b.status = .ownedByClient
      · simp [hfree]
      · simpa [hfree, Option.bind_map, Function.comp_def] using ih

theorem getFreeBuffer_isSome_iff (port : Port) :
    port.getFreeBuffer.isSome ↔ 0 < port.getFreeBufferCount := by
  rw [getFreeBuffer_eq_find, List.find?_isSome, getFreeBufferCount, List.countP_pos_iff]

/-! ## A write -/

theorem writeToFreeBuffer_full {port : Port} (h : port.getFreeBuffer = none)
    (data : List UInt8) (pts : Int) (flags : BitVec 32) (ret : Int) :
    port.writeToFreeBuffer data pts flags ret = (-1, port, none) := by
  unfold getFreeBuffer at h
  cases hi : port.getFreeBufferIndex with
  | none => simp only [writeToFreeBuffer, hi]
  | some i =>
      have hb : port[i]? = none := by simpa [hi] using h
      simp only [writeToFreeBuffer, hi, hb]

theorem writeToFreeBuffer_fill {port : Port} {b : Buffer} (h : port.getFreeBuffer = some b)
    (data : List UInt8) (pts : Int) (flags : BitVec 32) (ret : Int) :
    (port.writeToFreeBuffer data pts flags ret).1 =
        (if ret = 0 then ((fill b data pts flags).filledLen : Int) else 0) ∧
      (port.writeToFreeBuffer data pts flags ret).2.2 =
        if ret = 0 then some (fill b data pts flags) else none := by
  obtain ⟨i, hi, hb⟩ := Option.bind_eq_some_iff.mp h
  simp only [writeToFreeBuffer, hi, hb]
  split <;> exact ⟨rfl, rfl⟩

/-- What `writeToFreeBuffer` hands over is one of the buffers, filled. -/
theorem writeToFreeBuffer_some {port : Port} {data : List UInt8} {pts : Int}
    {flags : BitVec 32} {ret : Int} {b : Buffer}
    (h : (port.writeToFreeBuffer data pts flags ret).2.2 = some b) :
    ∃ c ∈ port, b = fill c data pts flags := by
  cases hfree : port.getFreeBuffer with
  | none =>
      rw [writeToFreeBuffer_full hfree] at h
      cases h
  | some c =>
      rw [(writeToFreeBuffer_fill hfree data pts flags ret).2] at h
      split at h
      · cases h
        rw [getFreeBuffer_eq_find] at hfree
        exact ⟨c, List.mem_of_find?_eq_some hfree, rfl⟩
      · cases h

theorem fill_filledLen (c : Buffer) (data : List UInt8) (pts : Int) (flags : BitVec 32) :
    (fill c data pts flags).filledLen = min data.length c.allocLen := by
  unfold fill
  split
  · show data.length = _
    omega
  · show c.allocLen = _
    omega

/-- A free buffer in front is taken. -/
theorem writeToFreeBuffer_cons_free {b : Buffer} (h : b.status = .ownedByClient) (port : Port)
    (data : List UInt8) (pts : Int) (flags : BitVec 32) (ret : Int) :
    (writeToFreeBuffer (b :: port) data pts flags ret).2.1 =
      (if ret = 0 then { fill b data pts flags with status := .ownedByComponent }
        else fill b data pts flags) :: port := by
  have hi : getFreeBufferIndex (b :: port) = some 0 := by
    simp [getFreeBufferIndex, List.findIdx?_cons, h]
  by_cases hret : ret = 0
  · simp [writeToFreeBuffer, hi, emptyBuffer, hret]
  · simp [writeToFreeBuffer, hi, emptyBuffer, hret]

/-- A buffer in use is passed by. -/
theorem writeToFreeBuffer_cons_used {b : Buffer} (h : b.status ≠ .ownedByClient) (port : Port)
    (data : List UInt8) (pts : Int) (flags : BitVec 32) (ret : Int) :
    (writeToFreeBuffer (b :: port) data pts flags ret).2.1 =
      b :: (port.writeToFreeBuffer data pts flags ret).2.1 := by
  have hi : getFreeBufferIndex (b :: port) = port.getFreeBufferIndex.map (· + 1) := by
    simp [getFreeBufferIndex, List.findIdx?_cons, h]
  unfold writeToFreeBuffer
  rw [hi]
  cases port.getFreeBufferIndex with
  | none => rfl
  | some i =>
      simp only [Option.map_some, List.getElem?_cons_succ]
      cases port[i]? with
      | none => rfl
      | some c =>
          by_cases hret : ret = 0
          · simp [hret, emptyBuffer]
          · simp [hret, emptyBuffer]

/-! ## Numbers -/

/-- A write takes at most one free buffer. -/
theorem getFreeBufferCount_writeToFreeBuffer (port : Port) (data : List UInt8) (pts : Int)
    (flags : BitVec 32) (ret : Int) :
    port.getFreeBufferCount ≤
      (port.writeToFreeBuffer data pts flags ret).2.1.getFreeBufferCount + 1 := by
  induction port with
  | nil => simp [getFreeBufferCount]
  | cons b port ih =>
      unfold getFreeBufferCount at ih ⊢
      by_cases hfree : b.status = .ownedByClient
      · rw [writeToFreeBuffer_cons_free hfree, List.countP_cons, List.countP_cons]
        split <;> omega
      · rw [writeToFreeBuffer_cons_used hfree, List.countP_cons, List.countP_cons]
        omega

/-- Buffers that come back take none away. -/
theorem getFreeBufferCount_returned (port : Port) (indices : List Nat) :
    port.getFreeBufferCount ≤ (indices.foldl emptyBufferDone port).getFreeBufferCount := by
  induction indices generalizing port with
  | nil => exact Nat.le_refl _
  | cons index indices ih =>
      exact Nat.le_trans (getFreeBufferCount_emptyBufferDone port index) (ih _)

/-! ## Sizes -/

/-- The first `n` free buffers are there and have at least the size. -/
def FirstFree (size : Nat) : Nat → Port → Prop
  | 0, _ => True
  | _ + 1, [] => False
  | n + 1, b :: port =>
      if b.status = .ownedByClient then size ≤ b.allocLen ∧ FirstFree size n port
      else FirstFree size (n + 1) port

@[simp] theorem firstFree_zero (size : Nat) (port : Port) : FirstFree size 0 port := by
  cases port <;> trivial

theorem FirstFree.mono {size n : Nat} {port : Port} (h : FirstFree size (n + 1) port) :
    FirstFree size n port := by
  induction port generalizing n with
  | nil => exact absurd h id
  | cons b port ih =>
      cases n with
      | zero => trivial
      | succ n =>
          rw [FirstFree] at h ⊢
          split at h
          case isTrue hfree =>
            rw [if_pos hfree]
            exact ⟨h.1, ih h.2⟩
          case isFalse hused =>
            rw [if_neg hused]
            exact ih h

/-- The next write finds a buffer of the size, and leaves one buffer less. -/
theorem FirstFree.write {size n : Nat} {port : Port} (h : FirstFree size (n + 1) port)
    (data : List UInt8) (pts : Int) (flags : BitVec 32) :
    (∃ b, port.getFreeBuffer = some b ∧ size ≤ b.allocLen) ∧
      FirstFree size n (port.writeToFreeBuffer data pts flags 0).2.1 := by
  induction port with
  | nil => exact absurd h id
  | cons b port ih =>
      rw [FirstFree] at h
      rw [getFreeBuffer_eq_find, List.find?_cons]
      split at h
      case isTrue hfree =>
        rw [writeToFreeBuffer_cons_free hfree, if_pos rfl]
        refine ⟨⟨b, by simp [hfree], h.1⟩, ?_⟩
        cases n with
        | zero => trivial
        | succ n =>
            rw [FirstFree, if_neg (by simp)]
            exact h.2
      case isFalse hused =>
        obtain ⟨⟨c, hc, hsize⟩, hrest⟩ := ih h
        rw [writeToFreeBuffer_cons_used hused]
        rw [getFreeBuffer_eq_find] at hc
        refine ⟨⟨c, by simpa [hused] using hc, hsize⟩, ?_⟩
        cases n with
        | zero => trivial
        | succ n =>
            rw [FirstFree, if_neg hused]
            exact hrest

/-- A buffer of the size that comes back does no harm. -/
theorem FirstFree.emptyBufferDone {size n : Nat} {port : Port} (h : FirstFree size n port)
    {index : Nat} (hsize : ∀ b, port[index]? = some b → size ≤ b.allocLen) :
    FirstFree size n (port.emptyBufferDone index) := by
  unfold Port.emptyBufferDone
  induction port generalizing n index with
  | nil => simpa using h
  | cons b port ih =>
      cases n with
      | zero => exact firstFree_zero _ _
      | succ n =>
          cases index with
          | zero =>
              rw [List.modify_zero_cons]
              by_cases hfree : b.status = .ownedByClient
              · rwa [if_pos hfree]
              · rw [FirstFree, if_neg hfree] at h
                rw [if_neg hfree, FirstFree, if_pos rfl]
                exact ⟨hsize b rfl, h.mono⟩
          | succ index =>
              rw [List.modify_succ_cons, FirstFree]
              rw [FirstFree] at h
              split at h
              case isTrue hfree =>
                rw [if_pos hfree]
                exact ⟨h.1, ih h.2 hsize⟩
              case isFalse hused =>
                rw [if_neg hused]
                exact ih h hsize

theorem fill_allocLen (b : Buffer) (data : List UInt8) (pts : Int) (flags : BitVec 32) :
    (fill b data pts flags).allocLen = b.allocLen := by
  unfold fill
  split <;> rfl

/-! No operation changes a size. -/

theorem modify_sizes (port : Port) (index : Nat) {g : Buffer → Buffer}
    (hg : ∀ b, (g b).allocLen = b.allocLen) :
    (port.modify index g).map (·.allocLen) = port.map (·.allocLen) := by
  induction port generalizing index with
  | nil => simp
  | cons b port ih =>
      cases index with
      | zero => rw [List.modify_zero_cons, List.map_cons, List.map_cons, hg]
      | succ index => rw [List.modify_succ_cons, List.map_cons, List.map_cons, ih]

/-- The header of a buffer is written, and the buffer submitted. -/
theorem emptyBuffer_set_sizes {port : Port} {i : Nat} {b c : Buffer} (hb : port[i]? = some b)
    (hc : c.allocLen = b.allocLen) (ret : Int) :
    (emptyBuffer (port.set i c) i ret).map (·.allocLen) = port.map (·.allocLen) := by
  have hset : (port.set i c).map (·.allocLen) = port.map (·.allocLen) := by
    obtain ⟨hlt, rfl⟩ := List.getElem?_eq_some_iff.mp hb
    have hlt' : i < (port.map (·.allocLen)).length := by simpa using hlt
    have hself := List.set_getElem_self hlt'
    rwa [List.getElem_map, ← hc, ← List.map_set] at hself
  unfold emptyBuffer
  split
  · refine (modify_sizes _ _ ?_).trans hset
    exact fun _ => rfl
  · exact hset

theorem writeToFreeBuffer_sizes (port : Port) (data : List UInt8) (pts : Int)
    (flags : BitVec 32) (ret : Int) :
    (port.writeToFreeBuffer data pts flags ret).2.1.map (·.allocLen) = port.map (·.allocLen) := by
  unfold writeToFreeBuffer
  split
  case h_1 => rfl
  case h_2 i _ =>
      split
      case h_1 => rfl
      case h_2 b hb =>
          have hsizes := emptyBuffer_set_sizes hb (fill_allocLen b data pts flags) ret
          dsimp only
          split
          · exact hsizes
          · exact hsizes

theorem writeToConfigBuffer_sizes (port : Port) (data : List UInt8) (ret : Int) :
    (port.writeToConfigBuffer data ret).2.map (·.allocLen) = port.map (·.allocLen) := by
  unfold writeToConfigBuffer
  split
  case h_1 => rfl
  case h_2 i _ =>
      split
      case h_1 => rfl
      case h_2 b hb =>
          have hsizes : ∀ c : Buffer, c.allocLen = b.allocLen →
              (emptyBuffer (port.set i c) i ret).map (·.allocLen) = port.map (·.allocLen) :=
            fun _ hc => emptyBuffer_set_sizes hb hc ret
          dsimp only
          split
          · refine hsizes _ ?_
            rfl
          · refine hsizes _ ?_
            rfl

theorem emptyBufferDone_sizes (port : Port) (index : Nat) :
    (port.emptyBufferDone index).map (·.allocLen) = port.map (·.allocLen) :=
  modify_sizes port index fun b => by split <;> rfl

end Port

end DirectMedia

import AeProxy.Packet.Decoder

/-! `Packet::read_from_buffer` with its accesses to the accumulator checked: none is ever outside. -/
namespace AeProxy.Packet
open Lib
variable (fmt : Format)

/-- `unpackLoop`, or nothing if an index is outside. -/
def unpackLoop? {n : Nat} : List Nat → List UInt8 → BitVec n → Option (BitVec n)
  | [], _, num => some num
  | i :: is, data, num =>
    match data[i]? with
    | some byte => unpackLoop? is data (pushByte num byte)
    | none => none

/-- `unpackNum`, or nothing if one of its bytes is outside. -/
def unpackNum? (mode : DataMode) (w : Nat) (data : List UInt8) (off : Nat) :
    Option (BitVec (8 * w)) :=
  unpackLoop? (unpackOrder mode off w) data 0

/-- A pass that faults at an access outside the accumulator: to the first byte, one of the two of
the size, or the last. -/
def checkedPass (s : Scan) : Option (Pass Scan (Option (List UInt8) × ListBuffer)) :=
  let size := s.packetbuf.readSize
  if size < packetMinSize then some (.leave (none, s.packetbuf))
  else
    let data := (s.packetbuf.readBufferN s.data 3).2
    data[0]?.bind fun head =>
    if head ≠ fmt.headByte then some (.again ⟨[], s.packetbuf.clearBufferN 1⟩)
    else
      (unpackNum? fmt.mode 2 data 1).bind fun num =>
      let dataSize := num.toNat
      if size < msgsize dataSize then some (.leave (none, s.packetbuf))
      else
        let packetbuf := s.packetbuf.clearBufferN 3
        -- the return code of this read is ignored
        let data := (packetbuf.readBufferN data (dataSize + 1)).2
        data.getLast?.bind fun last =>
        if last = fmt.endByte then
          some (.leave (some data, packetbuf.clearBufferN (dataSize + 1)))
        else some (.again ⟨data, packetbuf⟩)

theorem unpackLoop?_eq {n : Nat} {is : List Nat} {data : List UInt8}
    (h : ∀ i ∈ is, i < data.length) (num : BitVec n) :
    unpackLoop? is data num = some (unpackLoop is data num) := by
  induction is generalizing num with
  | nil => rfl
  | cons i is ih =>
    have hi := List.getElem?_eq_getElem (h i List.mem_cons_self)
    have hd : data[i]? = some (data.getD i 0) := by
      rw [List.getD_eq_getElem?_getD, hi, Option.getD_some]
    rw [unpackLoop?, unpackLoop, hd]
    exact ih (fun j hj => h j (List.mem_cons_of_mem i hj)) _

theorem unpackNum?_eq (mode : DataMode) (w : Nat) {data : List UInt8} {off : Nat}
    (h : off + w ≤ data.length) :
    unpackNum? mode w data off = some (unpackNum mode w data off) := by
  apply unpackLoop?_eq
  intro i hi
  have hr : i ∈ List.range' off w := by
    cases mode with
    | bigEndian => exact hi
    | littleEndian => exact List.mem_reverse.mp hi
  have := List.mem_range'_1.mp hr
  omega

/-- No access of a pass is outside: the header has been read, and a failing second read leaves it
in the accumulator. -/
theorem checkedPass_eq (s : Scan) : checkedPass fmt s = some (scanPass fmt s) := by
  unfold checkedPass scanPass
  by_cases hs : s.packetbuf.length < 4
  · simp only [if_pos hs]
  · have hread : s.packetbuf.readBufferN s.data 3 = (0, s.data ++ s.packetbuf.take 3) := by
      rw [ListBuffer.readBufferN, if_neg (by omega)]
    have hlen : 3 ≤ (s.data ++ s.packetbuf.take 3).length := by
      rw [List.length_append, List.length_take]
      omega
    simp only [if_neg hs, hread]
    generalize s.data ++ s.packetbuf.take 3 = data at hlen
    have hhead : data[0]? = some (data.getD 0 0) := by
      rw [List.getD_eq_getElem?_getD, List.getElem?_eq_getElem (by omega), Option.getD_some]
    have hgrow (b : ListBuffer) (n : Nat) : (b.readBufferN data n).2 ≠ [] := by
      intro he
      have := ( readBufferN_prefix b data n).length_le
      rw [he, List.length_nil] at this
      omega
    have hlast (b : ListBuffer) (n : Nat) : (b.readBufferN data n).2.getLast? =
        some ((b.readBufferN data n).2.getLastD 0) := by
      rw [List.getLastD_eq_getLast?, List.getLast?_eq_some_getLast (hgrow b n), Option.getD_some]
    rw [hhead, Option.bind_some, unpackNum?_eq fmt.mode 2 hlen, Option.bind_some, hlast,
      Option.bind_some]
    split
    · rfl
    · split
      · rfl
      · split <;> rfl

/-- Whatever the buffer holds, the loop ends after at most one pass for each byte and one more,
without an access outside the accumulator, and leaves an end of the buffer. -/
theorem readFromBuffer_bounded (fmt : Format) (buf : ListBuffer) (out : Packet) :
    ∃ data rest, checkedPasses (checkedPass fmt) (buf.length + 1) ⟨[], buf⟩ = some (data, rest) ∧
      rest <:+ buf ∧
      readFromBuffer fmt buf out =
        match data with
        | none => (-1, out, rest)
        | some data => (0, out.swap data, rest) := by
  refine ⟨((scan fmt).run ⟨[], buf⟩).1, ((scan fmt).run ⟨[], buf⟩).2, ?_, (run_suffix fmt _).1, ?_⟩
  · rw [checkedPasses_of_some (checkedPass_eq fmt)]
    exact (scan fmt).passes_run ⟨[], buf⟩
  · rw [readFromBuffer]
    rcases (scan fmt).run ⟨[], buf⟩ with ⟨_ | data, rest⟩ <;> rfl

end AeProxy.Packet

import AeProxy.Packet.Frame
import AeProxy.Lib.Incremental

/-! `Packet::read_from_buffer`, pass by pass, and decoding what `Packet::pack` wrote. -/
namespace AeProxy.Packet
open Lib
variable (fmt : Format)

/-- What outlives a pass of the loop: the accumulator `data` and the buffer. -/
structure Scan where
  data : List UInt8
  packetbuf : ListBuffer
  deriving DecidableEq, Repr

/-- `uint16_t msgsize = dataSize + packet_min_size()`. -/
def msgsize (dataSize : Nat) : Nat := (dataSize + packetMinSize) % 2 ^ 16

/-- One pass of the `while (true)` loop. Going round after a bad end byte keeps `data`. -/
def scanPass (s : Scan) : Pass Scan (Option (List UInt8) × ListBuffer) :=
  let size := s.packetbuf.readSize
  if size < packetMinSize then .leave (none, s.packetbuf)
  else
    let data := (s.packetbuf.readBufferN s.data 3).2
    if data.getD 0 0 ≠ fmt.headByte then .again ⟨[], s.packetbuf.clearBufferN 1⟩
    else
      let dataSize := (unpackNum fmt.mode 2 data 1).toNat
      if size < msgsize dataSize then .leave (none, s.packetbuf)
      else
        let packetbuf := s.packetbuf.clearBufferN 3
        -- the return code of this read is ignored
        let data := (packetbuf.readBufferN data (dataSize + 1)).2
        if data.getLastD 0 = fmt.endByte then
          .leave (some data, packetbuf.clearBufferN (dataSize + 1))
        else .again ⟨data, packetbuf⟩

theorem readBufferN_prefix (buf : ListBuffer) (data : List UInt8) (n : Nat) :
    data <+: (buf.readBufferN data n).2 := by
  unfold ListBuffer.readBufferN
  split
  · exact List.prefix_refl _
  · exact List.prefix_append _ _

/-- All a pass can do. Only the bad head byte empties the accumulator; the other two ways on
extend it, and only the accepting one drops the body. -/
theorem scanPass_cases (s : Scan) :
    scanPass fmt s = .leave (none, s.packetbuf) ∨
    4 ≤ s.packetbuf.length ∧
      ((s.data ++ s.packetbuf.take 3).getD 0 0 ≠ fmt.headByte ∧
          scanPass fmt s = .again ⟨[], s.packetbuf.drop 1⟩ ∨
        ∃ data, s.data ++ s.packetbuf.take 3 <+: data ∧
          (scanPass fmt s = .again ⟨data, s.packetbuf.drop 3⟩ ∨
            ∃ n, scanPass fmt s = .leave (some data, s.packetbuf.drop (n + 4)))) := by
  by_cases hs : s.packetbuf.length < 4
  · left
    simp only [scanPass, if_pos hs]
  · have hread : s.packetbuf.readBufferN s.data 3 = (0, s.data ++ s.packetbuf.take 3) := by
      rw [ListBuffer.readBufferN, if_neg (by omega)]
    have hdrop (n : Nat) : (s.packetbuf.drop 3).drop (n + 1) = s.packetbuf.drop (n + 4) := by
      rw [List.drop_drop, show 3 + (n + 1) = n + 4 by omega]
    simp only [scanPass, if_neg hs, hread]
    generalize (unpackNum fmt.mode 2 (s.data ++ s.packetbuf.take 3) 1).toNat = n
    split
    · exact Or.inr ⟨by omega, Or.inl ⟨by assumption, rfl⟩⟩
    · split
      · exact Or.inl rfl
      · refine Or.inr ⟨by omega, Or.inr ⟨_, readBufferN_prefix (s.packetbuf.drop 3) _ (n + 1), ?_⟩⟩
        split
        · exact Or.inr ⟨n, congrArg (fun rest => Pass.leave (some _, rest)) (hdrop n)⟩
        · exact Or.inl rfl

/-- Every way round drops at least one byte of the buffer. -/
theorem scanPass_falls (s s' : Scan) (h : scanPass fmt s = .again s') :
    s'.packetbuf.length < s.packetbuf.length := by
  rcases scanPass_cases fmt s with he | ⟨hl, ⟨_, he⟩ | ⟨data, _, he | ⟨n, he⟩⟩⟩
  all_goals cases he.symm.trans h
  all_goals simp only [List.length_drop]; omega

def scan : Loop Scan (Option (List UInt8) × ListBuffer) where
  body := scanPass fmt
  measure s := s.packetbuf.length
  falls := scanPass_falls fmt

/-- The return code, the packet behind the reference, and the buffer left. -/
def readFromBuffer (packetbuf : ListBuffer) (out : Packet) : Int × Packet × ListBuffer :=
  match (scan fmt).run ⟨[], packetbuf⟩ with
  | (none, rest) => (-1, out, rest)
  | (some data, rest) => (0, out.swap data, rest)

/-- `GlobalConfig::ReadBufferPacket`, which may be `nullptr`. -/
structure GlobalConfig where
  readBufferPacket : Option (ListBuffer → Packet → Int × Packet × ListBuffer)

def GlobalConfig.initial : GlobalConfig := ⟨some (readFromBuffer fmt)⟩

/-- `PacketBuffer::read_packet`. -/
def readPacket (config : GlobalConfig) (buf : ListBuffer) (out : Packet) :
    Int × Packet × ListBuffer :=
  match config.readBufferPacket with
  | some parse => parse buf out
  | none => (-1, out, buf)

variable {fmt}

/-! What one pass does, by the shape of the buffer. -/

theorem scanPass_short {s : Scan} (h : s.packetbuf.length < 4) :
    scanPass fmt s = .leave (none, s.packetbuf) := by
  simp only [scanPass, if_pos h]

theorem scanPass_noise {x : UInt8} {b : ListBuffer} (hx : x ≠ fmt.headByte) (hb : 3 ≤ b.length) :
    scanPass fmt ⟨[], x :: b⟩ = .again ⟨[], b⟩ := by
  have hs : ¬ (x :: b).length < 4 := by
    rw [List.length_cons]
    omega
  have hr : ¬ 3 > (x :: b).length := by omega
  simp only [scanPass, if_neg hs, ListBuffer.readBufferN, if_neg hr, List.nil_append,
    List.take_succ_cons, List.getD_cons_zero, if_pos hx, List.drop_succ_cons, List.drop_zero]

/-- How many bytes of the buffer a pass under size field `n` pushes onto the accumulator: the
whole frame if it is there, else the header alone. -/
def pushed (n : Nat) (b : ListBuffer) : Nat := if n + 4 ≤ b.length then n + 4 else 3

private theorem readBufferN_body (data : List UInt8) (b : ListBuffer) (n : Nat) (hb : 3 ≤ b.length) :
    (ListBuffer.readBufferN (b.drop 3) (data ++ b.take 3) (n + 1)).2 =
      data ++ b.take (pushed n b) := by
  unfold ListBuffer.readBufferN pushed
  by_cases hn : n + 4 ≤ b.length
  · rw [if_pos hn, if_neg (by simp only [List.length_drop]; omega), List.append_assoc,
      ← List.take_add, show 3 + (n + 1) = n + 4 by omega]
  · rw [if_neg hn, if_pos (by simp only [List.length_drop]; omega)]

private theorem getLastD_append_take (data : List UInt8) (b : ListBuffer) (m : Nat)
    (hm : 0 < m) (hb : m ≤ b.length) : (data ++ b.take m).getLastD 0 = b.getD (m - 1) 0 := by
  obtain ⟨k, rfl⟩ : ∃ k, m = k + 1 := ⟨m - 1, by omega⟩
  rw [List.take_succ_eq_append_getElem (by omega), ← List.append_assoc, List.getLastD_concat,
    Nat.add_sub_cancel, List.getD_eq_getElem?_getD, List.getElem?_eq_getElem (by omega),
    Option.getD_some]

/-- Once the accumulator starts with the head byte, the size comes from its first bytes. -/
theorem scanPass_header {data acc : List UInt8} {s0 s1 : UInt8} {b : ListBuffer} (hb : 4 ≤ b.length)
    (hd : data ++ b.take 3 = fmt.headByte :: s0 :: s1 :: acc) :
    scanPass fmt ⟨data, b⟩ =
      let n := wireValue fmt.mode [s0, s1]
      if b.length < msgsize n then .leave (none, b)
      else if b.getD (pushed n b - 1) 0 = fmt.endByte then
        .leave (some (data ++ b.take (pushed n b)), b.drop (n + 4))
      else .again ⟨data ++ b.take (pushed n b), b.drop 3⟩ := by
  have hs : ¬ b.length < 4 := by omega
  have hread : ListBuffer.readBufferN b data 3 = (0, data ++ b.take 3) := by
    rw [ListBuffer.readBufferN, if_neg (by omega)]
  have hu : (unpackNum fmt.mode 2 (data ++ b.take 3) 1).toNat = wireValue fmt.mode [s0, s1] := by
    rw [hd]
    exact unpackNum_toNat fmt.mode 2 [fmt.headByte] [s0, s1] acc rfl
  have hhead : (data ++ b.take 3).getD 0 0 = fmt.headByte := by
    rw [hd]
    rfl
  simp only [scanPass, if_neg hs, hread, hhead, ne_eq, not_true_eq_false, if_false, hu]
  generalize wireValue fmt.mode [s0, s1] = n
  have hpos : 0 < pushed n b ∧ pushed n b ≤ b.length := by
    unfold pushed
    split <;> omega
  rw [readBufferN_body data b n (by omega), getLastD_append_take data b _ hpos.1 hpos.2,
    ListBuffer.clearBufferN, List.drop_drop, show 3 + (n + 1) = n + 4 by omega]

theorem msgsize_le (n : Nat) : msgsize n ≤ n + 4 := Nat.mod_le _ _

theorem msgsize_eq {n : Nat} (h : n + 4 < 2 ^ 16) : msgsize n = n + 4 := Nat.mod_eq_of_lt h

theorem Frame.getD_trailer (f : Frame fmt) (s : List UInt8) :
    (f.bytes ++ s).getD (f.body.length + 3) 0 = f.trailer := by
  rw [show f.body.length + 3 = f.bytes.length - 1 by simp,
    ← getLastD_append_take [] _ _ (by simp) (by simp), List.take_left, List.nil_append, Frame.bytes,
    ← List.cons_append, ← List.cons_append, ← List.cons_append, List.getLastD_concat]

/-- A complete frame at the front is delivered if it is closed; otherwise the loop goes round
with the frame in the accumulator and only its header dropped. -/
theorem scanPass_frame (f : Frame fmt) (s : List UInt8) :
    scanPass fmt ⟨[], f.bytes ++ s⟩ =
      if f.Closed then .leave (some f.bytes, s)
      else .again ⟨f.bytes, (f.bytes ++ s).drop 3⟩ := by
  have hl : (f.bytes ++ s).length = f.body.length + 4 + s.length := by simp
  have hm := msgsize_le f.body.length
  have hp : pushed f.body.length (f.bytes ++ s) = f.bytes.length := by
    rw [pushed, if_pos (by omega), f.bytes_length]
  have htake : (f.bytes ++ s).take f.bytes.length = f.bytes := List.take_left
  have hdrop : (f.bytes ++ s).drop (f.body.length + 4) = s := by
    rw [← f.bytes_length, List.drop_left]
  have hlast : (f.bytes ++ s).getD (f.bytes.length - 1) 0 = f.trailer := by
    rw [← f.getD_trailer s, f.bytes_length]
    rfl
  rw [scanPass_header (b := f.bytes ++ s) (by omega) (List.nil_append _), ← f.sized]
  simp only [if_neg (show ¬ (f.bytes ++ s).length < msgsize f.body.length by omega), hp, htake,
    hdrop, hlast, List.nil_append]
  rfl

/-- A frame whose length does not wrap is left alone until it is complete. -/
theorem scanPass_cut {s0 s1 : UInt8} {rest : ListBuffer}
    (hn : wireValue fmt.mode [s0, s1] + 4 < 2 ^ 16)
    (hr : rest.length < wireValue fmt.mode [s0, s1] + 1) :
    scanPass fmt ⟨[], fmt.headByte :: s0 :: s1 :: rest⟩ =
      .leave (none, fmt.headByte :: s0 :: s1 :: rest) := by
  by_cases hl : (fmt.headByte :: s0 :: s1 :: rest).length < 4
  · exact scanPass_short hl
  · have hm := msgsize_eq hn
    have hd : [] ++ (fmt.headByte :: s0 :: s1 :: rest).take 3 = fmt.headByte :: s0 :: s1 :: [] := rfl
    rw [scanPass_header (by omega) hd]
    apply if_pos
    simp only [List.length_cons]
    omega

/-! What a run does. -/

theorem run_noise (g b : List UInt8) (hg : fmt.headByte ∉ g) (hb : 3 ≤ b.length) :
    (scan fmt).run ⟨[], g ++ b⟩ = (scan fmt).run ⟨[], b⟩ := by
  induction g with
  | nil => rfl
  | cons x g ih =>
    rw [List.mem_cons, not_or] at hg
    have hp : (scan fmt).body ⟨[], x :: (g ++ b)⟩ = .again ⟨[], g ++ b⟩ :=
      scanPass_noise (Ne.symm hg.1) (by simp only [List.length_append]; omega)
    rw [List.cons_append, (scan fmt).run_again hp, ih hg.2]

theorem run_closed (f : Frame fmt) (hf : f.Closed) (g s : List UInt8) (hg : fmt.headByte ∉ g) :
    (scan fmt).run ⟨[], g ++ f.bytes ++ s⟩ = (some f.bytes, s) := by
  rw [List.append_assoc, run_noise g _ hg (by simp; omega)]
  exact (scan fmt).run_leave ((scanPass_frame f s).trans (if_pos hf))

/-- The buffer left is the end of the buffer given, and a packet costs at least its header. -/
theorem run_suffix (fmt : Format) (s : Scan) : ((scan fmt).run s).2 <:+ s.packetbuf ∧
    (((scan fmt).run s).1 ≠ none → ((scan fmt).run s).2.length < s.packetbuf.length) := by
  apply (scan fmt).run_induction (motive := fun s r => r.2 <:+ s.packetbuf ∧
    (r.1 ≠ none → r.2.length < s.packetbuf.length))
  · intro s r h
    rcases scanPass_cases fmt s with he | ⟨hl, ⟨_, he⟩ | ⟨data, _, he | ⟨n, he⟩⟩⟩
    all_goals cases he.symm.trans h
    · exact ⟨List.suffix_refl _, fun hne => absurd rfl hne⟩
    · refine ⟨List.drop_suffix _ _, fun _ => ?_⟩
      simp only [List.length_drop]
      omega
  · intro s s' h ih
    have hlt := scanPass_falls fmt s s' h
    have hs : s'.packetbuf <:+ s.packetbuf := by
      rcases scanPass_cases fmt s with he | ⟨_, ⟨_, he⟩ | ⟨data, _, he | ⟨n, he⟩⟩⟩
      all_goals cases he.symm.trans h
      all_goals exact List.drop_suffix _ _
    exact ⟨ih.1.trans hs, fun hne => Nat.lt_trans (ih.2 hne) hlt⟩

/-- Going round even once costs a byte, whatever is returned. -/
theorem rest_lt_of_again {s s' : Scan} (h : scanPass fmt s = .again s') :
    ((scan fmt).run s).2.length < s.packetbuf.length := by
  have hs := (run_suffix fmt s').1.length_le
  have hf := scanPass_falls fmt s s' h
  have hr := (scan fmt).run_again (show (scan fmt).body s = .again s' from h)
  rw [hr]
  omega

/-- Whatever the code, the buffer left is the one the loop leaves. -/
theorem readFromBuffer_rest (fmt : Format) (buf : ListBuffer) (out : Packet) :
    (readFromBuffer fmt buf out).2.2 = ((scan fmt).run ⟨[], buf⟩).2 := by
  rw [readFromBuffer]
  match (scan fmt).run ⟨[], buf⟩ with
  | (none, _) => rfl
  | (some _, _) => rfl

theorem readFromBuffer_none {buf : ListBuffer} (h : ((scan fmt).run ⟨[], buf⟩).1 = none)
    (out : Packet) : readFromBuffer fmt buf out = (-1, out, ((scan fmt).run ⟨[], buf⟩).2) := by
  rw [readFromBuffer]
  match hr : (scan fmt).run ⟨[], buf⟩ with
  | (none, _) => rfl
  | (some _, _) => simp [hr] at h

theorem readFromBuffer_some {buf : ListBuffer} {d : List UInt8}
    (h : ((scan fmt).run ⟨[], buf⟩).1 = some d) (out : Packet) :
    readFromBuffer fmt buf out = (0, out.swap d, ((scan fmt).run ⟨[], buf⟩).2) := by
  rw [readFromBuffer]
  match hr : (scan fmt).run ⟨[], buf⟩ with
  | (none, _) => simp [hr] at h
  | (some d', _) =>
    obtain rfl : d' = d := by simpa [hr] using h
    rfl

theorem readFromBuffer_closed (f : Frame fmt) (hf : f.Closed) (g s : List UInt8)
    (hg : fmt.headByte ∉ g) (out : Packet) :
    readFromBuffer fmt (g ++ f.bytes ++ s) out = (0, f.packet, s) := by
  rw [readFromBuffer, run_closed f hf g s hg]
  simp only [f.swap_bytes]

/-- Reading undoes packing: behind any bytes without a head byte and before any bytes at all,
the packed payload is returned and the buffer left is what followed it. -/
theorem readFromBuffer_pack (fmt : Format) (p : Payload) (self out : Packet) (g s : List UInt8)
    (hg : fmt.headByte ∉ g) :
    ∃ packet, readFromBuffer fmt (g ++ (p.pack fmt self).buffer ++ s) out = (0, packet, s) ∧
      packet.buffer = (p.pack fmt self).buffer ∧ packet.dataSize.toNat = p.bytes.length ∧
      p.bytes <+: packet.getData := by
  rw [p.pack_eq self]
  exact ⟨(p.frame fmt).packet, readFromBuffer_closed _ p.frame_closed g s hg out, rfl,
    (p.frame fmt).packet_dataSize, ⟨[fmt.endByte], rfl⟩⟩

/-- Both delimiters inside the payload, noise in front and a head byte behind. -/
theorem readFromBuffer_pack_delimiters :
    ∃ packet, readFromBuffer {} ([1] ++ (Payload.pack {} ⟨[0x7e, 0xe7], by decide⟩ new).buffer ++
        [0x7e]) new = (0, packet, [0x7e]) ∧
      packet.buffer = (Payload.pack {} ⟨[0x7e, 0xe7], by decide⟩ new).buffer ∧
      packet.dataSize.toNat = 2 ∧ [0x7e, 0xe7] <+: packet.getData :=
  readFromBuffer_pack {} ⟨[0x7e, 0xe7], by decide⟩ new new [1] [0x7e] (by decide)

end AeProxy.Packet

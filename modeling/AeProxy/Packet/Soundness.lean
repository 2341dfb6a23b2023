import AeProxy.Packet.Resync

/-! When the packet `Packet::read_from_buffer` returns is a frame of the stream: exactly when the
frame at the first head byte closes, or nothing is returned at all. -/
namespace AeProxy.Packet
open Lib
variable {fmt : Format}

/-- The packet holds a closed frame, found in the buffer right before what was left. -/
def WellFramed (fmt : Format) (buf : ListBuffer) (out : Packet) (rest : ListBuffer) : Prop :=
  ∃ (f : Frame fmt) (before : List UInt8), f.Closed ∧ out.buffer = f.bytes ∧
    out.dataSize.toNat = f.body.length ∧ out.packetSize = f.body.length + 4 ∧
    buf = before ++ out.buffer ++ rest

/-- Whatever the call returns with code 0 is well framed. -/
def Sound (fmt : Format) (buf : ListBuffer) : Prop :=
  ∀ out packet rest, readFromBuffer fmt buf out = (0, packet, rest) → WellFramed fmt buf packet rest

/-- The buffer from the first head byte on. -/
def firstFrame (fmt : Format) (buf : ListBuffer) : ListBuffer := buf.dropWhile (· ≠ fmt.headByte)

def sizeField (fmt : Format) (r : ListBuffer) : Nat := wireValue fmt.mode [r.getD 1 0, r.getD 2 0]

/-- The frame at the first head byte is complete and closed. -/
def FirstCloses (fmt : Format) (buf : ListBuffer) : Prop :=
  let r := firstFrame fmt buf
  sizeField fmt r + 4 ≤ r.length ∧ r.getD (sizeField fmt r + 3) 0 = fmt.endByte

/-- No byte compared at steps of three from the first head byte is the end byte. -/
def NeverEnds (fmt : Format) (buf : ListBuffer) : Prop :=
  let r := firstFrame fmt buf
  ∀ k, Reaches (sizeField fmt r) (r.drop (3 * k)) →
    checked (sizeField fmt r) (r.drop (3 * k)) ≠ fmt.endByte

private theorem firstFrame_noise (fmt : Format) (buf : ListBuffer) :
    ∃ g, fmt.headByte ∉ g ∧ buf = g ++ firstFrame fmt buf ∧
      (firstFrame fmt buf = [] ∨ ∃ b, firstFrame fmt buf = fmt.headByte :: b) := by
  induction buf with
  | nil => exact ⟨[], List.not_mem_nil, rfl, Or.inl rfl⟩
  | cons x buf ih =>
    rcases eq_or_ne x fmt.headByte with hx | hx
    · have hr : firstFrame fmt (x :: buf) = x :: buf := by simp [firstFrame, hx]
      exact ⟨[], List.not_mem_nil, hr.symm, Or.inr ⟨buf, by rw [hr, hx]⟩⟩
    · obtain ⟨g, hg, he, hh⟩ := ih
      have hr : firstFrame fmt (x :: buf) = firstFrame fmt buf := by simp [firstFrame, hx]
      rw [hr]
      refine ⟨x :: g, ?_, congrArg (x :: ·) he, hh⟩
      exact List.not_mem_cons_of_ne_of_not_mem (Ne.symm hx) hg

private theorem run_noise_short (g b : List UInt8) (hg : fmt.headByte ∉ g) (hb : b.length < 4) :
    ((scan fmt).run ⟨[], g ++ b⟩).1 = none := by
  have short (b : List UInt8) (hb : b.length < 4) : ((scan fmt).run ⟨[], b⟩).1 = none := by
    rw [(scan fmt).run_leave (scanPass_short (s := ⟨[], b⟩) hb)]
  induction g with
  | nil => exact short b hb
  | cons x g ih =>
    rw [List.mem_cons, not_or] at hg
    by_cases hl : (x :: (g ++ b)).length < 4
    · exact short _ hl
    · have hp : (scan fmt).body ⟨[], x :: (g ++ b)⟩ = .again ⟨[], g ++ b⟩ :=
        scanPass_noise (Ne.symm hg.1) (by simp only [List.length_cons] at hl; omega)
      rw [List.cons_append, (scan fmt).run_again hp, ih hg.2]

/-- With the first frame's header in front, everything the call does is decided by what is at
the first head byte. -/
private theorem run_firstFrame (fmt : Format) (buf : ListBuffer) :
    ((firstFrame fmt buf).length < 4 ∧ ((scan fmt).run ⟨[], buf⟩).1 = none) ∨
    ∃ s0 s1 b, firstFrame fmt buf = fmt.headByte :: s0 :: s1 :: b ∧ b ≠ [] ∧
      ∃ g, fmt.headByte ∉ g ∧ buf = g ++ fmt.headByte :: s0 :: s1 :: b ∧
        (scan fmt).run ⟨[], buf⟩ = (scan fmt).run ⟨[], fmt.headByte :: s0 :: s1 :: b⟩ := by
  obtain ⟨g, hg, he, hh⟩ := firstFrame_noise fmt buf
  by_cases hl : (firstFrame fmt buf).length < 4
  · left
    refine ⟨hl, ?_⟩
    rw [he]
    exact run_noise_short g _ hg hl
  · right
    rcases hh with hh | ⟨b, hh⟩
    · rw [hh] at hl
      simp at hl
    · rw [hh] at he hl
      obtain ⟨k, hk⟩ : ∃ k, b.length = k + 3 :=
        Nat.exists_eq_add_of_le' (by simp only [List.length_cons] at hl; omega)
      match b, hk with
      | s0 :: s1 :: y :: b, _ =>
        exact ⟨s0, s1, y :: b, hh, List.cons_ne_nil _ _, g, hg, he, by
          rw [he, run_noise g _ hg (by simp)]⟩

/-- A frame read off a buffer that starts with its header and is long enough for its body. -/
private theorem exists_frame (fmt : Format) {s0 s1 : UInt8} {b : ListBuffer}
    (h : wireValue fmt.mode [s0, s1] < b.length) : ∃ (f : Frame fmt) (s : List UInt8),
      f.size0 = s0 ∧ f.size1 = s1 ∧ fmt.headByte :: s0 :: s1 :: b = f.bytes ++ s := by
  refine ⟨⟨s0, s1, b.take _, b.getD (wireValue fmt.mode [s0, s1]) 0,
      List.length_take_of_le (Nat.le_of_lt h)⟩,
    b.drop (wireValue fmt.mode [s0, s1] + 1), rfl, rfl, ?_⟩
  have hd := List.drop_eq_getElem_cons h
  have he := List.take_append_drop (wireValue fmt.mode [s0, s1]) b
  rw [hd] at he
  simp only [Frame.bytes, List.cons_append, List.append_assoc, List.nil_append]
  rw [List.getD_eq_getElem?_getD, List.getElem?_eq_getElem h, Option.getD_some, he]

private theorem wellFramed_length {buf out rest} {s0 s1 : UInt8} (h : WellFramed fmt buf out rest)
    (hp : [fmt.headByte, s0, s1] <+: out.buffer) :
    out.buffer.length = wireValue fmt.mode [s0, s1] + 4 := by
  obtain ⟨f, _, _, hb, _⟩ := h
  obtain ⟨t, ht⟩ := hp
  rw [hb] at ht ⊢
  simp only [Frame.bytes, List.cons_append, List.nil_append, List.cons.injEq] at ht
  rw [f.bytes_length, f.sized, ht.2.1, ht.2.2.1]

private theorem sound_of_none {buf : ListBuffer} (h : ((scan fmt).run ⟨[], buf⟩).1 = none) :
    Sound fmt buf := by
  intro out packet rest he
  rw [readFromBuffer_none h] at he
  cases he

/-- A packet that is well framed has the length its first size field says, which neither a
second round nor an unfinished body leaves it with. -/
private theorem not_sound {buf b : ListBuffer} {s0 s1 : UInt8}
    (hrun : (scan fmt).run ⟨[], buf⟩ = (scan fmt).run ⟨[], fmt.headByte :: s0 :: s1 :: b⟩)
    (hsome : ((scan fmt).run ⟨[], buf⟩).1 ≠ none)
    (hopen : ∀ (f : Frame fmt) (s : List UInt8),
      fmt.headByte :: s0 :: s1 :: b = f.bytes ++ s → ¬ f.Closed) :
    ¬ Sound fmt buf := by
  intro hs
  obtain ⟨d, hd⟩ := Option.ne_none_iff_exists'.mp hsome
  have hread := readFromBuffer_some hd new
  rw [hrun] at hd
  have hlen := wellFramed_length (hs _ _ _ hread) (run_headed (headed_nil fmt s0 s1 b) d hd)
  rw [show (new.swap d).buffer = d from rfl] at hlen
  by_cases hb : wireValue fmt.mode [s0, s1] < b.length
  · obtain ⟨f, s, h0, h1, he⟩ := exists_frame fmt hb
    have hp : (scan fmt).body ⟨[], f.bytes ++ s⟩ = .again _ :=
      (scanPass_frame f s).trans (if_neg (hopen f s he))
    rw [he, (scan fmt).run_again hp] at hd
    have hlt := (run_extends rfl d hd).2
    rw [f.bytes_length, f.sized, h0, h1] at hlt
    omega
  · have hlt := run_length_lt (headed_nil fmt s0 s1 b) (by simp only [List.length_cons]; omega) d hd
    simp only [List.length_cons, List.length_nil] at hlt
    omega

/-- The call is sound on a buffer exactly when the first frame closes or nothing is returned. -/
theorem sound_iff (fmt : Format) (buf : ListBuffer) :
    Sound fmt buf ↔ FirstCloses fmt buf ∨ NeverEnds fmt buf := by
  rcases run_firstFrame fmt buf with ⟨hl, hnone⟩ | ⟨s0, s1, b, hr, hb, g, hg, he, hrun⟩
  · refine iff_of_true (sound_of_none hnone) (Or.inr fun k hk => absurd hk.1 ?_)
    rw [List.length_drop]
    omega
  · have hn : sizeField fmt (firstFrame fmt buf) = wireValue fmt.mode [s0, s1] := by
      rw [hr]
      rfl
    have hends := run_eq_none_iff (headed_nil fmt s0 s1 b)
    rw [← hrun] at hends
    have hnever : NeverEnds fmt buf ↔ ((scan fmt).run ⟨[], buf⟩).1 = none := by
      rw [hends, NeverEnds, hn, hr]
    by_cases hnone : ((scan fmt).run ⟨[], buf⟩).1 = none
    · exact iff_of_true (sound_of_none hnone) (Or.inr (hnever.mpr hnone))
    · rw [or_iff_left (mt hnever.mp hnone)]
      constructor
      · intro hs
        by_contra hc
        refine not_sound hrun hnone (fun f s hf hclosed => hc ?_) hs
        have hsize : wireValue fmt.mode [s0, s1] = f.body.length := by
          simp only [Frame.bytes, List.cons_append, List.cons.injEq] at hf
          rw [f.sized, hf.2.1, hf.2.2.1]
        rw [FirstCloses, hn, hr, hf, hsize, f.getD_trailer]
        exact ⟨by simp, hclosed⟩
      · intro hc out packet rest hread
        rw [FirstCloses, hn, hr, List.length_cons, List.length_cons, List.length_cons] at hc
        have hb : wireValue fmt.mode [s0, s1] < b.length := by omega
        obtain ⟨f, s, h0, h1, hf⟩ := exists_frame fmt hb
        have hsize : wireValue fmt.mode [s0, s1] = f.body.length := by rw [f.sized, h0, h1]
        have hclosed : f.Closed := by
          have h := hc.2
          rwa [hf, hsize, f.getD_trailer] at h
        rw [he, hf, ← List.append_assoc, readFromBuffer_closed f hclosed g s hg] at hread
        cases hread
        refine ⟨f, g, hclosed, rfl, f.packet_dataSize, f.packet_packetSize, ?_⟩
        rw [he, hf, List.append_assoc]
        rfl

/-- A zero byte in the end byte's place and an end byte three bytes later: the call accepts
eight bytes as one packet although the buffer held seven. -/
theorem unsound_after_bad_end :
    readFromBuffer {} [0x7e, 0, 0, 0, 1, 2, 0xe7] new = (0, ⟨[0x7e, 0, 0, 0, 0, 1, 2, 0xe7], 4⟩, []) ∧
    ¬ Sound {} [0x7e, 0, 0, 0, 1, 2, 0xe7] := by
  have hread : readFromBuffer {} [0x7e, 0, 0, 0, 1, 2, 0xe7] new =
      (0, ⟨[0x7e, 0, 0, 0, 0, 1, 2, 0xe7], 4⟩, []) := by decide
  refine ⟨hread, fun hs => ?_⟩
  obtain ⟨_, before, _, _, _, _, hbuf⟩ := hs _ _ _ hread
  have hlen := congrArg List.length hbuf
  simp only [List.length_append, List.length_cons, List.length_nil] at hlen
  omega

end AeProxy.Packet

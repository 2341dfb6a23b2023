import AeProxy.Packet.Unfinished

/-! A stream received in chunks: every chunk is appended to one `ListBuffer`, and `read_packet`
is called after every append until it returns -1. -/
namespace AeProxy.Packet
open Lib
variable {fmt : Format}

/-- One `read_packet` call with the initial configuration. -/
def nextPacket (fmt : Format) (buf : ListBuffer) : Option Packet × ListBuffer :=
  match readPacket (GlobalConfig.initial fmt) buf new with
  | (rc, out, rest) => (if rc = 0 then some out else none, rest)

theorem nextPacket_eq (fmt : Format) (buf : ListBuffer) : nextPacket fmt buf =
    (((scan fmt).run ⟨[], buf⟩).1.map new.swap, ((scan fmt).run ⟨[], buf⟩).2) := by
  have hr : nextPacket fmt buf =
      (if (readFromBuffer fmt buf new).1 = 0 then some (readFromBuffer fmt buf new).2.1 else none,
        (readFromBuffer fmt buf new).2.2) := rfl
  cases h : ((scan fmt).run ⟨[], buf⟩).1 with
  | none =>
    rw [hr, readFromBuffer_none h]
    rfl
  | some d =>
    rw [hr, readFromBuffer_some h]
    rfl

def reader (fmt : Format) : Reader UInt8 Packet where
  next := nextPacket fmt
  suffix b := by
    rw [nextPacket_eq]
    exact (run_suffix fmt ⟨[], b⟩).1
  shrinks b x r h := by
    rw [nextPacket_eq, Prod.mk.injEq] at h
    rw [← h.2]
    refine (run_suffix fmt ⟨[], b⟩).2 (fun hn => ?_)
    rw [hn] at h
    cases h.1

/-- The packets returned over the whole run, and the buffer at its end. -/
def receive (fmt : Format) (chunks : List (List UInt8)) : List Packet × ListBuffer :=
  (reader fmt).feed chunks

theorem next_unfinished {b : ListBuffer} (h : Unfinished fmt b) : (reader fmt).next b = (none, b) := by
  have hr : (scan fmt).run ⟨[], b⟩ = (none, b) := (scan fmt).run_leave h.scanPass
  exact (nextPacket_eq fmt b).trans (by rw [hr]; rfl)

theorem next_noise {x : UInt8} {b : ListBuffer} (hx : x ≠ fmt.headByte) (hb : 3 ≤ b.length) :
    (reader fmt).next (x :: b) = (reader fmt).next b := by
  have hr : (scan fmt).run ⟨[], x :: b⟩ = _ := (scan fmt).run_again (scanPass_noise hx hb)
  exact (nextPacket_eq fmt _).trans (by rw [hr]; exact (nextPacket_eq fmt b).symm)

theorem next_closed (f : Frame fmt) (hf : f.Closed) (g s : List UInt8) (hg : fmt.headByte ∉ g) :
    (reader fmt).next (g ++ f.bytes ++ s) = (some f.packet, s) := by
  apply (nextPacket_eq fmt _).trans
  rw [run_closed f hf g s hg, Option.map_some, f.swap_bytes]

/-- Read from its start, the stream shows no frame that is complete without the end byte and no
frame whose length wraps. -/
inductive Clean (fmt : Format) : List UInt8 → Prop
  | unfinished {b : List UInt8} : Unfinished fmt b → Clean fmt b
  | noise {x : UInt8} {b : List UInt8} : x ≠ fmt.headByte → Clean fmt b → Clean fmt (x :: b)
  | frame {s : List UInt8} (f : Frame fmt) : f.Closed → f.body.length + 4 < 2 ^ 16 → Clean fmt s →
      Clean fmt (f.bytes ++ s)

namespace Clean

/-- Where a cut falls in a frame followed by more: behind the frame, or inside it. -/
private theorem cut_cases (f : Frame fmt) (hn : f.body.length + 4 < 2 ^ 16) {s b t : List UInt8}
    (h : f.bytes ++ s = b ++ t) : (∃ c, b = f.bytes ++ c ∧ s = c ++ t) ∨ Unfinished fmt b := by
  rcases List.append_eq_append_iff.mp h with ⟨c, hb, hs⟩ | ⟨c, hf, ht⟩
  · exact Or.inl ⟨c, hb, hs⟩
  · rcases eq_or_ne c [] with rfl | hc
    · exact Or.inl ⟨[], by simpa using hf.symm, by simpa using ht.symm⟩
    · right
      have hl := congrArg List.length hf
      have hpos := List.length_pos_of_ne_nil hc
      rw [List.length_append] at hl
      have hu := f.unfinished b.length (by omega) (Or.inl hn)
      rwa [hf, List.take_left] at hu

theorem of_append {b t : List UInt8} (h : Clean fmt (b ++ t)) : Clean fmt b := by
  generalize hS : b ++ t = S at h
  induction h generalizing b with
  | unfinished hu => exact .unfinished (Unfinished.of_append (hS ▸ hu))
  | noise hx _ ih =>
    cases b with
    | nil => exact .unfinished (Or.inl (by simp))
    | cons y b =>
      obtain ⟨rfl, hb⟩ := List.cons.inj hS
      exact .noise hx (ih hb)
  | frame f hf hn _ ih =>
    rcases cut_cases f hn hS.symm with ⟨c, rfl, hs⟩ | hu
    · exact .frame f hf hn (ih hs.symm)
    · exact .unfinished hu

theorem stableAt_unfinished {b t : List UInt8} (h : Clean fmt (b ++ t)) (hu : Unfinished fmt b) :
    (reader fmt).StableAt (Clean fmt) b t :=
  (Reader.stableAt_none (next_unfinished hu) t).mpr ⟨h, rfl⟩

/-- Skipping a byte in front changes nothing of the answer. -/
theorem stableAt_noise {x : UInt8} {b t : List UInt8} (hx : x ≠ fmt.headByte) (hb : 3 ≤ b.length)
    (h : (reader fmt).StableAt (Clean fmt) b t) :
    (reader fmt).StableAt (Clean fmt) (x :: b) t := by
  have hbt : 3 ≤ (b ++ t).length := Nat.le_trans hb (List.length_append ▸ Nat.le_add_right _ _)
  rw [Reader.StableAt, next_noise hx hb, List.cons_append, next_noise hx hbt]
  exact h

theorem stableAt {b t : List UInt8} (h : Clean fmt (b ++ t)) :
    (reader fmt).StableAt (Clean fmt) b t := by
  generalize hS : b ++ t = S at h
  induction h generalizing b with
  | unfinished hu =>
    subst hS
    exact stableAt_unfinished (.unfinished hu) hu.of_append
  | @noise x S hx hc ih =>
    cases b with
    | nil => exact stableAt_unfinished (hS ▸ .noise hx hc) (Or.inl (by simp))
    | cons y b =>
      obtain ⟨rfl, hb⟩ := List.cons.inj hS
      rcases Nat.lt_or_ge b.length 3 with h3 | h3
      · exact stableAt_unfinished (hS ▸ .noise hx hc) (Or.inl (Nat.succ_lt_succ h3))
      · exact stableAt_noise hx h3 (ih hb)
  | @frame s f hf hn hc ih =>
    rcases cut_cases f hn hS.symm with ⟨c, rfl, rfl⟩ | hu
    · have hb := next_closed f hf [] c List.not_mem_nil
      have hs := next_closed f hf [] (c ++ t) List.not_mem_nil
      rw [List.nil_append] at hb hs
      rw [Reader.stableAt_some hb, List.append_assoc]
      exact ⟨hc, hs⟩
    · exact stableAt_unfinished (hS ▸ .frame f hf hn hc) hu

end Clean

theorem reader_stable (fmt : Format) : (reader fmt).StableOn (Clean fmt) where
  head _ _ h := h.of_append
  stable _ _ h := h.stableAt

/-! Packed payloads with noise around them. -/

/-- One payload as it is sent: bytes without a head byte, then the payload packed into an
object that may hold anything. -/
structure Segment (fmt : Format) where
  noise : List UInt8
  payload : Payload
  self : Packet
  quiet : fmt.headByte ∉ noise
  short : payload.bytes.length ≤ 65531

namespace Segment

def packed (g : Segment fmt) : Packet := g.payload.pack fmt g.self

def bytes (g : Segment fmt) : List UInt8 := g.noise ++ g.packed.buffer

theorem packed_eq (g : Segment fmt) : g.packed = (g.payload.frame fmt).packet :=
  g.payload.pack_eq g.self

theorem bytes_eq (g : Segment fmt) : g.bytes = g.noise ++ (g.payload.frame fmt).bytes := by
  rw [bytes, packed_eq, Frame.packet_buffer]

theorem packed_dataSize (g : Segment fmt) : g.packed.dataSize.toNat = g.payload.bytes.length := by
  rw [packed_eq, Frame.packet_dataSize]
  rfl

theorem packed_getData (g : Segment fmt) :
    g.packed.getData = g.payload.bytes ++ [fmt.endByte] := by
  rw [packed_eq, Frame.packet_getData]
  rfl

end Segment

/-- The stream that carries the segments, with more bytes without a head byte at its end. -/
def stream (segments : List (Segment fmt)) (tail : List UInt8) : List UInt8 :=
  (segments.map Segment.bytes).flatten ++ tail

theorem stream_cons (g : Segment fmt) (gs : List (Segment fmt)) (tail : List UInt8) :
    stream (g :: gs) tail = g.noise ++ (g.payload.frame fmt).bytes ++ stream gs tail := by
  rw [stream, List.map_cons, List.flatten_cons, g.bytes_eq, List.append_assoc, stream]

theorem Clean.noise_append {g s : List UInt8} (hg : fmt.headByte ∉ g) (hs : Clean fmt s) :
    Clean fmt (g ++ s) := by
  induction g with
  | nil => exact hs
  | cons x g ih =>
    rw [List.mem_cons, not_or] at hg
    exact .noise (Ne.symm hg.1) (ih hg.2)

theorem clean_stream (segments : List (Segment fmt)) (tail : List UInt8)
    (htail : fmt.headByte ∉ tail) : Clean fmt (stream segments tail) := by
  induction segments with
  | nil =>
    have h := Clean.noise_append htail (.unfinished (b := []) (Or.inl (by simp)))
    simpa [stream] using h
  | cons g gs ih =>
    rw [stream_cons, List.append_assoc]
    have hn : (g.payload.frame fmt).body.length + 4 < 2 ^ 16 := by
      have h := g.short
      rw [show (g.payload.frame fmt).body = g.payload.bytes from rfl]
      omega
    exact .noise_append g.quiet (.frame _ g.payload.frame_closed hn ih)

theorem next_quiet {b : ListBuffer} (hb : fmt.headByte ∉ b) :
    ∃ r, (reader fmt).next b = (none, r) := by
  induction b with
  | nil => exact ⟨[], (reader fmt).next_nil⟩
  | cons x b ih =>
    rw [List.mem_cons, not_or] at hb
    rcases Nat.lt_or_ge b.length 3 with hl | hl
    · exact ⟨x :: b, next_unfinished (Or.inl (Nat.succ_lt_succ hl))⟩
    · rw [next_noise (Ne.symm hb.1) hl]
      exact ih hb.2

theorem drain_stream (segments : List (Segment fmt)) (tail : List UInt8)
    (htail : fmt.headByte ∉ tail) :
    ((reader fmt).drain (stream segments tail)).1 = segments.map Segment.packed := by
  induction segments with
  | nil =>
    obtain ⟨r, hr⟩ := next_quiet htail
    have hd : stream ([] : List (Segment fmt)) tail = tail := rfl
    rw [hd, (reader fmt).drain_none hr, List.map_nil]
  | cons g gs ih =>
    have hnext := next_closed _ g.payload.frame_closed g.noise (stream gs tail) g.quiet
    rw [stream_cons, (reader fmt).drain_some hnext, ih, List.map_cons, g.packed_eq]

/-- However the stream is cut, the packets returned are the packed payloads, once each and in
order, and each carries its payload and the payload's length. -/
theorem receive_stream (segments : List (Segment fmt)) (tail : List UInt8)
    (htail : fmt.headByte ∉ tail) (chunks : List (List UInt8))
    (hcut : chunks.flatten = stream segments tail) :
    (receive fmt chunks).1 = segments.map Segment.packed ∧
      ∀ g ∈ segments, g.packed.dataSize.toNat = g.payload.bytes.length ∧
        g.packed.getData.take g.packed.dataSize.toNat = g.payload.bytes := by
  constructor
  · have hclean : Clean fmt chunks.flatten := hcut ▸ clean_stream segments tail htail
    rw [receive, (reader_stable fmt).feed_eq_drain chunks hclean, hcut]
    exact drain_stream segments tail htail
  · intro g _
    refine ⟨g.packed_dataSize, ?_⟩
    rw [g.packed_dataSize, g.packed_getData, List.take_left]

/-- Two payloads, one of both delimiters, with noise around them and cut inside a size field. -/
theorem receive_stream_two :
    let first : Segment {} := ⟨[1], ⟨[0x7e, 0xe7], by decide⟩, new, by decide, by decide⟩
    let second : Segment {} := ⟨[], ⟨[], by decide⟩, new, by decide, by decide⟩
    (receive {} [[1, 0x7e, 2], [0, 0x7e, 0xe7, 0xe7, 0x7e], [], [0, 0, 0xe7, 3]]).1 =
        [first, second].map Segment.packed ∧
      ∀ g ∈ [first, second], g.packed.dataSize.toNat = g.payload.bytes.length ∧
        g.packed.getData.take g.packed.dataSize.toNat = g.payload.bytes :=
  receive_stream [_, _] [3] (by decide) _ (by decide)

/-! Any stream at all. -/

/-- Every two ways of cutting the stream deliver the same packets and leave the same buffer, and
a further call on it returns -1 and changes nothing. -/
def ChunkingIndependent (fmt : Format) (S : List UInt8) : Prop :=
  ∀ chunks chunks', chunks.flatten = S → chunks'.flatten = S →
    receive fmt chunks = receive fmt chunks' ∧
      ∀ out, readPacket (GlobalConfig.initial fmt) (receive fmt chunks).2 out =
        (-1, out, (receive fmt chunks).2)

theorem readPacket_of_next {b r : ListBuffer} (h : (reader fmt).next b = (none, r))
    (out : Packet) : readPacket (GlobalConfig.initial fmt) b out = (-1, out, r) := by
  have hn := (nextPacket_eq fmt b).symm.trans h
  rw [Prod.mk.injEq, Option.map_eq_none_iff] at hn
  exact hn.2 ▸ readFromBuffer_none hn.1 out

theorem chunkingIndependent_of_clean {S : List UInt8} (h : Clean fmt S) :
    ChunkingIndependent fmt S := by
  have cut {cs : List (List UInt8)} (hcs : cs.flatten = S) :
      receive fmt cs = (reader fmt).drain S := by
    rw [receive, (reader_stable fmt).feed_eq_drain cs (hcs ▸ h), hcs]
  intro chunks chunks' hc hc'
  refine ⟨(cut hc).trans (cut hc').symm, readPacket_of_next ?_⟩
  rw [cut hc]
  exact (reader_stable fmt).next_drained S h

/-- Noise, a frame and the start of another. -/
theorem chunkingIndependent_example : ChunkingIndependent {} [1, 0x7e, 0, 0, 0xe7, 0x7e, 1, 0, 5] :=
  chunkingIndependent_of_clean (.noise (by decide)
    (.frame ⟨0, 0, [], 0xe7, by decide⟩ (by decide) (by decide)
      (.unfinished (Or.inr ⟨1, 0, [5], rfl, by decide, by decide⟩))))

/-- A bad end byte: one chunk delivers the whole stream and a byte more as a packet, a cut behind
the bad frame delivers nothing. -/
theorem not_chunkingIndependent_of_bad_end :
    ¬ ChunkingIndependent {} [0x7e, 0, 0, 0, 1, 2, 0xe7] := by
  intro h
  have hcut := (h [[0x7e, 0, 0, 0, 1, 2, 0xe7]] [[0x7e, 0, 0, 0], [1, 2, 0xe7]] rfl rfl).1
  revert hcut
  decide

end AeProxy.Packet

import AeProxy.Packet.Resync

/-! An unfinished frame stays in the buffer exactly as long as its 16-bit length does not wrap. -/
namespace AeProxy.Packet
open Lib
variable {fmt : Format}

/-- The first `k` bytes of a packed payload, read before the rest has come: nothing is returned
and nothing is dropped, so that the packet is returned once the rest is appended. -/
def PrefixKept (fmt : Format) (p : Payload) (k : Nat) : Prop :=
  ∀ self out, ∃ left, readFromBuffer fmt ((p.pack fmt self).buffer.take k) out = (-1, out, left) ∧
    left = (p.pack fmt self).buffer.take k ∧
    readFromBuffer fmt (ListBuffer.append left ((p.pack fmt self).buffer.drop k)) out =
      (0, p.pack fmt self, [])

/-- Fewer bytes than a pass needs, or a header with too few bytes behind it whose frame length
fits 16 bits. -/
def Unfinished (fmt : Format) (b : ListBuffer) : Prop :=
  b.length < 4 ∨ ∃ s0 s1 rest, b = fmt.headByte :: s0 :: s1 :: rest ∧
    wireValue fmt.mode [s0, s1] + 4 < 2 ^ 16 ∧ rest.length < wireValue fmt.mode [s0, s1] + 1

theorem Unfinished.scanPass {b : ListBuffer} (h : Unfinished fmt b) :
    scanPass fmt ⟨[], b⟩ = .leave (none, b) := by
  rcases h with h | ⟨s0, s1, rest, rfl, hn, hr⟩
  · exact scanPass_short h
  · exact scanPass_cut hn hr

theorem Unfinished.of_append {b t : ListBuffer} (h : Unfinished fmt (b ++ t)) : Unfinished fmt b := by
  rcases Nat.lt_or_ge b.length 4 with h4 | h4
  · exact Or.inl h4
  · obtain ⟨k, hk⟩ : ∃ k, b.length = k + 3 := ⟨b.length - 3, by omega⟩
    rcases h with h | ⟨s0, s1, rest, he, hn, hr⟩
    · rw [List.length_append] at h
      omega
    · match b, hk with
      | x :: y0 :: y1 :: b, _ =>
        simp only [List.cons_append, List.cons.injEq] at he
        obtain ⟨rfl, rfl, rfl, rfl⟩ := he
        exact Or.inr ⟨y0, y1, b, rfl, hn, by rw [List.length_append] at hr; omega⟩

theorem Frame.unfinished (f : Frame fmt) (k : Nat) (hk : k < f.bytes.length)
    (h : f.body.length + 4 < 2 ^ 16 ∨ k < 4) : Unfinished fmt (f.bytes.take k) := by
  rcases Nat.lt_or_ge k 4 with h4 | h4
  · exact Or.inl (by simp only [List.length_take]; omega)
  · obtain ⟨j, rfl⟩ : ∃ j, k = j + 3 := ⟨k - 3, by omega⟩
    rw [f.bytes_length] at hk
    rw [f.sized] at hk h
    refine Or.inr ⟨f.size0, f.size1, _, rfl, by omega, ?_⟩
    simp only [List.length_take]
    omega

/-- When the 16-bit length wraps, a pass on four bytes or more drops the header. -/
private theorem prefix_dropped (f : Frame fmt) (k : Nat) (hk : k < f.bytes.length) (h4 : 4 ≤ k)
    (hn : 2 ^ 16 ≤ f.body.length + 4) (out out' : Packet) :
    readFromBuffer fmt (f.bytes.take k) out ≠ (-1, out', f.bytes.take k) := by
  have hlen : (f.bytes.take k).length = k := List.length_take_of_le (Nat.le_of_lt hk)
  have hd : Headed fmt f.size0 f.size1 ⟨[], f.bytes.take k⟩ := by
    obtain ⟨j, rfl⟩ : ∃ j, k = j + 3 := ⟨k - 3, by omega⟩
    exact headed_nil fmt _ _ _
  have hlt := f.body_length_lt
  have hreach : Reaches (wireValue fmt.mode [f.size0, f.size1]) (f.bytes.take k) := by
    rw [Reaches, ← f.sized, hlen, msgsize, packetMinSize]
    omega
  intro h
  rcases scanPass_headed hd with ⟨hn, _⟩ | ⟨_, ⟨_, he⟩ | ⟨_, he, _⟩⟩
  · exact hn hreach
  · have hleave : (scan fmt).body ⟨[], f.bytes.take k⟩ = .leave _ := he
    rw [readFromBuffer, (scan fmt).run_leave hleave] at h
    cases h
  · have hrest := readFromBuffer_rest fmt (f.bytes.take k) out
    rw [h] at hrest
    exact absurd (rest_lt_of_again he) (by rw [← hrest]; exact Nat.lt_irrefl _)

private theorem not_prefixKept (fmt : Format) (p : Payload) (k : Nat) (hk : k < p.bytes.length + 4)
    (h4 : 4 ≤ k) (hn : 2 ^ 16 ≤ p.bytes.length + 4) : ¬ PrefixKept fmt p k := by
  intro h
  obtain ⟨left, hread, hleft, _⟩ := h new new
  rw [p.pack_eq new, Frame.packet_buffer] at hread hleft
  subst hleft
  exact prefix_dropped (p.frame fmt) k ((p.frame fmt).bytes_length ▸ hk) h4 hn new new hread

/-- An unfinished frame is kept exactly when its length fits 16 bits or fewer bytes than a
pass needs have come. -/
theorem prefixKept_iff (fmt : Format) (p : Payload) (k : Fin (p.bytes.length + 4)) :
    PrefixKept fmt p k ↔ p.bytes.length + 4 < 2 ^ 16 ∨ k.val < 4 := by
  constructor
  · intro h
    by_contra hc
    exact not_prefixKept fmt p k k.isLt (by omega) (by omega) h
  · intro h self out
    rw [p.pack_eq self, Frame.packet_buffer]
    have hk : k.val < (p.frame fmt).bytes.length := (Frame.bytes_length _).symm ▸ k.isLt
    have hp : (scan fmt).body ⟨[], (p.frame fmt).bytes.take k⟩ = _ :=
      ((p.frame fmt).unfinished k hk h).scanPass
    refine ⟨(p.frame fmt).bytes.take k, ?_, rfl, ?_⟩
    · rw [readFromBuffer, (scan fmt).run_leave hp]
    · have hc := readFromBuffer_closed (p.frame fmt) p.frame_closed [] [] List.not_mem_nil out
      rw [ListBuffer.append, List.take_append_drop]
      simpa using hc

private theorem zeros_length (n : Nat) : (List.replicate n (0 : UInt8)).length = n :=
  List.length_replicate

private theorem zeros_not_kept (n : Nat) (h : n < 2 ^ 16) (hn : 2 ^ 16 ≤ n + 4) :
    ¬ PrefixKept {} ⟨List.replicate n 0, (zeros_length n).symm ▸ h⟩ 4 :=
  not_prefixKept {} _ 4 (by simp only [zeros_length]; omega) (Nat.le_refl 4)
    (by simp only [zeros_length]; exact hn)

/-- The shortest payload whose frame length wraps, with its header and one byte come. -/
theorem wrapped_prefix_dropped :
    ¬ PrefixKept {} ⟨List.replicate 65532 0, (zeros_length 65532).symm ▸ by decide⟩ 4 :=
  zeros_not_kept 65532 (by decide) (by decide)

end AeProxy.Packet

import AeProxy.Packet.Decoder

/-! Behind a bad end byte `Packet::read_from_buffer` goes round with the bad frame still in the
accumulator, three bytes further on, under the same size field. -/
namespace AeProxy.Packet
open Lib
variable {fmt : Format}

/-- A pass under size field `n` gets as far as comparing an end byte. -/
def Reaches (n : Nat) (b : ListBuffer) : Prop := 4 ≤ b.length ∧ msgsize n ≤ b.length

instance (n : Nat) (b : ListBuffer) : Decidable (Reaches n b) := inferInstanceAs (Decidable (_ ∧ _))

/-- The byte it compares: the last one it pushes. -/
def checked (n : Nat) (b : ListBuffer) : UInt8 := b.getD (pushed n b - 1) 0

/-- The accumulator and the header bytes of this pass start with the head byte and this size. -/
def Headed (fmt : Format) (s0 s1 : UInt8) (s : Scan) : Prop :=
  [fmt.headByte, s0, s1] <+: s.data ++ s.packetbuf.take 3

theorem headed_nil (fmt : Format) (s0 s1 : UInt8) (b : ListBuffer) :
    Headed fmt s0 s1 ⟨[], fmt.headByte :: s0 :: s1 :: b⟩ := ⟨[], rfl⟩

section
variable {s0 s1 : UInt8} {s : Scan}

/-- Going round keeps the head byte and the size field in front. -/
theorem Headed.again {n : Nat} (hd : Headed fmt s0 s1 s) :
    Headed fmt s0 s1 ⟨s.data ++ s.packetbuf.take (pushed n s.packetbuf), s.packetbuf.drop 3⟩ := by
  have ht : s.packetbuf.take 3 <+: s.packetbuf.take (pushed n s.packetbuf) := by
    apply List.take_prefix_take_left
    unfold pushed
    split <;> omega
  have hp : s.data ++ s.packetbuf.take 3 <+: s.data ++ s.packetbuf.take (pushed n s.packetbuf) :=
    (List.prefix_append_right_inj s.data).mpr ht
  exact (hd.trans hp).trans (List.prefix_append _ _)

/-- All a pass can do once the header is in front: wait, or compare a byte and, whether or not
it is the end byte, push what came before it. -/
theorem scanPass_headed (hd : Headed fmt s0 s1 s) :
    let n := wireValue fmt.mode [s0, s1]
    let data := s.data ++ s.packetbuf.take (pushed n s.packetbuf)
    ¬ Reaches n s.packetbuf ∧ scanPass fmt s = .leave (none, s.packetbuf) ∨
    Reaches n s.packetbuf ∧
      (checked n s.packetbuf = fmt.endByte ∧
          scanPass fmt s = .leave (some data, s.packetbuf.drop (n + 4)) ∨
        checked n s.packetbuf ≠ fmt.endByte ∧
          scanPass fmt s = .again ⟨data, s.packetbuf.drop 3⟩ ∧
          Headed fmt s0 s1 ⟨data, s.packetbuf.drop 3⟩) := by
  intro n data
  obtain ⟨acc, hacc⟩ := id hd
  rcases Nat.lt_or_ge s.packetbuf.length 4 with h4 | h4
  · exact Or.inl ⟨fun h => Nat.not_lt.mpr h.1 h4, scanPass_short h4⟩
  · have hpass := scanPass_header h4 hacc.symm
    rcases Nat.lt_or_ge s.packetbuf.length (msgsize n) with hm | hm
    · exact Or.inl ⟨fun h => Nat.not_lt.mpr h.2 hm, hpass.trans (if_pos hm)⟩
    · refine Or.inr ⟨⟨h4, hm⟩, ?_⟩
      rw [if_neg (Nat.not_lt.mpr hm)] at hpass
      rcases eq_or_ne (checked n s.packetbuf) fmt.endByte with hc | hc
      · exact Or.inl ⟨hc, hpass.trans (if_pos hc)⟩
      · exact Or.inr ⟨hc, hpass.trans (if_neg hc), hd.again⟩

/-- No packet comes out exactly when no pass, each three bytes further on, compares a byte that
is the end byte. -/
theorem run_eq_none_iff (hd : Headed fmt s0 s1 s) :
    ((scan fmt).run s).1 = none ↔ ∀ k,
      Reaches (wireValue fmt.mode [s0, s1]) (s.packetbuf.drop (3 * k)) →
      checked (wireValue fmt.mode [s0, s1]) (s.packetbuf.drop (3 * k)) ≠ fmt.endByte := by
  revert hd
  refine (scan fmt).run_induction (motive := fun s r => Headed fmt s0 s1 s → (r.1 = none ↔ ∀ k,
    Reaches (wireValue fmt.mode [s0, s1]) (s.packetbuf.drop (3 * k)) →
    checked (wireValue fmt.mode [s0, s1]) (s.packetbuf.drop (3 * k)) ≠ fmt.endByte)) ?_ ?_ s
  · intro s r hl hd
    rcases scanPass_headed hd with ⟨h, he⟩ | ⟨h, ⟨hc, he⟩ | ⟨_, he, _⟩⟩
    all_goals cases he.symm.trans hl
    · refine iff_of_true rfl (fun k hk => absurd ?_ h)
      have hlen := List.length_drop (l := s.packetbuf) (i := 3 * k)
      unfold Reaches at hk ⊢
      omega
    · exact iff_of_false (Option.some_ne_none _) (fun hk => hk 0 h hc)
  · intro s s' ha ih hd
    rcases scanPass_headed hd with ⟨_, he⟩ | ⟨_, ⟨_, he⟩ | ⟨hc, he, hd'⟩⟩
    all_goals cases he.symm.trans ha
    rw [ih hd']
    constructor
    · intro hk k
      cases k with
      | zero => exact fun _ => hc
      | succ k => simpa only [List.drop_drop, Nat.mul_succ, Nat.add_comm] using hk k
    · intro hk k
      simpa only [List.drop_drop, Nat.mul_succ, Nat.add_comm] using hk (k + 1)

/-- A packet that comes out starts with the head byte and the size field. -/
theorem run_headed (hd : Headed fmt s0 s1 s) (d : List UInt8) (h : ((scan fmt).run s).1 = some d) :
    [fmt.headByte, s0, s1] <+: d := by
  refine (scan fmt).run_invariant (Headed fmt s0 s1)
    (fun r => ∀ d, r.1 = some d → [fmt.headByte, s0, s1] <+: d) ?_ ?_ s hd d h
  · intro s s' hd ha
    rcases scanPass_headed hd with ⟨_, he⟩ | ⟨_, ⟨_, he⟩ | ⟨_, he, hd'⟩⟩
    all_goals cases he.symm.trans ha
    exact hd'
  · intro s r hd hl d hr
    rcases scanPass_cases fmt s with he | ⟨_, ⟨_, he⟩ | ⟨data, hp, he | ⟨n, he⟩⟩⟩
    all_goals cases he.symm.trans hl
    · cases hr
    · cases hr
      exact hd.trans hp

/-- While the body is not all there each pass moves three bytes from the buffer to the
accumulator, so a packet that comes out is shorter than the two together. -/
theorem run_length_lt (hd : Headed fmt s0 s1 s)
    (hb : s.packetbuf.length < wireValue fmt.mode [s0, s1] + 4) (d : List UInt8)
    (h : ((scan fmt).run s).1 = some d) : d.length < s.data.length + s.packetbuf.length := by
  refine (scan fmt).run_invariant
    (fun t => Headed fmt s0 s1 t ∧ t.packetbuf.length < wireValue fmt.mode [s0, s1] + 4 ∧
      t.data.length + t.packetbuf.length = s.data.length + s.packetbuf.length)
    (fun r => ∀ d, r.1 = some d → d.length < s.data.length + s.packetbuf.length)
    ?_ ?_ s ⟨hd, hb, rfl⟩ d h
  · rintro t t' ⟨hd, hb, hsum⟩ ha
    rcases scanPass_headed hd with ⟨_, he⟩ | ⟨⟨h4, _⟩, ⟨_, he⟩ | ⟨_, he, hd'⟩⟩
    all_goals cases he.symm.trans ha
    refine ⟨hd', ?_, ?_⟩
    · simp only [List.length_drop]
      omega
    · rw [pushed, if_neg (Nat.not_le.mpr hb)]
      simp only [List.length_append, List.length_take, List.length_drop]
      omega
  · rintro t r ⟨hd, hb, hsum⟩ hl d hr
    rcases scanPass_headed hd with ⟨_, he⟩ | ⟨⟨h4, _⟩, ⟨_, he⟩ | ⟨_, he, _⟩⟩
    all_goals cases he.symm.trans hl
    · cases hr
    · cases hr
      rw [pushed, if_neg (Nat.not_le.mpr hb)]
      simp only [List.length_append, List.length_take]
      omega

/-- An accumulator that starts with the head byte only grows, and grows before any packet. -/
theorem run_extends (hd : s.data.head? = some fmt.headByte) (d : List UInt8)
    (h : ((scan fmt).run s).1 = some d) : s.data <+: d ∧ s.data.length < d.length := by
  refine (scan fmt).run_invariant (fun t => s.data <+: t.data)
    (fun r => ∀ d, r.1 = some d → s.data <+: d ∧ s.data.length < d.length)
    ?_ ?_ s (List.prefix_refl _) d h
  · intro t t' hpre ha
    obtain ⟨rest, hrest⟩ := hpre
    obtain ⟨acc, hacc⟩ := List.head?_eq_some_iff.mp hd
    rcases scanPass_cases fmt t with he | ⟨_, ⟨hne, he⟩ | ⟨data, hp, he | ⟨n, he⟩⟩⟩
    all_goals cases he.symm.trans ha
    · exact absurd (by rw [← hrest, hacc]; rfl) hne
    · exact ((hrest ▸ List.prefix_append _ _).trans (List.prefix_append _ _)).trans hp
  · intro t r hpre hl d hr
    rcases scanPass_cases fmt t with he | ⟨h4, ⟨_, he⟩ | ⟨data, hp, he | ⟨n, he⟩⟩⟩
    all_goals cases he.symm.trans hl
    · cases hr
    · cases hr
      have hlen := hp.length_le
      simp only [List.length_append, List.length_take] at hlen
      have hle := hpre.length_le
      exact ⟨hpre.trans ((List.prefix_append _ _).trans hp), by omega⟩

end

/-! A corrupt frame. -/

/-- A complete frame with a bad end byte and no head byte behind its header. -/
structure CorruptFrame (fmt : Format) extends Frame fmt where
  bad : trailer ≠ fmt.endByte
  quiet : fmt.headByte ∉ body ++ [trailer]

/-- One call steps over the corrupt frame and returns the packet packed behind it. -/
def Recovers (c : CorruptFrame fmt) (p : Payload) (s : List UInt8) (self out : Packet) : Prop :=
  readFromBuffer fmt (c.bytes ++ (p.pack fmt self).buffer ++ s) out = (0, p.pack fmt self, s)

/-- Recovery never happens: what comes out, if anything, starts with the corrupt frame. -/
theorem not_recovers (c : CorruptFrame fmt) (p : Payload) (s : List UInt8) (self out : Packet) :
    ¬ Recovers c p s self out := by
  intro h
  rw [Recovers, p.pack_eq self, readFromBuffer, List.append_assoc] at h
  have hpass : (scan fmt).body ⟨[], c.bytes ++ ((p.frame fmt).bytes ++ s)⟩ = .again _ :=
    (scanPass_frame c.toFrame _).trans (if_neg c.bad)
  rw [Frame.packet_buffer, (scan fmt).run_again hpass] at h
  split at h
  · cases h
  · rename_i data rest hrun
    obtain rfl : data = (p.frame fmt).bytes := congrArg (fun r => r.2.1.buffer) h
    obtain ⟨hpre, hlt⟩ := run_extends rfl _ (congrArg Prod.fst hrun)
    obtain ⟨t, ht⟩ := hpre
    simp only [Frame.bytes, List.cons_append, List.cons.injEq] at ht
    have hlen := Frame.length_eq_of_size ht.2.1 ht.2.2.1
    exact absurd hlt (by rw [hlen]; omega)

/-- An empty body with a zero byte in the end byte's place, then an empty payload: the call
returns -1 with the good frame's header gone. -/
theorem corrupt_frame_costs_next :
    ¬ Recovers (⟨⟨0, 0, [], 0, rfl⟩, by decide, by decide⟩ : CorruptFrame {}) ⟨[], by decide⟩ []
      new new ∧
    readFromBuffer {} [0x7e, 0, 0, 0, 0x7e, 0, 0, 0xe7] new = (-1, new, [0, 0xe7]) := by
  unfold Recovers
  decide

end AeProxy.Packet

import AeProxy.Lib.System
import Mathlib.Algebra.BigOperators.Group.Multiset.Basic
import Mathlib.Algebra.Order.BigOperators.Group.Multiset
import Mathlib.Tactic.Abel

/-! Hosts on a network that may lose, repeat and reorder what they send, and two rules about their
runs: what all packets on the way satisfy, and what they can be worth together. -/
namespace AeProxy.Lib

structure Packet (α δ : Type*) where
  src : α
  dst : α
  data : δ
  deriving DecidableEq, Repr

/-- What the hosts send of their own accord, and on a packet one of them receives, where that may
depend on more than the packet. -/
structure Hosts (σ ε μ α δ : Type*) where
  act : Machine σ ε (Packet α δ)
  receive : σ → μ → Packet α δ → σ × List (Packet α δ)

/-- The hosts, the packets on their way, and those the network has made a second time. -/
structure Network (σ α δ : Type*) where
  hosts : σ
  packets : Multiset (Packet α δ)
  copied : Multiset (Packet α δ)

namespace Network

inductive Event (ε μ α δ : Type*) where
  | act (event : ε)
  | deliver (input : μ) (packet : Packet α δ)
  | lose (packet : Packet α δ)
  | copy (packet : Packet α δ)

variable {σ ε μ α δ : Type*}

/-- Nothing is on its way. -/
def start (hosts : σ) : Network σ α δ := ⟨hosts, 0, 0⟩

section step
variable [DecidableEq α] [DecidableEq δ]

def step (hosts : Hosts σ ε μ α δ) : Step (Network σ α δ) (Event ε μ α δ) := fun self event =>
  match event with
  | .act event => (hosts.act self.hosts event).map fun (t, out) =>
    { self with hosts := t, packets := self.packets + out }
  | .deliver input packet =>
    if packet ∈ self.packets then
      let (t, out) := hosts.receive self.hosts input packet
      some { self with hosts := t, packets := self.packets.erase packet + out }
    else none
  | .lose packet =>
    if packet ∈ self.packets then some { self with packets := self.packets.erase packet } else none
  | .copy packet =>
    if packet ∈ self.packets then
      some { self with packets := packet ::ₘ self.packets, copied := packet ::ₘ self.copied }
    else none

/-- What an event does. -/
inductive Does (hosts : Hosts σ ε μ α δ) (s : Network σ α δ) :
    Event ε μ α δ → Network σ α δ → Prop
  | act {event : ε} {t : σ} {out : List (Packet α δ)} (h : hosts.act s.hosts event = some (t, out)) :
      Does hosts s (.act event) { s with hosts := t, packets := s.packets + out }
  | deliver {input : μ} {packet : Packet α δ} {t : σ} {out : List (Packet α δ)}
      (hp : packet ∈ s.packets) (h : hosts.receive s.hosts input packet = (t, out)) :
      Does hosts s (.deliver input packet)
        { s with hosts := t, packets := s.packets.erase packet + out }
  | lose {packet : Packet α δ} (hp : packet ∈ s.packets) :
      Does hosts s (.lose packet) { s with packets := s.packets.erase packet }
  | copy {packet : Packet α δ} (hp : packet ∈ s.packets) :
      Does hosts s (.copy packet)
        { s with packets := packet ::ₘ s.packets, copied := packet ::ₘ s.copied }

theorem does_of_step {hosts : Hosts σ ε μ α δ} {s t : Network σ α δ} {event : Event ε μ α δ}
    (h : step hosts s event = some t) : Does hosts s event t := by
  cases event with
  | act event =>
    obtain ⟨⟨u, out⟩, hu, rfl⟩ := Option.map_eq_some_iff.mp h
    exact .act hu
  | deliver input packet =>
    obtain ⟨hp, h⟩ := Option.ite_none_right_eq_some.mp h
    rw [← Option.some.inj h]
    exact .deliver hp rfl
  | lose packet =>
    obtain ⟨hp, h⟩ := Option.ite_none_right_eq_some.mp h
    rw [← Option.some.inj h]
    exact .lose hp
  | copy packet =>
    obtain ⟨hp, h⟩ := Option.ite_none_right_eq_some.mp h
    rw [← Option.some.inj h]
    exact .copy hp

/-- A packet is received as soon as it has been sent. -/
theorem step_deliver_sent {hosts : Hosts σ ε μ α δ} {u v : σ} {input : μ} {packet : Packet α δ}
    {out : List (Packet α δ)} (packets copied : Multiset (Packet α δ))
    (h : hosts.receive u input packet = (v, out)) :
    step hosts ⟨u, packets + ([packet] : List (Packet α δ)), copied⟩ (.deliver input packet) =
      some ⟨v, packets + out, copied⟩ := by
  have hmem : packet ∈ packets + ([packet] : List (Packet α δ)) :=
    Multiset.mem_add.mpr (.inr (Multiset.mem_singleton_self packet))
  have herase : (packets + ([packet] : List (Packet α δ))).erase packet = packets := by
    rw [Multiset.coe_singleton, add_comm, Multiset.singleton_add, Multiset.erase_cons_head]
  rw [step, if_pos hmem, h, herase]

end step

/-- A condition on what hosts do of their own accord. -/
def Allowed (C : σ → ε → Prop) (s : Network σ α δ) : Event ε μ α δ → Prop
  | .act event => C s.hosts event
  | _ => True

/-- An invariant of the hosts, and a condition all they send meets and goes on to meet. -/
structure Keeps (hosts : Hosts σ ε μ α δ) (C : σ → ε → Prop) (I : σ → Prop)
    (P : σ → Packet α δ → Prop) (G : σ → σ → Prop) : Prop where
  act : ∀ s event t out, I s → C s event → hosts.act s event = some (t, out) →
    I t ∧ G s t ∧ ∀ packet ∈ out, P t packet
  receive : ∀ s input packet t out, I s → P s packet →
    hosts.receive s input packet = (t, out) → I t ∧ G s t ∧ ∀ packet ∈ out, P t packet
  grows : ∀ s t packet, G s t → P s packet → P t packet

/-- Both hold of the hosts and of every packet. -/
structure Sound (I : σ → Prop) (P : σ → Packet α δ → Prop) (s : Network σ α δ) : Prop where
  hosts : I s.hosts
  packets : ∀ packet ∈ s.packets, P s.hosts packet
  copied : ∀ packet ∈ s.copied, P s.hosts packet

theorem sound_start {I : σ → Prop} {P : σ → Packet α δ → Prop} {s : σ} (h : I s) :
    Sound I P (start s : Network σ α δ) :=
  ⟨h, fun _ hp => absurd hp (Multiset.notMem_zero _), fun _ hp => absurd hp (Multiset.notMem_zero _)⟩

section keeps
variable [DecidableEq α] [DecidableEq δ] {hosts : Hosts σ ε μ α δ} {C : σ → ε → Prop} {I : σ → Prop}
  {P : σ → Packet α δ → Prop} {G : σ → σ → Prop} {s t : Network σ α δ} {event : Event ε μ α δ}

theorem Keeps.step (h : Keeps hosts C I P G) (hs : Sound I P s) (hc : Allowed C s event)
    (ht : Network.step hosts s event = some t) : Sound I P t := by
  obtain ⟨hi, hp, hcp⟩ := hs
  cases does_of_step ht with
  | act hact =>
    obtain ⟨hit, hg, hout⟩ := h.act _ _ _ _ hi hc hact
    refine ⟨hit, fun packet hm => ?_, fun packet hm => h.grows _ _ _ hg (hcp packet hm)⟩
    rcases Multiset.mem_add.mp hm with hm | hm
    · exact h.grows _ _ _ hg (hp packet hm)
    · exact hout packet (Multiset.mem_coe.mp hm)
  | deliver hmem hrec =>
    obtain ⟨hit, hg, hout⟩ := h.receive _ _ _ _ _ hi (hp _ hmem) hrec
    refine ⟨hit, fun packet hm => ?_, fun packet hm => h.grows _ _ _ hg (hcp packet hm)⟩
    rcases Multiset.mem_add.mp hm with hm | hm
    · exact h.grows _ _ _ hg (hp packet (Multiset.mem_of_mem_erase hm))
    · exact hout packet (Multiset.mem_coe.mp hm)
  | lose hmem => exact ⟨hi, fun packet hm => hp packet (Multiset.mem_of_mem_erase hm), hcp⟩
  | copy hmem =>
    have hall {packets : Multiset (Packet α δ)} (hall : ∀ packet ∈ packets, P s.hosts packet) :
        ∀ packet ∈ _ ::ₘ packets, P s.hosts packet :=
      Multiset.forall_mem_cons.mpr ⟨hp _ hmem, hall⟩
    exact ⟨hi, hall hp, hall hcp⟩

/-- What hosts keep to, all packets of every run keep to. -/
theorem Keeps.run (h : Keeps hosts C I P G) (hs : Sound I P s) {events : List (Event ε μ α δ)}
    (hc : (Network.step hosts).Throughout (Allowed C) s events)
    (ht : (Network.step hosts).run s events = some t) : Sound I P t :=
  Step.run_invariant_of (fun _ _ _ hs hc ht => h.step hs hc ht) hs hc ht

end keeps

section pays
variable {M : Type*} [AddCommMonoid M] [PartialOrder M] {hosts : Hosts σ ε μ α δ}
  {C : σ → ε → Prop} {I : σ → Prop} {P : σ → Packet α δ → Prop} {G : σ → σ → Prop}
  {worth : σ → Packet α δ → M} {held granted : σ → M}

/-- Nothing comes of nothing: what hosts hold and send is worth no more than what they held, were
sent, and were granted to act. -/
structure Pays (hosts : Hosts σ ε μ α δ) (C : σ → ε → Prop) (I : σ → Prop)
    (P : σ → Packet α δ → Prop) (G : σ → σ → Prop) (worth : σ → Packet α δ → M)
    (held granted : σ → M) : Prop extends Keeps hosts C I P G where
  pays_act : ∀ s event t out, I s → C s event → hosts.act s event = some (t, out) →
    ∃ grant, granted t = granted s + grant ∧ held t + (out.map (worth t)).sum ≤ held s + grant
  pays_receive : ∀ s input packet t out, I s → P s packet →
    hosts.receive s input packet = (t, out) →
    granted t = granted s ∧ held t + (out.map (worth t)).sum ≤ held s + worth s packet
  same : ∀ s t packet, I s → G s t → P s packet → worth t packet = worth s packet

/-- What is held and on its way, against what was granted or copied. -/
def Balanced (worth : σ → Packet α δ → M) (held granted : σ → M) (s : Network σ α δ) : Prop :=
  held s.hosts + (s.packets.map (worth s.hosts)).sum ≤
    granted s.hosts + (s.copied.map (worth s.hosts)).sum

theorem balanced_start {s : σ} (h : held s ≤ granted s) :
    Balanced worth held granted (start s : Network σ α δ) := by
  simpa [Balanced, start] using h

variable [IsOrderedAddMonoid M] [CanonicallyOrderedAdd M] [DecidableEq α] [DecidableEq δ]

theorem Pays.step (h : Pays hosts C I P G worth held granted) {s t : Network σ α δ}
    {event : Event ε μ α δ} (hs : Sound I P s) (hb : Balanced worth held granted s)
    (hc : Allowed C s event) (ht : Network.step hosts s event = some t) :
    Balanced worth held granted t := by
  obtain ⟨hi, hp, hcp⟩ := hs
  have hsame {u : σ} (hg : G s.hosts u) {packets : Multiset (Packet α δ)}
      (hall : ∀ packet ∈ packets, P s.hosts packet) :
      packets.map (worth u) = packets.map (worth s.hosts) :=
    Multiset.map_congr rfl fun packet hm => h.same _ _ _ hi hg (hall packet hm)
  have herase {packet : Packet α δ} (hm : packet ∈ s.packets) :
      (s.packets.map (worth s.hosts)).sum =
        worth s.hosts packet + ((s.packets.erase packet).map (worth s.hosts)).sum := by
    rw [← Multiset.sum_cons, ← Multiset.map_cons, Multiset.cons_erase hm]
  unfold Balanced at hb ⊢
  cases does_of_step ht with
  | @act _ u out hact =>
    obtain ⟨-, hg, -⟩ := h.act _ _ _ _ hi hc hact
    obtain ⟨grant, hgrant, hle⟩ := h.pays_act _ _ _ _ hi hc hact
    rw [hsame hg hcp, Multiset.map_add, hsame hg hp, Multiset.sum_add, hgrant, Multiset.map_coe,
      Multiset.sum_coe]
    calc held u + ((s.packets.map (worth s.hosts)).sum + (out.map (worth u)).sum)
        = (held u + (out.map (worth u)).sum) + (s.packets.map (worth s.hosts)).sum := by abel
      _ ≤ (held s.hosts + grant) + (s.packets.map (worth s.hosts)).sum := by gcongr
      _ = (held s.hosts + (s.packets.map (worth s.hosts)).sum) + grant := by abel
      _ ≤ (granted s.hosts + (s.copied.map (worth s.hosts)).sum) + grant := by gcongr
      _ = granted s.hosts + grant + (s.copied.map (worth s.hosts)).sum := by abel
  | @deliver input packet u out hmem hrec =>
    obtain ⟨-, hg, -⟩ := h.receive _ _ _ _ _ hi (hp _ hmem) hrec
    obtain ⟨hgrant, hle⟩ := h.pays_receive _ _ _ _ _ hi (hp _ hmem) hrec
    have hrest (packet' : Packet α δ) (hm : packet' ∈ s.packets.erase packet) : P s.hosts packet' :=
      hp packet' (Multiset.mem_of_mem_erase hm)
    rw [hsame hg hcp, Multiset.map_add, hsame hg hrest, Multiset.sum_add, hgrant, Multiset.map_coe,
      Multiset.sum_coe]
    refine le_trans ?_ hb
    rw [herase hmem]
    calc held u + (((s.packets.erase packet).map (worth s.hosts)).sum + (out.map (worth u)).sum)
        = (held u + (out.map (worth u)).sum) +
          ((s.packets.erase packet).map (worth s.hosts)).sum := by abel
      _ ≤ (held s.hosts + worth s.hosts packet) +
          ((s.packets.erase packet).map (worth s.hosts)).sum := by gcongr
      _ = held s.hosts + (worth s.hosts packet +
          ((s.packets.erase packet).map (worth s.hosts)).sum) := add_assoc ..
  | lose hmem =>
    refine le_trans ?_ hb
    rw [herase hmem]
    gcongr
    exact le_add_self
  | @copy packet hmem =>
    rw [Multiset.map_cons, Multiset.sum_cons, Multiset.map_cons, Multiset.sum_cons,
      add_left_comm (held _), add_left_comm (granted _)]
    gcongr

/-- In every run, what is held is worth no more than what was granted or copied, less what is on its
way. -/
theorem Pays.run (h : Pays hosts C I P G worth held granted) {s t : Network σ α δ}
    {events : List (Event ε μ α δ)} (hs : Sound I P s) (hb : Balanced worth held granted s)
    (hc : (Network.step hosts).Throughout (Allowed C) s events)
    (ht : (Network.step hosts).run s events = some t) : Balanced worth held granted t :=
  (Step.run_invariant_of (I := fun s => Sound I P s ∧ Balanced worth held granted s)
    (fun _ _ _ hs hc ht => ⟨h.toKeeps.step hs.1 hc ht, h.step hs.1 hs.2 hc ht⟩) ⟨hs, hb⟩ hc ht).2

end pays
end Network
end AeProxy.Lib

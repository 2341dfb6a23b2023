import Mathlib.Data.Finset.Lattice.Lemmas
import Mathlib.Logic.Function.Basic

/-! Memory whose cells are allocated and given back. Access to a cell that is not there is a fault,
and no address is used a second time, so that one that has been given back is known for good. -/
namespace AeProxy.Lib

/-- What the cells hold, and the address the next one gets. -/
structure Heap (ν : Type*) where
  read : Nat → Option ν
  next : Nat
  unused : ∀ a, next ≤ a → read a = none

namespace Heap
variable {ν : Type*}

def empty : Heap ν := ⟨fun _ => none, 0, fun _ _ => rfl⟩

def new (self : Heap ν) (v : ν) : Heap ν × Nat :=
  (⟨Function.update self.read self.next (some v), self.next + 1, fun a h => by
    rw [Function.update_of_ne (by omega), self.unused a (by omega)]⟩, self.next)

/-- What is put into a cell that is there. -/
def put (self : Heap ν) (a : Nat) (v : Option ν) : Option (Heap ν) :=
  if h : (self.read a).isSome then
    some ⟨Function.update self.read a v, self.next, fun b hb => by
      have hne : b ≠ a := by
        rintro rfl
        rw [self.unused b hb] at h
        cases h
      rw [Function.update_of_ne hne, self.unused b hb]⟩
  else none

def write (self : Heap ν) (a : Nat) (v : ν) : Option (Heap ν) := self.put a (some v)

def delete (self : Heap ν) (a : Nat) : Option (Heap ν) := self.put a none

variable {h h' h'' : Heap ν} {a : Nat} {v w : ν} {S S' S'' T : Finset Nat}

theorem lt_next (hr : h.read a = some v) : a < h.next := by
  by_contra hle
  cases (h.unused a (Nat.le_of_not_lt hle)).symm.trans hr

/-- Whatever happens to the cells of `S` leaves those of `S'`, with new ones only besides. -/
structure Moves (S S' : Finset Nat) (h h' : Heap ν) : Prop where
  next_le : h.next ≤ h'.next
  fresh : ∀ a ∈ S', a ∉ S → h.next ≤ a
  freed : ∀ a ∈ S, a ∉ S' → h'.read a = none
  others : ∀ a, a ∉ S → a ∉ S' → h'.read a = h.read a

theorem moves_new (h : Heap ν) (v : ν) : Moves ∅ {h.next} h (h.new v).1 where
  next_le := Nat.le_succ _
  fresh _ ha _ := Nat.le_of_eq (Finset.mem_singleton.mp ha).symm
  freed _ ha := absurd ha (Finset.notMem_empty _)
  others _ _ ha := Function.update_of_ne (fun he => ha (Finset.mem_singleton.mpr he)) ..

theorem read_new (h : Heap ν) (v : ν) : (h.new v).1.read h.next = some v := Function.update_self ..

theorem put_of_read (hr : h.read a = some v) (w : Option ν) :
    ∃ h', h.put a w = some h' ∧ h'.next = h.next ∧ h'.read = Function.update h.read a w :=
  ⟨_, dif_pos (hr ▸ rfl), rfl, rfl⟩

theorem write_of_read (hr : h.read a = some v) (w : ν) :
    ∃ h', h.write a w = some h' ∧ h'.read a = some w ∧ Moves {a} {a} h h' := by
  obtain ⟨h', hw, hn, hread⟩ := put_of_read hr (some w)
  refine ⟨h', hw, by rw [hread, Function.update_self], Nat.le_of_eq hn.symm, fun b hb hb' => absurd hb hb',
    fun b hb hb' => absurd hb hb', fun b hb _ => ?_⟩
  rw [hread, Function.update_of_ne (fun he => hb (Finset.mem_singleton.mpr he))]

theorem delete_of_read (hr : h.read a = some v) :
    ∃ h', h.delete a = some h' ∧ Moves {a} ∅ h h' := by
  obtain ⟨h', hd, hn, hread⟩ := put_of_read hr none
  refine ⟨h', hd, Nat.le_of_eq hn.symm, fun b hb => absurd hb (Finset.notMem_empty b),
    fun b hb _ => ?_, fun b hb _ => ?_⟩
  · rw [Finset.mem_singleton.mp hb, hread, Function.update_self]
  · rw [hread, Function.update_of_ne (fun he => hb (Finset.mem_singleton.mpr he))]

namespace Moves

theorem refl (S : Finset Nat) (h : Heap ν) : Moves S S h h :=
  ⟨Nat.le_refl _, fun _ ha ha' => absurd ha ha', fun _ ha ha' => absurd ha ha', fun _ _ _ => rfl⟩

theorem trans (hm : Moves S S' h h') (hm' : Moves S' S'' h' h'') : Moves S S'' h h'' where
  next_le := Nat.le_trans hm.next_le hm'.next_le
  fresh a ha hna := by
    by_cases ha' : a ∈ S'
    · exact hm.fresh a ha' hna
    · exact Nat.le_trans hm.next_le (hm'.fresh a ha ha')
  freed a ha hna := by
    by_cases ha' : a ∈ S'
    · exact hm'.freed a ha' hna
    · rw [hm'.others a ha' hna, hm.freed a ha ha']
  others a hna hna' := by
    by_cases ha' : a ∈ S'
    · rw [hm'.freed a ha' hna', h.unused a (hm.fresh a ha' hna)]
    · rw [hm'.others a ha' hna', hm.others a hna ha']

/-- Cells beside may stay as they are. -/
theorem frame (hm : Moves S S' h h') (T : Finset Nat) : Moves (T ∪ S) (T ∪ S') h h' where
  next_le := hm.next_le
  fresh a ha hna := by
    rw [Finset.mem_union, not_or] at hna
    exact hm.fresh a ((Finset.mem_union.mp ha).resolve_left hna.1) hna.2
  freed a ha hna := by
    rw [Finset.mem_union, not_or] at hna
    exact hm.freed a ((Finset.mem_union.mp ha).resolve_left hna.1) hna.2
  others a hna hna' := by
    rw [Finset.mem_union, not_or] at hna hna'
    exact hm.others a hna.2 hna'.2

/-- What has been given back stays away. -/
theorem read_none (hm : Moves S S' h h') (hr : h.read a = none) (hl : a < h.next) (ha : a ∉ S) :
    h'.read a = none :=
  (hm.others a ha fun ha' => Nat.not_le_of_lt hl (hm.fresh a ha' ha)).trans hr

/-- A cell that is there beside stays. -/
theorem read_eq (hm : Moves S S' h h') (hr : h.read a = some v) (ha : a ∉ S) :
    a ∉ S' ∧ h'.read a = some v := by
  have hna : a ∉ S' := fun ha' => Nat.not_le_of_lt (lt_next hr) (hm.fresh a ha' ha)
  exact ⟨hna, (hm.others a ha hna).trans hr⟩

end Moves

/-- These cells are there and no others, each counted once. -/
structure Exactly (h : Heap ν) (cells : Multiset Nat) : Prop where
  nodup : cells.Nodup
  live : ∀ a, a ∈ cells ↔ (h.read a).isSome

theorem exactly_empty : Exactly (empty : Heap ν) 0 where
  nodup := Multiset.nodup_zero
  live _ := iff_of_false (Multiset.notMem_zero _) nofun

theorem Exactly.new {cells : Multiset Nat} (hc : Exactly h cells) (v : ν) :
    Exactly (h.new v).1 (h.next ::ₘ cells) where
  nodup := by
    refine Multiset.nodup_cons.mpr ⟨fun hm => ?_, hc.nodup⟩
    rw [hc.live, h.unused _ (Nat.le_refl _)] at hm
    cases hm
  live a := by
    rw [Multiset.mem_cons]
    by_cases ha : a = h.next
    · rw [ha, read_new]
      exact iff_of_true (.inl rfl) rfl
    · rw [or_iff_right ha, hc.live, (moves_new h v).others a (Finset.notMem_empty a)
        (mt Finset.mem_singleton.mp ha)]

theorem Exactly.delete {cells : Multiset Nat} (hc : Exactly h (a ::ₘ cells)) :
    ∃ h', h.delete a = some h' ∧ Moves {a} ∅ h h' ∧ Exactly h' cells := by
  obtain ⟨hna, hnodup⟩ := Multiset.nodup_cons.mp hc.nodup
  obtain ⟨v, hv⟩ := Option.isSome_iff_exists.mp ((hc.live a).mp (Multiset.mem_cons_self a cells))
  obtain ⟨h', hd, hm⟩ := delete_of_read hv
  refine ⟨h', hd, hm, hnodup, fun b => ?_⟩
  by_cases hb : b = a
  · rw [hb, hm.freed a (Finset.mem_singleton_self a) (Finset.notMem_empty a)]
    exact iff_of_false hna nofun
  · rw [hm.others b (mt Finset.mem_singleton.mp hb) (Finset.notMem_empty b), ← hc.live,
      Multiset.mem_cons, or_iff_right hb]

/-- Cells given back one after the other. -/
theorem Exactly.deletes {as : List Nat} {cells : Multiset Nat} (hc : Exactly h (as + cells)) :
    ∃ h', as.foldlM Heap.delete h = some h' ∧ Moves as.toFinset ∅ h h' ∧ Exactly h' cells := by
  induction as generalizing h with
  | nil =>
    rw [Multiset.coe_nil, Multiset.zero_add] at hc
    exact ⟨h, rfl, Moves.refl ∅ h, hc⟩
  | cons a as ih =>
    rw [← Multiset.cons_coe, Multiset.cons_add] at hc
    obtain ⟨h', hd, hm, hc⟩ := hc.delete
    obtain ⟨h'', hds, hms, hc⟩ := ih hc
    refine ⟨h'', by rw [List.foldlM_cons, hd]; exact hds, ?_, hc⟩
    have hframe := hm.frame as.toFinset
    rw [Finset.union_empty] at hframe
    rw [List.toFinset_cons, Finset.insert_eq, Finset.union_comm]
    exact hframe.trans hms

end Heap
end AeProxy.Lib

import Mathlib.Algebra.Group.Nat.Defs
import Mathlib.Data.Finset.Basic
import AeProxy.Lib.Rotation

/-! `TimerWheel`: its operations, and the rotation they carry out once it has been started. -/
namespace AeProxy
open Lib

/-- The index, the timeout in seconds, whether `timer_` has been started, and the buckets. -/
structure TimerWheel (α : Type*) where
  index : UInt32
  timeoutSec : UInt32
  started : Bool
  wheel : List (Finset α)

namespace TimerWheel
variable {α : Type*}

def new (timeout : UInt32) : TimerWheel α := ⟨0, timeout, false, []⟩

def setTimeout (self : TimerWheel α) (seconds : UInt32) : TimerWheel α :=
  { self with timeoutSec := seconds }

/-- An `unsigned int` returned as an `int`. -/
def getTimeout (self : TimerWheel α) : Int := self.timeoutSec.toInt32.toInt

/-- `wheel_.resize(timeoutSec_)`, and the timer is started. -/
def start (self : TimerWheel α) : TimerWheel α :=
  if self.timeoutSec ≠ 0 then
    { self with started := true, wheel := self.wheel.takeD self.timeoutSec.toNat ∅ }
  else self

/-- Change `wheel_[index]`, if there is such a bucket. -/
def modifyAt (self : TimerWheel α) (index : UInt32) (f : Finset α → Finset α) :
    Option (TimerWheel α) :=
  if index.toNat < self.wheel.length then
    some { self with index := index, wheel := self.wheel.modify index.toNat f }
  else none

/-- `none` is an access outside the vector. -/
def insert [DecidableEq α] (self : TimerWheel α) (value : Option α) : Option (TimerWheel α) :=
  match value with
  | some value =>
    if self.timeoutSec > 0 then self.modifyAt self.index (Insert.insert value) else some self
  | none => some self

def wheelCallback (self : TimerWheel α) : Option (TimerWheel α) :=
  if self.timeoutSec = 0 then some self
  else
    let index := self.index + 1
    self.modifyAt (if index = self.timeoutSec then 0 else index) fun _ => ∅

/-- The values some bucket refers to. -/
def held [DecidableEq α] (self : TimerWheel α) : Finset α := self.wheel.foldr (· ∪ ·) ∅

/-- The conversion turns the upper half of the timeouts negative. -/
theorem getTimeout_pos_iff (self : TimerWheel α) :
    self.getTimeout > 0 ↔ 0 < self.timeoutSec.toNat ∧ self.timeoutSec.toNat < 2 ^ 31 := by
  have hi : self.getTimeout = self.timeoutSec.toBitVec.toInt := rfl
  have hn : self.timeoutSec.toBitVec.toNat = self.timeoutSec.toNat := rfl
  rw [hi, BitVec.toInt_eq_toNat_cond, hn]
  have hlt := self.timeoutSec.toNat_lt
  split <;> omega

/-- The buckets, with empty ones behind the last. -/
def bucket (self : TimerWheel α) (j : Nat) : Finset α := self.wheel.getD j ∅

theorem bucket_eq {self : TimerWheel α} {j : Nat} (hj : j < self.wheel.length) :
    self.bucket j = self.wheel[j] := by
  rw [bucket, List.getD_eq_getElem?_getD, List.getElem?_eq_getElem hj, Option.getD_some]

theorem mem_held_iff_exists [DecidableEq α] (self : TimerWheel α) (v : α) :
    v ∈ self.held ↔ ∃ b ∈ self.wheel, v ∈ b := by
  unfold held
  induction self.wheel with
  | nil => simp
  | cons b l ih => simp [ih]

theorem mem_held [DecidableEq α] (self : TimerWheel α) (v : α) :
    v ∈ self.held ↔ ∃ j < self.wheel.length, v ∈ self.bucket j := by
  rw [mem_held_iff_exists]
  constructor
  · rintro ⟨b, hb, hv⟩
    obtain ⟨j, hj, rfl⟩ := List.getElem_of_mem hb
    exact ⟨j, hj, by rwa [bucket_eq hj]⟩
  · rintro ⟨j, hj, hv⟩
    rw [bucket_eq hj] at hv
    exact ⟨_, List.getElem_mem hj, hv⟩

/-- An access within the vector changes that bucket only. -/
theorem modifyAt_of_lt {self : TimerWheel α} {index : UInt32} (f : Finset α → Finset α)
    (h : index.toNat < self.wheel.length) :
    ∃ w, self.modifyAt index f = some w ∧ w.index = index ∧ w.timeoutSec = self.timeoutSec ∧
      w.started = self.started ∧ w.wheel.length = self.wheel.length ∧
      w.bucket index.toNat = f (self.bucket index.toNat) ∧
      ∀ j ≠ index.toNat, w.bucket j = self.bucket j := by
  refine ⟨_, if_pos h, rfl, rfl, rfl, List.length_modify .., ?_, fun j hj => ?_⟩
  · simp [bucket, List.getD_eq_getElem?_getD, h]
  · simp [bucket, List.getD_eq_getElem?_getD, Ne.symm hj]

/-- What a bucket holds behind an access, and did not before, the access has put there. -/
theorem held_of_modifyAt [DecidableEq α] {self w : TimerWheel α} {index : UInt32}
    {f : Finset α → Finset α} {v : α} (hw : self.modifyAt index f = some w)
    (hf : ∀ b, v ∈ f b → v ∈ b) (hv : v ∈ w.held) : v ∈ self.held := by
  obtain ⟨hi, -⟩ := Option.ite_none_right_eq_some.mp hw
  obtain ⟨w', hw', -, -, -, hlen, hat, hrest⟩ := modifyAt_of_lt f hi
  obtain rfl := Option.some.inj (hw'.symm.trans hw)
  rw [mem_held, hlen] at hv
  obtain ⟨j, hj, hv⟩ := hv
  rw [mem_held]
  rcases eq_or_ne j index.toNat with rfl | hne
  · exact ⟨_, hj, hf _ (hat ▸ hv)⟩
  · exact ⟨j, hj, hrest j hne ▸ hv⟩

theorem held_of_insert [DecidableEq α] {self w : TimerWheel α} {value : Option α} {v : α}
    (hw : self.insert value = some w) (hv : v ∈ w.held) : v ∈ self.held ∨ value = some v := by
  unfold TimerWheel.insert at hw
  split at hw
  · next value =>
    split at hw
    · by_cases he : value = v
      · exact .inr (congrArg some he)
      · refine .inl (held_of_modifyAt hw (fun b hb => ?_) hv)
        exact (Finset.mem_insert.mp hb).resolve_left (Ne.symm he)
    · exact .inl (Option.some.inj hw ▸ hv)
  · exact .inl (Option.some.inj hw ▸ hv)

theorem held_of_wheelCallback [DecidableEq α] {self w : TimerWheel α} {v : α}
    (hw : self.wheelCallback = some w) (hv : v ∈ w.held) : v ∈ self.held := by
  unfold TimerWheel.wheelCallback at hw
  split at hw
  · exact Option.some.inj hw ▸ hv
  · exact held_of_modifyAt hw (fun b hb => absurd hb (Finset.notMem_empty v)) hv

theorem mem_takeD {l : List α} {n : Nat} {a b : α} (h : b ∈ l.takeD n a) : b ∈ l ∨ b = a := by
  induction n generalizing l with
  | zero => cases h
  | succ n ih =>
    cases l with
    | nil => exact .inr (List.eq_of_mem_replicate (List.takeD_nil (n + 1) a ▸ h))
    | cons c l =>
      rcases List.mem_cons.mp h with rfl | h
      · exact .inl List.mem_cons_self
      · exact (ih h).imp_left (List.mem_cons_of_mem c)

theorem held_of_start [DecidableEq α] {self : TimerWheel α} {v : α} (hv : v ∈ self.start.held) :
    v ∈ self.held := by
  unfold TimerWheel.start at hv
  split at hv
  · rw [mem_held_iff_exists] at hv ⊢
    obtain ⟨b, hb, hv⟩ := hv
    rcases mem_takeD hb with hb | rfl
    · exact ⟨b, hb, hv⟩
    · exact absurd hv (Finset.notMem_empty v)
  · exact hv

/-- A started wheel whose buckets are a rotation over its timeout. -/
structure Turning (w : TimerWheel α) (r : Recency α) : Prop where
  started : w.started = true
  length : w.wheel.length = w.timeoutSec.toNat
  rotating : Rotating w.timeoutSec.toNat w.index.toNat w.bucket r

theorem turning_start {T : UInt32} (hT : 1 ≤ T.toNat) :
    ((new 0 : TimerWheel α).setTimeout T).start.Turning fun _ => none := by
  have hne : T ≠ 0 := by
    rintro rfl
    exact absurd hT (by decide)
  have hs : ((new 0 : TimerWheel α).setTimeout T).start =
      ⟨0, T, true, [].takeD T.toNat ∅⟩ := by
    rw [start, setTimeout, if_pos hne]
    rfl
  rw [hs]
  refine ⟨rfl, by simp, Rotating.empty hT fun j hj => ?_⟩
  rw [bucket_eq (by simpa using hj)]
  simp

namespace Turning
variable {w : TimerWheel α} {r : Recency α}

theorem pos (h : w.Turning r) : 0 < w.timeoutSec.toNat :=
  Nat.zero_lt_of_lt h.rotating.index_lt

theorem mem_held_iff [DecidableEq α] (h : w.Turning r) (v : α) : v ∈ w.held ↔ r v ≠ none := by
  rw [mem_held, h.length]
  exact h.rotating.mem_iff v

theorem insert [DecidableEq α] (h : w.Turning r) (v : α) :
    ∃ w', w.insert (some v) = some w' ∧ w'.timeoutSec = w.timeoutSec ∧
      w'.Turning (r.touch v) := by
  have hi : w.index.toNat < w.wheel.length := h.length ▸ h.rotating.index_lt
  obtain ⟨w', hw, hidx, hT, hst, hlen, hcurr, hrest⟩ := modifyAt_of_lt (Insert.insert v) hi
  refine ⟨w', ?_, hT, hst.trans h.started, by rw [hlen, hT, h.length], ?_⟩
  · have hpos : w.timeoutSec > 0 := UInt32.lt_iff_toNat_lt.mpr h.pos
    rw [TimerWheel.insert, if_pos hpos, hw]
  · rw [hT, hidx]
    exact h.rotating.touch v hcurr hrest

/-- The increment does not wrap, and reaching the timeout is where the rotation closes. -/
theorem next_index (h : w.Turning r) :
    (if w.index + 1 = w.timeoutSec then 0 else w.index + 1).toNat =
      nextSlot w.timeoutSec.toNat w.index.toNat := by
  have hi := h.rotating.index_lt
  have hT := w.timeoutSec.toNat_lt
  have hadd : (w.index + 1).toNat = w.index.toNat + 1 := by
    rw [UInt32.toNat_add, UInt32.toNat_one, Nat.mod_eq_of_lt (by omega)]
  rw [nextSlot, ← hadd]
  simp only [UInt32.toNat_inj]
  split <;> rfl

theorem wheelCallback (h : w.Turning r) :
    ∃ w', w.wheelCallback = some w' ∧ w'.timeoutSec = w.timeoutSec ∧
      w'.Turning (r.tick w.timeoutSec.toNat) := by
  have hne : w.timeoutSec ≠ 0 := by
    intro he
    have hp := h.pos
    rw [he] at hp
    exact absurd hp (by decide)
  have hnext := h.next_index
  have hi : (if w.index + 1 = w.timeoutSec then 0 else w.index + 1).toNat < w.wheel.length := by
    rw [hnext, h.length]
    exact nextSlot_lt h.rotating.index_lt
  obtain ⟨w', hw, hidx, hT, hst, hlen, hcurr, hrest⟩ := modifyAt_of_lt (fun _ => ∅) hi
  refine ⟨w', ?_, hT, hst.trans h.started, by rw [hlen, hT, h.length], ?_⟩
  · rw [TimerWheel.wheelCallback, if_neg hne, hw]
  · rw [hT, hidx, hnext]
    rw [hnext] at hcurr hrest
    exact h.rotating.tick hcurr hrest

end Turning
end TimerWheel
end AeProxy

import AeProxy.Packet.Frame

/-! `Packet::pack_num` and `Packet::unpack_num` are inverse to each other at every width, in either
byte order and at any place of a string. -/
namespace AeProxy.Packet
open Lib

/-- The bytes `pack_num` leaves in a string of its own width. -/
def numBytes (mode : DataMode) (w : Nat) (num : BitVec (8 * w)) : List UInt8 :=
  packNum mode w (List.replicate w 0) 0 num

/-- Each index of the window is assigned once, and no other is. -/
theorem packOrder_perm (mode : DataMode) (off w : Nat) :
    (packOrder mode off w).Perm (List.range' off w) := by
  cases mode with
  | bigEndian => exact List.reverse_perm _
  | littleEndian => exact List.Perm.refl _

private theorem exists_window {data : List UInt8} {off w : Nat} (h : off + w ≤ data.length) :
    ∃ pre mid post, data = pre ++ mid ++ post ∧ pre.length = off ∧ mid.length = w := by
  refine ⟨data.take off, (data.drop off).take w, data.drop (off + w), ?_, ?_, ?_⟩
  · rw [← List.drop_drop, List.append_assoc, List.take_append_drop, List.take_append_drop]
  · exact List.length_take_of_le (by omega)
  · exact List.length_take_of_le (by rw [List.length_drop]; omega)

private theorem copyTo_window (pre mid post b : List UInt8) (h : b.length = mid.length) :
    copyTo (pre ++ mid ++ post) pre.length b = pre ++ b ++ post := by
  have hdrop : (pre ++ mid ++ post).drop (pre.length + b.length) = post :=
    List.drop_left' (by rw [List.length_append, h])
  rw [copyTo, hdrop, List.append_assoc pre mid post, List.take_left]

theorem numBytes_eq (mode : DataMode) (w : Nat) (num : BitVec (8 * w)) :
    numBytes mode w num = wire mode (toBytes w num.toNat) := by
  have h := packNum_eq mode w [] (List.replicate w 0) [] num List.length_replicate
  simpa [numBytes] using h

@[simp] theorem numBytes_length (mode : DataMode) (w : Nat) (num : BitVec (8 * w)) :
    (numBytes mode w num).length = w := by
  rw [numBytes_eq, wire_length, toBytes_length]

theorem numBytes_bigEndian (w : Nat) (num : BitVec (8 * w)) :
    numBytes .bigEndian w num = (numBytes .littleEndian w num).reverse := by
  rw [numBytes_eq, numBytes_eq, wire, wire]

/-- `pack_num` into a longer string is a copy of the number's bytes. -/
theorem packNum_copyTo (mode : DataMode) {w off : Nat} {data : List UInt8}
    (h : off + w ≤ data.length) (num : BitVec (8 * w)) :
    packNum mode w data off num = copyTo data off (numBytes mode w num) := by
  obtain ⟨pre, mid, post, rfl, rfl, hmid⟩ := exists_window h
  rw [copyTo_window pre mid post _ (by rw [numBytes_length, hmid]), numBytes_eq,
    packNum_eq mode w pre mid post num hmid]

/-- The bytes of a number read as that number, whatever stands around them. -/
theorem unpackNum_numBytes (mode : DataMode) (w : Nat) (pre post : List UInt8)
    (num : BitVec (8 * w)) :
    unpackNum mode w (pre ++ numBytes mode w num ++ post) pre.length = num := by
  have hlt : num.toNat < 256 ^ w := by
    have h := num.isLt
    rwa [Nat.pow_mul] at h
  apply BitVec.eq_of_toNat_eq
  rw [unpackNum_toNat mode w pre _ post (numBytes_length mode w num), numBytes_eq, wireValue_wire,
    Nat.mod_eq_of_lt hlt]

/-- Any bytes of the width are those of the number they read as. -/
theorem numBytes_unpackNum (mode : DataMode) {w : Nat} (pre post : List UInt8) {b : List UInt8}
    (h : b.length = w) :
    numBytes mode w (unpackNum mode w (pre ++ b ++ post) pre.length) = b := by
  have hb := toBytes_ofBytes (wire mode b)
  rw [wire_length, h, ← wireValue] at hb
  rw [numBytes_eq, unpackNum_toNat mode w pre b post h, hb, wire_wire]

/-- For numbers of any width: what is packed unpacks to itself, bytes that were unpacked pack to
themselves, exactly the window is written, and the two orders are each other's reverse. -/
theorem packing_inverse (w : Nat) :
    (∀ (mode : DataMode) (num : BitVec (8 * w)) (data : List UInt8) (off : Nat),
      off + w ≤ data.length → unpackNum mode w (packNum mode w data off num) off = num) ∧
    (∀ (mode : DataMode) (b pre post data : List UInt8) (off : Nat),
      b.length = w → off + w ≤ data.length →
        packNum mode w data off (unpackNum mode w (pre ++ b ++ post) pre.length) =
          copyTo data off b) ∧
    (∀ (mode : DataMode) (num : BitVec (8 * w)), (numBytes mode w num).length = w ∧
      (∀ off, (packOrder mode off w).Perm (List.range' off w)) ∧
      ∀ (data : List UInt8) (off : Nat), off + w ≤ data.length →
        packNum mode w data off num = copyTo data off (numBytes mode w num)) ∧
    ∀ num : BitVec (8 * w),
      numBytes .bigEndian w num = (numBytes .littleEndian w num).reverse := by
  refine ⟨fun mode num data off h => ?_, fun mode b pre post data off hb h => ?_,
    fun mode num => ⟨numBytes_length mode w num, fun off => packOrder_perm mode off w,
      fun data off h => packNum_copyTo mode h num⟩, numBytes_bigEndian w⟩
  · rw [packNum_copyTo mode h]
    obtain ⟨pre, mid, post, rfl, rfl, hmid⟩ := exists_window h
    rw [copyTo_window pre mid post _ (by rw [numBytes_length, hmid])]
    exact unpackNum_numBytes mode w pre post num
  · rw [packNum_copyTo mode h, numBytes_unpackNum mode pre post hb]

/-- The size field of a frame, with the head and the end byte around it. -/
theorem packing_inverse_size :
    unpackNum .bigEndian 2 (packNum .bigEndian 2 [0x7e, 0, 0, 0xe7] 1 0x1234) 1 = 0x1234 ∧
    packNum .littleEndian 2 [0x7e, 0, 0, 0xe7] 1 (unpackNum .littleEndian 2 [0x34, 0x12] 0) =
      [0x7e, 0x34, 0x12, 0xe7] ∧
    packNum .bigEndian 2 [0x7e, 0, 0, 0xe7] 1 0x1234 = [0x7e, 0x12, 0x34, 0xe7] := by
  obtain ⟨hunpack, hpack, hwritten, -⟩ := packing_inverse 2
  refine ⟨hunpack .bigEndian 0x1234 [0x7e, 0, 0, 0xe7] 1 (by decide), ?_, ?_⟩
  · exact hpack .littleEndian [0x34, 0x12] [] [] [0x7e, 0, 0, 0xe7] 1 rfl (by decide)
  · exact (hwritten .bigEndian 0x1234).2.2 [0x7e, 0, 0, 0xe7] 1 (by decide)

end AeProxy.Packet

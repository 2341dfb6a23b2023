import AeProxy.Lib.Bytes

/-! `Packet::pack_num` and `Packet::unpack_num`: a number of `w` bytes in either byte order,
written to and read from a string at an offset. -/
namespace AeProxy.Packet
open Lib

/-- `Packet::DataMode`. -/
inductive DataMode where
  | bigEndian
  | littleEndian
  deriving DecidableEq, Repr

/-- The indices in the order the loop of `pack_num` visits them. -/
def packOrder (mode : DataMode) (off w : Nat) : List Nat :=
  match mode with
  | .bigEndian => (List.range' off w).reverse
  | .littleEndian => List.range' off w

/-- The indices in the order the loop of `unpack_num` visits them. -/
def unpackOrder (mode : DataMode) (off w : Nat) : List Nat :=
  match mode with
  | .bigEndian => List.range' off w
  | .littleEndian => (List.range' off w).reverse

/-- `data[i] = num & 0xff; num >>= 8` at each index in turn. -/
def packLoop {n : Nat} : List Nat → List UInt8 → BitVec n → List UInt8
  | [], data, _ => data
  | i :: is, data, num => packLoop is (data.set i (UInt8.ofNat (num &&& 0xff).toNat)) (num >>> 8)

/-- `num <<= 8; num |= byte`. -/
def pushByte {n : Nat} (num : BitVec n) (byte : UInt8) : BitVec n :=
  num <<< 8 ||| BitVec.ofNat n byte.toNat

/-- Push `data[i]` at each index in turn. -/
def unpackLoop {n : Nat} : List Nat → List UInt8 → BitVec n → BitVec n
  | [], _, num => num
  | i :: is, data, num => unpackLoop is data (pushByte num (data.getD i 0))

/-- `Packet::pack_num(&data[off], num)`. -/
def packNum (mode : DataMode) (w : Nat) (data : List UInt8) (off : Nat) (num : BitVec (8 * w)) :
    List UInt8 :=
  packLoop (packOrder mode off w) data num

/-- `Packet::unpack_num(&data[off], num)`. -/
def unpackNum (mode : DataMode) (w : Nat) (data : List UInt8) (off : Nat) : BitVec (8 * w) :=
  unpackLoop (unpackOrder mode off w) data 0

/-- Bytes given least significant first, in the order the mode puts them on the wire. -/
def wire (mode : DataMode) (bs : List UInt8) : List UInt8 :=
  match mode with
  | .bigEndian => bs.reverse
  | .littleEndian => bs

@[simp] theorem wire_length (mode : DataMode) (bs : List UInt8) : (wire mode bs).length = bs.length := by
  cases mode <;> simp [wire]

@[simp] theorem wire_wire (mode : DataMode) (bs : List UInt8) : wire mode (wire mode bs) = bs := by
  cases mode <;> simp [wire]

/-- The number that wire bytes stand for. -/
def wireValue (mode : DataMode) (bs : List UInt8) : Nat := ofBytes (wire mode bs)

theorem wireValue_wire (mode : DataMode) (w x : Nat) :
    wireValue mode (wire mode (toBytes w x)) = x % 256 ^ w := by
  rw [wireValue, wire_wire, ofBytes_toBytes]

theorem wireValue_lt (mode : DataMode) (bs : List UInt8) : wireValue mode bs < 256 ^ bs.length := by
  simpa [wireValue] using ofBytes_lt (wire mode bs)

/-! Packing: each loop fills the window of the string it visits. -/

private theorem low_byte {n : Nat} (num : BitVec n) :
    UInt8.ofNat (num &&& 0xff).toNat = UInt8.ofNat num.toNat := by
  apply UInt8.toNat_inj.mp
  simp only [UInt8.toNat_ofNat', BitVec.toNat_and]
  apply Nat.eq_of_testBit_eq
  intro i
  rw [show (2 : Nat) ^ 8 = 2 ^ 8 from rfl, Nat.testBit_mod_two_pow, Nat.testBit_mod_two_pow]
  by_cases hi : i < 8
  · by_cases hn : i < n
    · have h8 : Nat.testBit 255 i = true := by
        rw [show 255 = 2 ^ 8 - 1 from rfl, Nat.testBit_two_pow_sub_one]
        simpa using hi
      simp [hi, hn, Nat.testBit_mod_two_pow, h8]
    · have hz : Nat.testBit num.toNat i = false :=
        Nat.testBit_lt_two_pow (Nat.lt_of_lt_of_le num.isLt (Nat.pow_le_pow_right (by omega) (by omega)))
      simp [hz]
  · simp [hi]

private theorem packLoop_up {n : Nat} (w : Nat) (pre mid post : List UInt8) (num : BitVec n)
    (h : mid.length = w) :
    packLoop (List.range' pre.length w) (pre ++ mid ++ post) num =
      pre ++ toBytes w num.toNat ++ post := by
  induction w generalizing pre mid num with
  | zero =>
    obtain rfl := List.eq_nil_of_length_eq_zero h
    rfl
  | succ w ih =>
    obtain ⟨m, mid, rfl⟩ := List.exists_cons_of_length_eq_add_one h
    have hi := ih (pre ++ [UInt8.ofNat num.toNat]) mid (num >>> 8) (by simpa using h)
    rw [List.range'_succ, packLoop, low_byte, toBytes]
    simpa [List.append_assoc, Nat.shiftRight_eq_div_pow] using hi

private theorem packLoop_down {n : Nat} (w : Nat) (pre mid post : List UInt8) (num : BitVec n)
    (h : mid.length = w) :
    packLoop (List.range' pre.length w).reverse (pre ++ mid ++ post) num =
      pre ++ (toBytes w num.toNat).reverse ++ post := by
  induction w generalizing mid post num with
  | zero =>
    obtain rfl := List.eq_nil_of_length_eq_zero h
    rfl
  | succ w ih =>
    obtain ⟨mid, m, rfl⟩ : ∃ l m, mid = l ++ [m] := by
      rcases List.eq_nil_or_concat mid with rfl | ⟨l, m, rfl⟩
      · simp at h
      · exact ⟨l, m, by simp⟩
    have hw : mid.length = w := by simpa using h
    have hi := ih mid (UInt8.ofNat num.toNat :: post) (num >>> 8) hw
    rw [List.range'_concat, List.reverse_append, List.reverse_singleton, List.singleton_append,
      packLoop, low_byte, toBytes]
    have hs : (pre ++ (mid ++ [m]) ++ post).set (pre.length + 1 * w) (UInt8.ofNat num.toNat) =
        pre ++ mid ++ UInt8.ofNat num.toNat :: post := by
      simp [← hw]
    rw [hs]
    simpa [List.append_assoc, Nat.shiftRight_eq_div_pow] using hi

/-- `pack_num` writes the number's bytes in wire order and touches nothing else. -/
theorem packNum_eq (mode : DataMode) (w : Nat) (pre mid post : List UInt8) (num : BitVec (8 * w))
    (h : mid.length = w) :
    packNum mode w (pre ++ mid ++ post) pre.length num =
      pre ++ wire mode (toBytes w num.toNat) ++ post := by
  cases mode with
  | bigEndian => exact packLoop_down w pre mid post num h
  | littleEndian => exact packLoop_up w pre mid post num h

/-! Unpacking: the loop folds the bytes it visits, most significant first. -/

private theorem unpackLoop_map {n : Nat} (is : List Nat) (data : List UInt8) (num : BitVec n) :
    unpackLoop is data num = (is.map (data.getD · 0)).foldl pushByte num := by
  induction is generalizing num with
  | nil => rfl
  | cons i is ih => rw [unpackLoop, ih]; rfl

private theorem pushByte_ofNat (n x : Nat) (b : UInt8) :
    pushByte (BitVec.ofNat n x) b = BitVec.ofNat n (b.toNat + 256 * x) := by
  have hadd : b.toNat + 256 * x = x <<< 8 ||| b.toNat := by
    rw [← Nat.shiftLeft_add_eq_or_of_lt b.toNat_lt, Nat.shiftLeft_eq]
    omega
  apply BitVec.eq_of_getLsbD_eq
  intro i hi
  simp only [pushByte, hadd, BitVec.getLsbD_or, BitVec.getLsbD_shiftLeft, BitVec.getLsbD_ofNat,
    Nat.testBit_or, Nat.testBit_shiftLeft, hi, show i - 8 < n by omega, decide_true, Bool.true_and]
  by_cases h8 : i < 8
  · simp [h8, show ¬ 8 ≤ i by omega]
  · simp [h8, show 8 ≤ i by omega]

private theorem foldl_pushByte (n : Nat) (bs : List UInt8) :
    bs.reverse.foldl pushByte 0 = BitVec.ofNat n (ofBytes bs) := by
  induction bs with
  | nil => rfl
  | cons b bs ih =>
    rw [List.reverse_cons, List.foldl_append, ih, ofBytes, ← pushByte_ofNat]
    rfl

private theorem map_getD (pre mid post : List UInt8) :
    (List.range' pre.length mid.length).map ((pre ++ mid ++ post).getD · 0) = mid := by
  apply List.ext_getElem
  · simp
  · intro i hi _
    have hm : i < mid.length := by simpa using hi
    simp [List.getD_eq_getElem?_getD, List.getElem?_append_right, List.getElem?_append_left, hm]

/-- `unpack_num` reads the value of the bytes in its window, reduced to the width. -/
theorem unpackNum_eq (mode : DataMode) (w : Nat) (pre mid post : List UInt8) (h : mid.length = w) :
    unpackNum mode w (pre ++ mid ++ post) pre.length = BitVec.ofNat (8 * w) (wireValue mode mid) := by
  subst h
  rw [unpackNum, unpackLoop_map]
  cases mode with
  | bigEndian =>
    have hf := foldl_pushByte (8 * mid.length) mid.reverse
    rw [List.reverse_reverse] at hf
    rwa [unpackOrder, map_getD]
  | littleEndian =>
    rw [unpackOrder, List.map_reverse, map_getD]
    exact foldl_pushByte _ mid

/-- Exactly the window's bytes fit the width, so nothing is lost. -/
theorem unpackNum_toNat (mode : DataMode) (w : Nat) (pre mid post : List UInt8)
    (h : mid.length = w) :
    (unpackNum mode w (pre ++ mid ++ post) pre.length).toNat = wireValue mode mid := by
  have hlt := wireValue_lt mode mid
  rw [h, show (256 : Nat) = 2 ^ 8 from rfl, ← Nat.pow_mul] at hlt
  rw [unpackNum_eq mode w pre mid post h, BitVec.toNat_ofNat, Nat.mod_eq_of_lt hlt]

end AeProxy.Packet

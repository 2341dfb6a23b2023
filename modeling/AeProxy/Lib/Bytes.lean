import Mathlib.Algebra.Group.Nat.Defs
import Mathlib.Data.Nat.Basic

/-! Fixed-width numbers as bytes, least significant byte first. -/
namespace AeProxy.Lib

def toBytes : Nat → Nat → List UInt8
  | 0, _ => []
  | w+1, x => UInt8.ofNat x :: toBytes w (x / 256)

def ofBytes : List UInt8 → Nat
  | [] => 0
  | b :: bs => b.toNat + 256 * ofBytes bs

@[simp] theorem toBytes_length (w x : Nat) : (toBytes w x).length = w := by
  induction w generalizing x with
  | zero => rfl
  | succ w ih => simp [toBytes, ih]

theorem ofBytes_lt (bs : List UInt8) : ofBytes bs < 256 ^ bs.length := by
  induction bs with
  | nil => simp [ofBytes]
  | cons b bs ih =>
    have hb := b.toNat_lt
    rw [ofBytes, List.length_cons, Nat.pow_succ]
    omega

theorem ofBytes_concat (bs : List UInt8) (b : UInt8) :
    ofBytes (bs ++ [b]) = ofBytes bs + 256 ^ bs.length * b.toNat := by
  induction bs with
  | nil => simp [ofBytes]
  | cons a bs ih =>
    rw [List.cons_append, ofBytes, ofBytes, ih, List.length_cons, Nat.pow_succ', Nat.mul_add,
      Nat.add_assoc, Nat.mul_assoc]

theorem ofBytes_toBytes (w x : Nat) : ofBytes (toBytes w x) = x % 256 ^ w := by
  induction w generalizing x with
  | zero => simp [toBytes, ofBytes, Nat.mod_one]
  | succ w ih =>
    have hb : (UInt8.ofNat x).toNat = x % 256 := by simp
    rw [toBytes, ofBytes, ih, hb, Nat.pow_succ', Nat.mod_mul]

theorem toBytes_ofBytes (bs : List UInt8) : toBytes bs.length (ofBytes bs) = bs := by
  induction bs with
  | nil => rfl
  | cons b bs ih =>
    have hb := b.toNat_lt
    have hlow : UInt8.ofNat (b.toNat + 256 * ofBytes bs) = b := by
      apply UInt8.toNat_inj.mp
      rw [UInt8.toNat_ofNat']
      omega
    have hhigh : (b.toNat + 256 * ofBytes bs) / 256 = ofBytes bs := by omega
    rw [List.length_cons, ofBytes, toBytes, hlow, hhigh, ih]

end AeProxy.Lib

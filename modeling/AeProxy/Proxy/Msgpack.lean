import AeProxy.Lib.Incremental
import AeProxy.Lib.Text

/-! What the proxies use of msgpack: objects with a type and a union, read one after the other off
a buffer, and the packing of integers and strings. -/
namespace AeProxy.Proxy
open Lib

/-- Containers by their size only, floating point by its bits. -/
inductive Object where
  | nil
  | boolean (boolean : Bool)
  | positiveInteger (u64 : UInt64)
  | negativeInteger (i64 : Int64)
  | float (f64 : UInt64)
  | str (bytes : Text)
  | bin (bytes : Text)
  | array (size : UInt32)
  | map (size : UInt32)
  | ext (type : Int8) (bytes : Text)
  deriving DecidableEq, Repr

namespace Object

/-- `via.i64`; `other` is what the union holds there for any other type. -/
def i64 (other : Int64) : Object → Int64
  | .positiveInteger u64 => u64.toInt64
  | .negativeInteger i64 => i64
  | _ => other

/-- `via.str`. -/
def strOr (other : Text) : Object → Text
  | .str bytes => bytes
  | _ => other

def integer? : Object → Option Int
  | .positiveInteger u64 => some u64.toNat
  | .negativeInteger i64 => some i64.toInt
  | _ => none

def str? : Object → Option Text
  | .str bytes => some bytes
  | _ => none

theorem i64_toInt32 {obj : Object} {n : Int} (h : obj.integer? = some n) (other : Int64) :
    (obj.i64 other).toInt32 = Int32.ofInt n := by
  cases obj with
  | positiveInteger u =>
    obtain rfl := Option.some.inj h
    have hu : u.toInt64 = Int64.ofNat u.toNat := by
      rw [← UInt64.toInt64_ofNat', UInt64.ofNat_toNat]
    rw [i64, hu, Int64.toInt32_ofNat', Int32.ofInt_eq_ofNat]
  | negativeInteger i =>
    obtain rfl := Option.some.inj h
    exact (Int32.ofInt_int64ToInt i).symm
  | _ => cases h

theorem i64_of_integer?_none {obj : Object} (h : obj.integer? = none) (other : Int64) :
    obj.i64 other = other := by
  cases obj with
  | positiveInteger u => cases h
  | negativeInteger i => cases h
  | _ => rfl

theorem str?_eq_some {obj : Object} {bytes : Text} : obj.str? = some bytes ↔ obj = .str bytes := by
  cases obj <;> simp [str?]

theorem strOr_of_str?_none {obj : Object} (h : obj.str? = none) (other : Text) :
    obj.strOr other = other := by
  cases obj with
  | str bytes => cases h
  | _ => rfl

end Object

/-- What a call finds in memory nobody wrote: the locals without initialiser, and the union of the
`i`-th object where it is read as another type. -/
structure Memory where
  command : Int32
  port : Int32
  i64 : Nat → Int64
  str : Nat → Text

/-- `msgpack_unpack_next`, the cause of a failure left out. -/
abbrev Unpacker := Reader UInt8 Object

/-- The objects of a buffer up to the first failure, as the loops of the proxies see them. -/
def Unpacker.objects (unpacker : Unpacker) (data : List UInt8) : List Object :=
  (unpacker.drain data).1

namespace Unpacker
variable {unpacker : Unpacker} {data rest : List UInt8}

theorem objects_cons {obj : Object} (h : unpacker.next data = (some obj, rest)) :
    unpacker.objects data = obj :: unpacker.objects rest := by
  rw [objects, unpacker.drain_some h]
  rfl

theorem objects_of_none (h : unpacker.next data = (none, rest)) : unpacker.objects data = [] := by
  rw [objects, unpacker.drain_none h]

theorem objects_nil : unpacker.objects [] = [] := objects_of_none unpacker.next_nil

/-- The call that gave the first object. -/
theorem next_of_objects {obj : Object} {objs : List Object}
    (h : unpacker.objects data = obj :: objs) :
    ∃ rest, unpacker.next data = (some obj, rest) ∧ unpacker.objects rest = objs := by
  match hn : unpacker.next data with
  | (none, rest) =>
    rw [objects_of_none hn] at h
    cases h
  | (some obj', rest) =>
    rw [objects_cons hn] at h
    obtain ⟨rfl, hr⟩ := List.cons.inj h
    exact ⟨rest, rfl, hr⟩

end Unpacker

/-- The loop of an `unpack`, which stores the `i`-th object by `assign`. -/
def unpackLoop {ρ : Type} (assign : Nat → Object → ρ → ρ) : Nat → ρ → List Object → ρ
  | _, locals, [] => locals
  | i, locals, obj :: objs => unpackLoop assign (i + 1) (assign i obj locals) objs

/-- What no later object is stored over is left as it is. -/
theorem unpackLoop_keeps {ρ γ : Type} {assign : Nat → Object → ρ → ρ} (get : ρ → γ) {k : Nat}
    (h : ∀ i, k ≤ i → ∀ obj locals, get (assign i obj locals) = get locals) {i : Nat} (hi : k ≤ i)
    (locals : ρ) (objs : List Object) : get (unpackLoop assign i locals objs) = get locals := by
  induction objs generalizing i locals with
  | nil => rfl
  | cons obj objs ih => rw [unpackLoop, ih (Nat.le_succ_of_le hi), h i hi]

/-- The packer against the unpacker. Both agree, and no encoding of an integer or a string is
shorter than the packed one; a packed integer in front of a string is not read from its second
byte on as the same integer of the same length. -/
structure Msgpack extends Reader UInt8 Object where
  packInt : Int32 → List UInt8
  packStr : Text → List UInt8
  next_packInt : ∀ i rest, ∃ obj, obj.integer? = some i.toInt ∧
    next (packInt i ++ rest) = (some obj, rest)
  next_packStr : ∀ s rest, s.length < 2 ^ 32 → next (packStr s ++ rest) = (some (.str s), rest)
  packInt_least : ∀ data obj n rest, next data = (some obj, rest) → obj.integer? = some n →
    (packInt (Int32.ofInt n)).length + rest.length ≤ data.length
  packStr_least : ∀ data s rest, next data = (some (.str s), rest) →
    (packStr s).length + rest.length ≤ data.length
  packStr_nil : (packStr []).length = 1
  packInt_tail : ∀ i s b tail data obj n rest, s.length < 2 ^ 32 →
    packInt i ++ (packStr s ++ tail) = b :: data → next data = (some obj, rest) →
    obj.integer? = some n → data.length = (packInt i).length + rest.length → Int32.ofInt n ≠ i

end AeProxy.Proxy

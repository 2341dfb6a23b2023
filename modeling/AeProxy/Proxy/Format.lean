import Mathlib.Algebra.Group.Int.Defs
import AeProxy.Proxy.Msgpack

/-! The msgpack format for nil, booleans, integers and strings; other formats are not read. -/
namespace AeProxy.Proxy.Format
open Lib

/-- A number of `w` bytes, the most significant one first. -/
def bigEndian (w x : Nat) : List UInt8 := (toBytes w x).reverse

def field (w : Nat) (data : List UInt8) : Option (Nat × List UInt8) :=
  if w ≤ data.length then some (ofBytes (data.take w).reverse, data.drop w) else none

/-- Only a value below zero is of the negative type. -/
def integer (n : Int) : Object :=
  if 0 ≤ n then .positiveInteger (UInt64.ofNat n.toNat) else .negativeInteger (Int64.ofInt n)

def unsigned (w : Nat) (data : List UInt8) : Option (Object × List UInt8) :=
  (field w data).map fun (x, rest) => (.positiveInteger (UInt64.ofNat x), rest)

def signed (w : Nat) (data : List UInt8) : Option (Object × List UInt8) :=
  (field w data).map fun (x, rest) => (integer ((x : Int).bmod (256 ^ w)), rest)

def body (n : Nat) (data : List UInt8) : Option (Object × List UInt8) :=
  if n ≤ data.length then some (.str (data.take n), data.drop n) else none

def str (w : Nat) (data : List UInt8) : Option (Object × List UInt8) :=
  (field w data).bind fun (n, rest) => body n rest

def unpackNext : List UInt8 → Option (Object × List UInt8)
  | [] => none
  | header :: data =>
    if header.toNat < 0x80 then some (integer header.toNat, data)
    else if 0xe0 ≤ header.toNat then some (integer (header.toNat - 0x100), data)
    else if 0xa0 ≤ header.toNat ∧ header.toNat < 0xc0 then body (header.toNat - 0xa0) data
    else match header.toNat with
      | 0xc0 => some (.nil, data)
      | 0xc2 => some (.boolean false, data)
      | 0xc3 => some (.boolean true, data)
      | 0xcc => unsigned 1 data
      | 0xcd => unsigned 2 data
      | 0xce => unsigned 4 data
      | 0xcf => unsigned 8 data
      | 0xd0 => signed 1 data
      | 0xd1 => signed 2 data
      | 0xd2 => signed 4 data
      | 0xd3 => signed 8 data
      | 0xd9 => str 1 data
      | 0xda => str 2 data
      | 0xdb => str 4 data
      | _ => none

/-- `msgpack_pack_int`. -/
def packInt (i : Int32) : List UInt8 :=
  let d := i.toInt
  let low (w : Nat) := (d % (256 ^ w : Nat)).toNat
  if d < -(2 ^ 5) then
    if d < -(2 ^ 15) then 0xd2 :: bigEndian 4 (low 4)
    else if d < -(2 ^ 7) then 0xd1 :: bigEndian 2 (low 2)
    else 0xd0 :: bigEndian 1 (low 1)
  else if d < 2 ^ 7 then bigEndian 1 (low 1)
  else if d < 2 ^ 8 then 0xcc :: bigEndian 1 (low 1)
  else if d < 2 ^ 16 then 0xcd :: bigEndian 2 (low 2)
  else 0xce :: bigEndian 4 (low 4)

/-- `msgpack_pack_str` and `msgpack_pack_str_body`. -/
def packStr (s : Text) : List UInt8 :=
  let l := s.length
  (if l < 32 then [UInt8.ofNat (0xa0 + l)]
  else if l < 256 then 0xd9 :: bigEndian 1 l
  else if l < 65536 then 0xda :: bigEndian 2 l
  else 0xdb :: bigEndian 4 l) ++ s

@[simp] theorem bigEndian_length (w x : Nat) : (bigEndian w x).length = w := by simp [bigEndian]

theorem field_bigEndian {w x : Nat} (h : x < 256 ^ w) (rest : List UInt8) :
    field w (bigEndian w x ++ rest) = some (x, rest) := by
  have hw : w ≤ (bigEndian w x ++ rest).length := by simp
  rw [field, if_pos hw, List.take_left' (bigEndian_length w x),
    List.drop_left' (bigEndian_length w x), bigEndian, List.reverse_reverse, ofBytes_toBytes,
    Nat.mod_eq_of_lt h]

theorem field_eq_some {w x : Nat} {data rest : List UInt8} (h : field w data = some (x, rest)) :
    ∃ head, data = head ++ rest ∧ head.length = w ∧ x = ofBytes head.reverse ∧ x < 256 ^ w := by
  obtain ⟨hw, he⟩ := Option.ite_none_right_eq_some.mp h
  cases he
  have hl : (data.take w).length = w := List.length_take_of_le hw
  refine ⟨data.take w, (List.take_append_drop w data).symm, hl, rfl, ?_⟩
  have hb := ofBytes_lt (data.take w).reverse
  rwa [List.length_reverse, hl] at hb

theorem integer?_integer {n : Int} (hl : -2 ^ 63 ≤ n) (hg : n < 2 ^ 63) :
    (integer n).integer? = some n := by
  rw [integer]
  split
  case isTrue h =>
    rw [Object.integer?, UInt64.toNat_ofNat_of_lt' (by simp; omega), Int.toNat_of_nonneg h]
  case isFalse => rw [Object.integer?, Int64.toInt_ofInt_of_le hl hg]

theorem body_append (s : Text) (rest : List UInt8) :
    body s.length (s ++ rest) = some (.str s, rest) := by
  rw [body, if_pos (by simp), List.take_left, List.drop_left]

theorem str_bigEndian {w : Nat} {s : Text} (h : s.length < 256 ^ w) (rest : List UInt8) :
    str w (bigEndian w s.length ++ (s ++ rest)) = some (.str s, rest) := by
  rw [str, field_bigEndian h]
  exact body_append s rest

theorem unpackNext_packStr {s : Text} (h : s.length < 2 ^ 32) (rest : List UInt8) :
    unpackNext (packStr s ++ rest) = some (.str s, rest) := by
  rw [packStr, List.append_assoc]
  split
  case isTrue hs =>
    have hh : (UInt8.ofNat (0xa0 + s.length)).toNat = 0xa0 + s.length := by
      rw [UInt8.toNat_ofNat']
      omega
    rw [List.singleton_append, unpackNext, hh, if_neg (by omega), if_neg (by omega),
      if_pos (by omega), Nat.add_sub_cancel_left, body_append]
  split
  case isTrue hs => exact str_bigEndian (w := 1) hs rest
  split
  case isTrue hs => exact str_bigEndian (w := 2) hs rest
  case isFalse => exact str_bigEndian (w := 4) h rest

theorem low_lt (w : Nat) (d : Int) : (d % (256 ^ w : Nat)).toNat < 256 ^ w := by
  have hp : 0 < 256 ^ w := Nat.pow_pos (by decide)
  have := Int.emod_lt_of_pos d (Int.natCast_pos.mpr hp)
  omega

theorem unsigned_bigEndian {w : Nat} {d : Int} (hl : 0 ≤ d) (hg : d < (256 ^ w : Nat))
    (rest : List UInt8) :
    unsigned w (bigEndian w (d % (256 ^ w : Nat)).toNat ++ rest) = some (integer d, rest) := by
  rw [unsigned, field_bigEndian (low_lt w d), Option.map_some, integer, if_pos hl,
    Int.emod_eq_of_lt hl hg]

theorem signed_bigEndian {w : Nat} {d : Int} (hl : -(256 ^ w : Nat) ≤ d * 2)
    (hg : d * 2 < (256 ^ w : Nat)) (rest : List UInt8) :
    signed w (bigEndian w (d % (256 ^ w : Nat)).toNat ++ rest) = some (integer d, rest) := by
  have hp : 0 < 256 ^ w := Nat.pow_pos (by decide)
  have hn := Int.toNat_of_nonneg (Int.emod_nonneg d (by omega : ((256 ^ w : Nat) : Int) ≠ 0))
  rw [signed, field_bigEndian (low_lt w d), Option.map_some]
  simp only [hn, Int.emod_bmod, Int.bmod_eq_of_le_mul_two hl hg]

theorem unpackNext_fixint {d : Int} (hl : -32 ≤ d) (hg : d < 128) (rest : List UInt8) :
    unpackNext (bigEndian 1 (d % (256 ^ 1 : Nat)).toNat ++ rest) = some (integer d, rest) := by
  have hb : bigEndian 1 (d % (256 ^ 1 : Nat)).toNat = [UInt8.ofNat (d % (256 ^ 1 : Nat)).toNat] := rfl
  have hh : (UInt8.ofNat (d % (256 ^ 1 : Nat)).toNat).toNat = (d % (256 ^ 1 : Nat)).toNat := by
    rw [UInt8.toNat_ofNat']
    omega
  rw [hb, List.singleton_append, unpackNext, hh]
  rcases Int.lt_or_le d 0 with hd | hd
  · have hn : (((d % (256 ^ 1 : Nat)).toNat : Nat) : Int) - 0x100 = d := by omega
    rw [if_neg (by omega), if_pos (by omega), hn]
  · have hn : (((d % (256 ^ 1 : Nat)).toNat : Nat) : Int) = d := by omega
    rw [if_pos (by omega), hn]

theorem unpackNext_packInt (i : Int32) (rest : List UInt8) :
    unpackNext (packInt i ++ rest) = some (integer i.toInt, rest) := by
  have hl := i.le_toInt
  have hg := i.toInt_lt
  unfold packInt
  dsimp only
  split
  case isTrue =>
    split
    case isTrue => exact signed_bigEndian (w := 4) (by omega) (by omega) rest
    split
    case isTrue => exact signed_bigEndian (w := 2) (by omega) (by omega) rest
    case isFalse => exact signed_bigEndian (w := 1) (by omega) (by omega) rest
  split
  case isTrue => exact unpackNext_fixint (by omega) (by omega) rest
  split
  case isTrue => exact unsigned_bigEndian (w := 1) (by omega) (by omega) rest
  split
  case isTrue => exact unsigned_bigEndian (w := 2) (by omega) (by omega) rest
  case isFalse => exact unsigned_bigEndian (w := 4) (by omega) (by omega) rest

/-- The length of an integer's packing, by its range. -/
theorem packInt_length_le {n : Int} {l : Nat} (h1 : 1 ≤ l) (h2 : 2 ≤ l ∨ -32 ≤ n ∧ n < 128)
    (h3 : 3 ≤ l ∨ -128 ≤ n ∧ n < 256) (h5 : 5 ≤ l ∨ -32768 ≤ n ∧ n < 65536) :
    (packInt (Int32.ofInt n)).length ≤ l := by
  have hn : 5 ≤ l ∨ (Int32.ofInt n).toInt = n := by
    refine h5.imp_right fun h => Int32.toInt_ofInt_of_le ?_ ?_
    · omega
    · omega
  unfold packInt
  dsimp only
  repeat' split
  all_goals
    simp only [List.length_cons, bigEndian_length]
    omega

theorem packStr_length_le {s : Text} {l : Nat} (h1 : s.length + 1 ≤ l)
    (h2 : s.length + 2 ≤ l ∨ s.length < 32) (h3 : s.length + 3 ≤ l ∨ s.length < 256)
    (h5 : s.length + 5 ≤ l ∨ s.length < 65536) : (packStr s).length ≤ l := by
  unfold packStr
  simp only [List.length_append]
  repeat' split
  all_goals
    simp only [List.length_cons, List.length_nil, bigEndian_length]
    omega

/-- What a call takes off the buffer behind a header. -/
inductive Call (header : UInt8) : List UInt8 → Object → List UInt8 → Prop
  | fixint {obj : Object} {n : Int} {rest : List UInt8} (hn : obj.integer? = some n) (hl : -32 ≤ n)
    (hg : n < 128) : Call header rest obj rest
  | number {bytes rest : List UInt8} {obj : Object} {n : Int}
    (header_le : 0xcc ≤ header.toNat ∧ header.toNat ≤ 0xd3)
    (width : bytes.length = 1 ∨ bytes.length = 2 ∨ bytes.length = 4 ∨ bytes.length = 8)
    (hn : obj.integer? = some n) (value : n % (256 ^ bytes.length : Nat) = ofBytes bytes.reverse)
    (hl : -(256 ^ bytes.length : Nat) ≤ n * 2) (hg : n < (256 ^ bytes.length : Nat)) :
    Call header (bytes ++ rest) obj rest
  | str {head s rest : List UInt8} (width : head = [] ∧ s.length < 32 ∨
      (head.length = 1 ∨ head.length = 2 ∨ head.length = 4) ∧ s.length < 256 ^ head.length) :
    Call header (head ++ (s ++ rest)) (.str s) rest
  | plain {obj : Object} {rest : List UInt8} (hi : obj.integer? = none) (hs : obj.str? = none) :
    Call header rest obj rest

section Call
variable {header : UInt8} {data rest : List UInt8} {obj : Object}

theorem call_of_unsigned {w : Nat} (hh : 0xcc ≤ header.toNat ∧ header.toNat ≤ 0xd3)
    (hw : w = 1 ∨ w = 2 ∨ w = 4 ∨ w = 8) (h : unsigned w data = some (obj, rest)) :
    Call header data obj rest := by
  obtain ⟨⟨x, rest'⟩, hf, he⟩ := Option.map_eq_some_iff.mp h
  obtain ⟨rfl, rfl⟩ := Prod.mk.inj he
  obtain ⟨head, rfl, rfl, hv, hx⟩ := field_eq_some hf
  have hu : x < UInt64.size := by
    apply Nat.lt_of_lt_of_le hx
    rcases hw with hw | hw | hw | hw <;> rw [hw] <;> decide
  have hn : (Object.positiveInteger (UInt64.ofNat x)).integer? = some (x : Int) := by
    rw [Object.integer?, UInt64.toNat_ofNat_of_lt' hu]
  apply Call.number hh hw hn
  · rw [← hv]
    exact Int.emod_eq_of_lt (Int.natCast_nonneg x) (Int.ofNat_lt.mpr hx)
  · omega
  · exact Int.ofNat_lt.mpr hx

theorem call_of_signed {w : Nat} (hh : 0xcc ≤ header.toNat ∧ header.toNat ≤ 0xd3)
    (hw : w = 1 ∨ w = 2 ∨ w = 4 ∨ w = 8) (h : signed w data = some (obj, rest)) :
    Call header data obj rest := by
  obtain ⟨⟨x, rest'⟩, hf, he⟩ := Option.map_eq_some_iff.mp h
  obtain ⟨rfl, rfl⟩ := Prod.mk.inj he
  obtain ⟨head, rfl, rfl, hv, hx⟩ := field_eq_some hf
  have hp : 0 < 256 ^ head.length := Nat.pow_pos (by decide)
  have hl := Int.le_bmod (x := (x : Int)) hp
  have hg := Int.bmod_lt (x := (x : Int)) hp
  have hn : (integer ((x : Int).bmod (256 ^ head.length))).integer? =
      some ((x : Int).bmod (256 ^ head.length)) := by
    apply integer?_integer
    all_goals rcases hw with hw | hw | hw | hw <;> rw [hw] at hl hg ⊢ <;> omega
  apply Call.number hh hw hn
  · rw [← hv, Int.bmod_emod]
    exact Int.emod_eq_of_lt (Int.natCast_nonneg x) (Int.ofNat_lt.mpr hx)
  · omega
  · omega

theorem body_eq_some {n : Nat} (h : body n data = some (obj, rest)) :
    ∃ s, data = s ++ rest ∧ s.length = n ∧ obj = .str s := by
  obtain ⟨hn, he⟩ := Option.ite_none_right_eq_some.mp h
  cases he
  exact ⟨data.take n, (List.take_append_drop n data).symm, List.length_take_of_le hn, rfl⟩

theorem call_of_str {w : Nat} (hw : w = 1 ∨ w = 2 ∨ w = 4) (h : str w data = some (obj, rest)) :
    Call header data obj rest := by
  obtain ⟨⟨n, rest'⟩, hf, hb⟩ := Option.bind_eq_some_iff.mp h
  obtain ⟨head, rfl, rfl, -, hx⟩ := field_eq_some hf
  obtain ⟨s, rfl, rfl, rfl⟩ := body_eq_some hb
  exact .str (.inr ⟨hw, hx⟩)

theorem call_of_unpackNext (h : unpackNext (header :: data) = some (obj, rest)) :
    Call header data obj rest := by
  have hh := header.toNat_lt
  rw [unpackNext] at h
  split at h
  case isTrue =>
    cases h
    exact .fixint (integer?_integer (by omega) (by omega)) (by omega) (by omega)
  split at h
  case isTrue =>
    cases h
    exact .fixint (integer?_integer (by omega) (by omega)) (by omega) (by omega)
  split at h
  case isTrue =>
    obtain ⟨s, rfl, hs, rfl⟩ := body_eq_some h
    have hc : Call header ([] ++ (s ++ rest)) (.str s) rest := .str (.inl ⟨rfl, by omega⟩)
    exact hc
  split at h
  case h_1 | h_2 | h_3 =>
    cases h
    exact .plain rfl rfl
  case h_4 | h_5 | h_6 | h_7 => exact call_of_unsigned (by omega) (by decide) h
  case h_8 | h_9 | h_10 | h_11 => exact call_of_signed (by omega) (by decide) h
  case h_12 | h_13 | h_14 => exact call_of_str (by decide) h
  case h_15 => cases h

theorem Call.suffix (h : Call header data obj rest) : rest <:+ data := by
  cases h with
  | fixint => exact List.suffix_refl _
  | plain => exact List.suffix_refl _
  | number => exact List.suffix_append _ _
  | str => exact (List.suffix_append _ _).trans (List.suffix_append _ _)

theorem Call.packInt_least {n : Int} (h : Call header data obj rest) (hn : obj.integer? = some n) :
    (packInt (Int32.ofInt n)).length + rest.length ≤ data.length + 1 := by
  cases h with
  | fixint hm hl hg =>
    obtain rfl := Option.some.inj (hm.symm.trans hn)
    have := packInt_length_le (Nat.le_refl 1) (.inr ⟨hl, hg⟩) (by omega) (by omega)
    omega
  | @number bytes _ _ m _ hw hm _ hl hg =>
    obtain rfl := Option.some.inj (hm.symm.trans hn)
    have : (packInt (Int32.ofInt m)).length ≤ bytes.length + 1 := by
      apply packInt_length_le
      all_goals rcases hw with hw | hw | hw | hw <;> rw [hw] at hl hg ⊢ <;> omega
    rw [List.length_append]
    omega
  | str => cases hn
  | plain hi => cases hi.symm.trans hn

theorem Call.packStr_least {s : Text} (h : Call header data (.str s) rest) :
    (packStr s).length + rest.length ≤ data.length + 1 := by
  cases h with
  | fixint hn => cases hn
  | number _ _ hn => cases hn
  | @str head _ _ hw =>
    have : (packStr s).length ≤ head.length + s.length + 1 := by
      rcases hw with ⟨rfl, hs⟩ | ⟨hw, hs⟩
      · exact packStr_length_le (by simp) (.inr hs) (.inr (by omega)) (.inr (by omega))
      · apply packStr_length_le
        all_goals rcases hw with hw | hw | hw <;> rw [hw] at hs ⊢ <;> omega
    rw [List.length_append, List.length_append]
    omega
  | plain _ hs => cases hs

/-- An integer of more than one byte lies behind its own header. -/
theorem Call.field {n : Int} (h : Call header data obj rest) (hn : obj.integer? = some n)
    (hl : rest.length < data.length) : 0xcc ≤ header.toNat ∧ header.toNat ≤ 0xd3 ∧
      ∃ bytes, data = bytes ++ rest ∧ n % (256 ^ bytes.length : Nat) = ofBytes bytes.reverse := by
  cases h with
  | fixint => exact absurd hl (Nat.lt_irrefl _)
  | @number bytes _ _ m hh _ hm hv _ _ =>
    obtain rfl := Option.some.inj (hm.symm.trans hn)
    exact ⟨hh.1, hh.2, bytes, rfl, hv⟩
  | str => cases hn
  | plain => exact absurd hl (Nat.lt_irrefl _)

end Call

theorem bigEndian_succ {w x : Nat} (h : x < 256 ^ (w + 1)) : ∃ b bytes,
    bigEndian (w + 1) x = b :: bytes ∧ bytes.length = w ∧
      x = ofBytes bytes.reverse + 256 ^ w * b.toNat := by
  have hl := bigEndian_length (w + 1) x
  obtain ⟨b, bytes, hb⟩ := List.exists_cons_of_length_pos (by rw [hl]; exact Nat.succ_pos w)
  rw [hb, List.length_cons] at hl
  have hx : ofBytes (bigEndian (w + 1) x).reverse = x := by
    rw [bigEndian, List.reverse_reverse, ofBytes_toBytes, Nat.mod_eq_of_lt h]
  rw [hb, List.reverse_cons, ofBytes_concat, List.length_reverse, Nat.succ.inj hl] at hx
  exact ⟨b, bytes, hb, Nat.succ.inj hl, hx.symm⟩

/-- A packed integer is one byte, or a header and a field that holds its low bytes. -/
theorem packInt_shape (i : Int32) : (∃ b, packInt i = [b]) ∨ ∃ header b bytes,
    packInt i = header :: b :: bytes ∧
      (bytes.length = 0 ∨ bytes.length = 1 ∨ bytes.length = 3) ∧
      (i.toInt % (256 ^ (bytes.length + 1) : Nat)).toNat =
        ofBytes bytes.reverse + 256 ^ bytes.length * b.toNat := by
  have wide (header : UInt8) {w : Nat} (hw : w = 0 ∨ w = 1 ∨ w = 3) : ∃ header' b bytes,
      header :: bigEndian (w + 1) (i.toInt % (256 ^ (w + 1) : Nat)).toNat =
          header' :: b :: bytes ∧
        (bytes.length = 0 ∨ bytes.length = 1 ∨ bytes.length = 3) ∧
        (i.toInt % (256 ^ (bytes.length + 1) : Nat)).toNat =
          ofBytes bytes.reverse + 256 ^ bytes.length * b.toNat := by
    obtain ⟨b, bytes, hb, rfl, hv⟩ := bigEndian_succ (low_lt (w + 1) i.toInt)
    exact ⟨header, b, bytes, by rw [hb], hw, hv⟩
  unfold packInt
  dsimp only
  split
  case isTrue =>
    split
    case isTrue => exact .inr (wide 0xd2 (.inr (.inr rfl)))
    split
    case isTrue => exact .inr (wide 0xd1 (.inr (.inl rfl)))
    case isFalse => exact .inr (wide 0xd0 (.inl rfl))
  split
  case isTrue => exact .inl ⟨_, rfl⟩
  split
  case isTrue => exact .inr (wide 0xcc (.inl rfl))
  split
  case isTrue => exact .inr (wide 0xcd (.inr (.inl rfl)))
  case isFalse => exact .inr (wide 0xce (.inr (.inr rfl)))

theorem packStr_header (s : Text) : ∃ header bytes, packStr s = header :: bytes ∧
    0xa0 ≤ header.toNat ∧ (header.toNat < 0xc0 ∨ 0xd9 ≤ header.toNat ∧ header.toNat < 0xe0) := by
  unfold packStr
  dsimp only
  split
  case isTrue h =>
    refine ⟨_, s, rfl, ?_⟩
    rw [UInt8.toNat_ofNat']
    omega
  split
  case isTrue => exact ⟨0xd9, _, rfl, by decide⟩
  split
  case isTrue => exact ⟨0xda, _, rfl, by decide⟩
  case isFalse => exact ⟨0xdb, _, rfl, by decide⟩

/-- The powers of 256 are 1 modulo 255. -/
theorem moved_ne {w y x header : Nat} (hw : w = 0 ∨ w = 1 ∨ w = 3) (hlo : 0xcc ≤ x) (hhi : x ≤ 0xd3)
    (hh : 0xa0 ≤ header ∧ (header < 0xc0 ∨ 0xd9 ≤ header ∧ header < 0xe0)) :
    y + 256 ^ w * x ≠ header + 256 * y := by
  intro h
  obtain ⟨q, hq⟩ : ∃ q : Int, 255 * q = x - header := by
    rcases hw with rfl | rfl | rfl
    · exact ⟨y, by omega⟩
    · exact ⟨y - x, by omega⟩
    · exact ⟨y - 65793 * x, by omega⟩
  omega

/-- The field moved on by one byte ends in the header of the string. Were it the same number, all
its bytes were equal to that header, and the first of them is the header of an integer. -/
theorem packInt_tail {i : Int32} {s : Text} {b : UInt8} {tail data rest : List UInt8} {obj : Object}
    {n : Int} (hs : s.length < 2 ^ 32) (he : packInt i ++ (packStr s ++ tail) = b :: data)
    (h : unpackNext data = some (obj, rest)) (hn : obj.integer? = some n)
    (hl : data.length = (packInt i).length + rest.length) : Int32.ofInt n ≠ i := by
  rcases packInt_shape i with ⟨b', hp⟩ | ⟨header, x, bytes, hp, hw, hv⟩
  · rw [hp, List.singleton_append] at he
    obtain ⟨rfl, rfl⟩ := List.cons.inj he
    rw [unpackNext_packStr hs] at h
    cases h
    cases hn
  intro hi
  obtain ⟨hd, more, hst, hh⟩ := packStr_header s
  obtain rfl : data = x :: (bytes ++ [hd] ++ (more ++ tail)) := by
    rw [hp, hst] at he
    simpa using (List.cons.inj he).2.symm
  rw [hp, List.length_cons, List.length_cons, List.length_cons] at hl
  obtain ⟨hlo, hhi, moved, hm, hval⟩ := (call_of_unpackNext h).field hn (by omega)
  have hlen : (bytes ++ [hd]).length = moved.length := by
    rw [hm, List.length_append] at hl
    rw [List.length_append, List.length_singleton]
    omega
  obtain ⟨rfl, -⟩ := List.append_inj hm hlen
  rw [List.reverse_append, List.reverse_singleton, List.singleton_append, ofBytes,
    List.length_append, List.length_singleton] at hval
  have hmod : i.toInt % 4294967296 = n % 4294967296 := by
    rw [← hi, Int32.toInt_ofInt]
    exact Int.bmod_emod
  have hsame : i.toInt % (256 ^ (bytes.length + 1) : Nat) = n % (256 ^ (bytes.length + 1) : Nat) := by
    rcases hw with hw | hw | hw
    all_goals
      rw [hw]
      omega
  rw [hsame, hval, Int.toNat_natCast] at hv
  exact moved_ne hw hlo hhi hh hv.symm

def next (data : List UInt8) : Option Object × List UInt8 :=
  match unpackNext data with
  | some (obj, rest) => (some obj, rest)
  | none => (none, data)

theorem next_eq_some {data rest : List UInt8} {obj : Object} :
    next data = (some obj, rest) ↔ unpackNext data = some (obj, rest) := by
  rw [next]
  cases unpackNext data with
  | none => simp
  | some taken => simp [Prod.ext_iff]

theorem next_cons_eq_some {header : UInt8} {data rest : List UInt8} {obj : Object}
    (h : next (header :: data) = (some obj, rest)) : Call header data obj rest :=
  call_of_unpackNext (next_eq_some.mp h)

def msgpack : Msgpack where
  next := next
  suffix data := by
    rw [next]
    split
    case h_1 obj rest h =>
      cases data with
      | nil => cases h
      | cons header data => exact (call_of_unpackNext h).suffix.trans (List.suffix_cons header data)
    case h_2 => exact List.suffix_refl data
  shrinks data obj rest h := by
    cases data with
    | nil => cases h
    | cons header data => exact Nat.lt_succ_of_le (next_cons_eq_some h).suffix.length_le
  packInt := packInt
  packStr := packStr
  next_packInt i rest := by
    have hl := i.le_toInt
    have hg := i.toInt_lt
    exact ⟨integer i.toInt, integer?_integer (by omega) (by omega),
      next_eq_some.mpr (unpackNext_packInt i rest)⟩
  next_packStr s rest h := next_eq_some.mpr (unpackNext_packStr h rest)
  packInt_least data obj n rest h hn := by
    cases data with
    | nil => cases h
    | cons header data => exact (next_cons_eq_some h).packInt_least hn
  packStr_least data s rest h := by
    cases data with
    | nil => cases h
    | cons header data => exact (next_cons_eq_some h).packStr_least
  packStr_nil := rfl
  packInt_tail _ _ _ _ _ _ _ _ hs he h hn hl := packInt_tail hs he (next_eq_some.mp h) hn hl

end AeProxy.Proxy.Format

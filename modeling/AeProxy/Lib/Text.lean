import AeProxy.Lib.Bytes
import Mathlib.Data.List.TakeWhile

/-! Texts as bytes: C strings, decimal numbers, and cutting at a separator. -/
namespace AeProxy.Lib

abbrev Text := List UInt8

/-- The C string a text holds. -/
def cStr (s : Text) : Text := s.takeWhile (· != 0)

theorem cStr_eq_self {s : Text} : cStr s = s ↔ 0 ∉ s := by
  rw [cStr, List.takeWhile_eq_self_iff]
  constructor
  · intro h hz
    simpa using h 0 hz
  · intro h b hb
    exact bne_iff_ne.mpr fun hz => h (hz ▸ hb)

def decimal (n : Nat) : Text := (Nat.toDigits 10 n).map Char.toUInt8

def number (text : Text) : Nat := Nat.ofDigitChars 10 (text.map Char.ofUInt8) 0

def signed : Int → Text
  | .ofNat n => decimal n
  | .negSucc n => 45 :: decimal (n + 1)

private theorem digit_byte {c : Char} (h : c.isDigit) :
    Char.ofUInt8 c.toUInt8 = c ∧ 48 ≤ c.toUInt8.toNat ∧ c.toUInt8.toNat < 58 := by
  obtain ⟨hl, hr⟩ := Char.isDigit_iff_toNat.mp h
  change 48 ≤ c.val.toNat at hl
  change c.val.toNat ≤ 57 at hr
  have hb : c.toUInt8.toNat = c.val.toNat := by
    rw [← Char.toUInt8_val, UInt32.toNat_toUInt8]
    omega
  refine ⟨Char.ext (UInt32.toNat_inj.mp ?_), by omega, by omega⟩
  exact (UInt8.toNat_toUInt32 _).trans hb

private theorem isDigit_of_mem {c : Char} {n : Nat} (h : c ∈ Nat.toDigits 10 n) : c.isDigit :=
  Nat.isDigit_of_mem_toDigits (by decide) (by decide) h

theorem number_decimal (n : Nat) : number (decimal n) = n := by
  have hd : (decimal n).map Char.ofUInt8 = Nat.toDigits 10 n := by
    rw [decimal, List.map_map]
    calc
      _ = (Nat.toDigits 10 n).map id :=
        List.map_congr_left fun c hc => (digit_byte (isDigit_of_mem hc)).1
      _ = Nat.toDigits 10 n := List.map_id _
  rw [number, hd, Nat.ofDigitChars_ten_toDigits]

theorem decimal_injective : Function.Injective decimal :=
  Function.LeftInverse.injective number_decimal

theorem mem_decimal {b : UInt8} {n : Nat} (h : b ∈ decimal n) : 48 ≤ b.toNat ∧ b.toNat < 58 := by
  obtain ⟨c, hc, rfl⟩ := List.mem_map.mp h
  exact (digit_byte (isDigit_of_mem hc)).2

theorem mem_signed {b : UInt8} {i : Int} (h : b ∈ signed i) :
    b = 45 ∨ (48 ≤ b.toNat ∧ b.toNat < 58) := by
  cases i with
  | ofNat n => exact .inr (mem_decimal h)
  | negSucc n => exact (List.mem_cons.mp h).imp_right mem_decimal

theorem signed_injective : Function.Injective signed := by
  -- Only a negative number's text starts with the minus sign.
  have hm (m n : Nat) : decimal m ≠ 45 :: decimal n := by
    intro h
    have hb := mem_decimal (h ▸ List.mem_cons_self : (45 : UInt8) ∈ decimal m)
    exact absurd hb.1 (by decide)
  intro i j h
  cases i with
  | ofNat m =>
    cases j with
    | ofNat n => exact congrArg Int.ofNat (decimal_injective h)
    | negSucc n => exact absurd h (hm m (n + 1))
  | negSucc m =>
    cases j with
    | ofNat n => exact absurd h.symm (hm n (m + 1))
    | negSucc n => exact congrArg Int.negSucc (Nat.succ.inj (decimal_injective (List.cons.inj h).2))

/-- Bytes in decimal, between dots. -/
def dotted (bytes : List UInt8) : Text := [46].intercalate (bytes.map fun b => decimal b.toNat)

def undotted (text : Text) : List UInt8 :=
  (text.splitOn 46).map fun part => UInt8.ofNat (number part)

theorem undotted_dotted {bytes : List UInt8} (h : bytes ≠ []) : undotted (dotted bytes) = bytes := by
  have hd : ∀ part ∈ bytes.map (fun b => decimal b.toNat), (46 : UInt8) ∉ part := by
    intro part hp hm
    obtain ⟨b, -, rfl⟩ := List.mem_map.mp hp
    exact absurd (mem_decimal hm).1 (by decide)
  have hb : (fun part => UInt8.ofNat (number part)) ∘ (fun b : UInt8 => decimal b.toNat) = id := by
    funext b
    rw [Function.comp_apply, number_decimal, UInt8.ofNat_toNat, id]
  rw [undotted, dotted, List.splitOn_intercalate 46 hd (mt List.map_eq_nil_iff.mp h), List.map_map,
    hb, List.map_id]

theorem mem_dotted {b : UInt8} {bytes : List UInt8} (h : b ∈ dotted bytes) :
    b = 46 ∨ (48 ≤ b.toNat ∧ b.toNat < 58) := by
  induction bytes with
  | nil => cases h
  | cons a bytes ih =>
    cases bytes with
    | nil =>
      rw [dotted, List.map_singleton, List.intercalate_singleton] at h
      exact .inr (mem_decimal h)
    | cons a' bytes =>
      rw [dotted, List.map_cons, List.map_cons, List.intercalate_cons_cons] at h
      rcases List.mem_append.mp h with hs | ht
      · rcases List.mem_append.mp hs with hd | hs
        · exact .inr (mem_decimal hd)
        · exact .inl (List.mem_singleton.mp hs)
      · exact ih ht

section Separator
variable {α : Type} [DecidableEq α] {sep : α} {before before' behind behind' : List α}

theorem cut_first (h : sep ∉ before) (h' : sep ∉ before') :
    before ++ sep :: behind = before' ++ sep :: behind' ↔ before = before' ∧ behind = behind' := by
  constructor
  · intro he
    have hs := congrArg (List.splitOn sep) he
    rw [List.splitOn_append_cons_self_of_not_mem h,
      List.splitOn_append_cons_self_of_not_mem h'] at hs
    obtain rfl := (List.cons.inj hs).1
    exact ⟨rfl, (List.cons.inj (List.append_cancel_left he)).2⟩
  · rintro ⟨rfl, rfl⟩
    rfl

theorem cut_last (h : sep ∉ behind) (h' : sep ∉ behind') :
    before ++ sep :: behind = before' ++ sep :: behind' ↔ before = before' ∧ behind = behind' := by
  have hr (a b : List α) : (a ++ sep :: b).reverse = b.reverse ++ sep :: a.reverse := by simp
  rw [← List.reverse_inj, hr, hr, cut_first (mt List.mem_reverse.mp h) (mt List.mem_reverse.mp h'),
    List.reverse_inj, List.reverse_inj, and_comm]

end Separator
end AeProxy.Lib

import AeProxy.Lib.Words
import Mathlib.Logic.Function.Basic

/-! `Trie`: its operations, the keys it holds, and the shape in which nothing dead is left. -/
namespace AeProxy
open Lib

/-- `CHAR_SIZE`. -/
abbrev charSize : Nat := 128

/-- A 7-bit string. -/
abbrev Key := List (Fin charSize)

/-- A `Trie*`: null, or a node with a pointer for every character. -/
inductive Trie where
  | null
  | node (isLeaf : Bool) (character : Fin charSize → Trie)

namespace Trie

def isNull : Trie → Bool
  | null => true
  | node _ _ => false

/-- The constructor. -/
def fresh : Trie := node false fun _ => null

/-- `new Trie()` where the pointer is null. -/
def orNew : Trie → Trie
  | null => fresh
  | node isLeaf character => node isLeaf character

def star : Fin charSize := 42

/-- The loop of `insert`, from `curr`; it is never null. -/
def insert : Trie → Key → Trie
  | null, _ => null
  | node _ character, [] => node true character
  | node isLeaf character, c :: key =>
    node isLeaf (Function.update character c (insert (character c).orNew key))

/-- The loop of `search`, from `curr`; at its start it may be null. -/
def search : Trie → Key → Bool
  | null, _ => false
  | node isLeaf _, [] => isLeaf
  | node _ character, c :: key =>
    if (character c).isNull then !(character star).isNull else search (character c) key

def haveChildren : Trie → Bool
  | null => false
  | node _ character => (List.finRange charSize).any fun i => !(character i).isNull

/-- What is returned and what the reference to the pointer holds afterwards. -/
def deletion : Trie → Key → Bool × Trie
  | null, _ => (false, null)
  | node isLeaf character, [] =>
    if isLeaf then
      if haveChildren (node isLeaf character) then (false, node false character) else (true, null)
    else (false, node isLeaf character)
  | node isLeaf character, c :: key =>
    if (character c).isNull then (false, node isLeaf character)
    else
      let r := deletion (character c) key
      let curr := node isLeaf (Function.update character c r.2)
      if r.1 && !isLeaf then
        if haveChildren curr then (false, curr) else (true, null)
      else (false, curr)

theorem isNull_iff (t : Trie) : t.isNull = true ↔ t = null := by
  cases t with
  | null => simp [isNull]
  | node => simp [isNull]

theorem haveChildren_iff (isLeaf : Bool) (character : Fin charSize → Trie) :
    haveChildren (node isLeaf character) = true ↔ ∃ c, character c ≠ null := by
  simp [haveChildren, ← isNull_iff]

/-! The keys a trie holds. -/

def hasKey : Trie → Key → Bool
  | null, _ => false
  | node isLeaf _, [] => isLeaf
  | node _ character, c :: key => hasKey (character c) key

def keys (t : Trie) : Set Key := {key | t.hasKey key = true}

@[simp] theorem keys_null : keys null = ∅ := by
  ext key
  simp [keys, hasKey]

@[simp] theorem keys_fresh : keys fresh = ∅ := by
  ext key
  cases key <;> simp [keys, hasKey, fresh]

@[simp] theorem nil_mem_keys (isLeaf : Bool) (character : Fin charSize → Trie) :
    [] ∈ keys (node isLeaf character) ↔ isLeaf = true := Iff.rfl

@[simp] theorem cons_mem_keys (isLeaf : Bool) (character : Fin charSize → Trie)
    (c : Fin charSize) (key : Key) :
    c :: key ∈ keys (node isLeaf character) ↔ key ∈ keys (character c) := Iff.rfl

@[simp] theorem after_keys (isLeaf : Bool) (character : Fin charSize → Trie) (c : Fin charSize) :
    after (keys (node isLeaf character)) c = keys (character c) := rfl

theorem keys_orNew (t : Trie) : keys t.orNew = keys t := by
  cases t with
  | null => simp [orNew]
  | node => rfl

theorem orNew_ne_null (t : Trie) : t.orNew ≠ null := by
  cases t <;> simp [orNew, fresh]

theorem orNew_of_ne_null {t : Trie} (h : t ≠ null) : t.orNew = t := by
  cases t with
  | null => exact absurd rfl h
  | node => rfl

theorem mem_keys_insert {t : Trie} (ht : t ≠ null) (key k : Key) :
    k ∈ keys (insert t key) ↔ k = key ∨ k ∈ keys t := by
  induction key generalizing t k with
  | nil =>
    cases t with
    | null => exact absurd rfl ht
    | node isLeaf character => cases k <;> simp [insert]
  | cons c key ih =>
    cases t with
    | null => exact absurd rfl ht
    | node isLeaf character =>
      cases k with
      | nil => simp [insert]
      | cons d k =>
        rcases eq_or_ne d c with rfl | hd
        · simp [insert, ih (orNew_ne_null _), keys_orNew]
        · simp [insert, hd]

@[simp] theorem deletion_null (key : Key) : deletion null key = (false, null) := by
  cases key <;> rfl

theorem keys_of_childless {character : Fin charSize → Trie}
    (h : ¬ haveChildren (node false character) = true) : keys (node false character) = ∅ := by
  rw [haveChildren_iff, not_exists] at h
  ext key
  cases key with
  | nil => simp
  | cons c key => simp [not_not.mp (h c)]

/-- All a deletion of a longer key can do at a node whose child is there: keep the node with the
child's new value, or drop a node that is left without leaf mark and children. -/
theorem deletion_cons_cases (isLeaf : Bool) {character : Fin charSize → Trie} {c : Fin charSize}
    (hc : character c ≠ null) (key : Key) :
    let r := deletion (character c) key
    let curr := node isLeaf (Function.update character c r.2)
    deletion (node isLeaf character) (c :: key) = (false, curr) ∧
        (r.1 = true → isLeaf = true ∨ haveChildren curr = true) ∨
      deletion (node isLeaf character) (c :: key) = (true, null) ∧
        r.1 = true ∧ isLeaf = false ∧ ¬ haveChildren curr = true := by
  intro r curr
  have hn : ¬ (character c).isNull = true := fun h => hc ((isNull_iff _).mp h)
  have hd : deletion (node isLeaf character) (c :: key) =
      if r.1 && !isLeaf then
        if haveChildren curr then (false, curr) else (true, null)
      else (false, curr) := by
    rw [deletion, if_neg hn]
  rw [hd]
  by_cases hr : (r.1 && !isLeaf) = true
  · rw [if_pos hr]
    rw [Bool.and_eq_true, Bool.not_eq_true'] at hr
    by_cases hh : haveChildren curr = true
    · rw [if_pos hh]
      exact Or.inl ⟨rfl, fun _ => Or.inr hh⟩
    · rw [if_neg hh]
      exact Or.inr ⟨rfl, hr.1, hr.2, hh⟩
  · rw [if_neg hr]
    refine Or.inl ⟨rfl, fun h1 => Or.inl ?_⟩
    simpa [h1] using hr

theorem deletion_cons_null (isLeaf : Bool) {character : Fin charSize → Trie} {c : Fin charSize}
    (hc : character c = null) (key : Key) :
    deletion (node isLeaf character) (c :: key) = (false, node isLeaf character) := by
  rw [deletion, if_pos ((isNull_iff _).mpr hc)]

/-- The same at the end of the key. -/
theorem deletion_nil_cases (isLeaf : Bool) (character : Fin charSize → Trie) :
    deletion (node isLeaf character) [] = (false, node false character) ∧
        (isLeaf = true → haveChildren (node isLeaf character) = true) ∨
      deletion (node isLeaf character) [] = (true, null) ∧ isLeaf = true ∧
        ¬ haveChildren (node false character) = true := by
  cases isLeaf with
  | false => exact Or.inl ⟨rfl, fun h => by cases h⟩
  | true =>
    by_cases hh : haveChildren (node true character) = true
    · exact Or.inl ⟨by rw [deletion, if_pos rfl, if_pos hh], fun _ => hh⟩
    · exact Or.inr ⟨by rw [deletion, if_pos rfl, if_neg hh], rfl, hh⟩

/-- The pointer above is told of exactly the deletions that null the pointer. -/
theorem deletion_fst_iff (t : Trie) (key : Key) :
    (deletion t key).1 = true ↔ t ≠ null ∧ (deletion t key).2 = null := by
  cases t with
  | null => simp [deletion]
  | node isLeaf character =>
    cases key with
    | nil =>
      rcases deletion_nil_cases isLeaf character with ⟨he, _⟩ | ⟨he, _⟩
      all_goals simp [he]
    | cons c key =>
      rcases eq_or_ne (character c) null with hc | hc
      · simp [deletion_cons_null isLeaf hc key]
      · rcases deletion_cons_cases isLeaf hc key with ⟨he, _⟩ | ⟨he, _⟩
        all_goals simp [he]

theorem mem_keys_deletion (t : Trie) (key k : Key) :
    k ∈ keys (deletion t key).2 ↔ k ∈ keys t ∧ k ≠ key := by
  induction key generalizing t k with
  | nil =>
    cases t with
    | null => simp [deletion]
    | node isLeaf character =>
      have hk : k ∈ keys (node false character) ↔ k ∈ keys (node isLeaf character) ∧ k ≠ [] := by
        cases k <;> simp
      rcases deletion_nil_cases isLeaf character with ⟨he, _⟩ | ⟨he, _, hh⟩
      · rw [he, hk]
      · rw [he, ← hk, keys_of_childless hh, keys_null]
  | cons c key ih =>
    cases t with
    | null => simp [deletion]
    | node isLeaf character =>
      rcases eq_or_ne (character c) null with hc | hc
      · rw [deletion_cons_null isLeaf hc key, iff_self_and]
        rintro hk rfl
        simp [hc] at hk
      · have hk : k ∈ keys (node isLeaf (Function.update character c (deletion (character c) key).2)) ↔
            k ∈ keys (node isLeaf character) ∧ k ≠ c :: key := by
          cases k with
          | nil => simp
          | cons d k =>
            rcases eq_or_ne d c with rfl | hd
            · simp [ih]
            · simp [hd]
        rcases deletion_cons_cases isLeaf hc key with ⟨he, _⟩ | ⟨he, _, rfl, hh⟩
        · rw [he, hk]
        · rw [he, ← hk, keys_of_childless hh, keys_null]

theorem keys_insert {t : Trie} (ht : t ≠ null) (key : Key) :
    keys (insert t key) = {key} ∪ keys t := by
  ext k
  simp [mem_keys_insert ht]

theorem keys_deletion (t : Trie) (key : Key) : keys (deletion t key).2 = keys t \ {key} := by
  ext k
  simp [mem_keys_deletion]

end Trie
end AeProxy

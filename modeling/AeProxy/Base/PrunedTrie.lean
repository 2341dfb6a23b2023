import AeProxy.Base.Trie

/-! Tries in which every node has a key at or below it. The keys determine such a trie, and
with it every answer of `search`. -/
namespace AeProxy.Trie
open Lib

/-- Every node has a key at or below it. -/
def Pruned : Trie → Prop
  | null => True
  | node isLeaf character => (keys (node isLeaf character)).Nonempty ∧ ∀ c, Pruned (character c)

/-- Every node but the root has one, so that a fresh root is in order too. -/
def Tidy : Trie → Prop
  | null => True
  | node _ character => ∀ c, Pruned (character c)

theorem Pruned.tidy {t : Trie} (h : Pruned t) : Tidy t := by
  cases t with
  | null => trivial
  | node => exact h.2

theorem tidy_fresh : Tidy fresh := fun _ => trivial

theorem Tidy.pruned {t : Trie} (h : Tidy t) (hk : (keys t).Nonempty) : Pruned t := by
  cases t with
  | null => trivial
  | node => exact ⟨hk, h⟩

theorem Tidy.orNew {t : Trie} (h : Tidy t) : Tidy t.orNew := by
  cases t with
  | null => exact tidy_fresh
  | node => exact h

theorem Pruned.nonempty_iff {t : Trie} (h : Pruned t) : (keys t).Nonempty ↔ t ≠ null := by
  cases t with
  | null => simp
  | node => simpa using h.1

/-- Two tries without dead nodes that hold the same keys are the same trie. -/
theorem Pruned.eq_of_keys {t u : Trie} (ht : Pruned t) (hu : Pruned u) (h : keys t = keys u) :
    t = u := by
  induction t generalizing u with
  | null =>
    have hn := hu.nonempty_iff
    rw [← h] at hn
    exact (not_not.mp (hn.not.mp (by simp))).symm
  | node isLeaf character ih =>
    cases u with
    | null => exact absurd (h ▸ ht.1) (by simp)
    | node isLeaf' character' =>
      have hleaf : isLeaf = isLeaf' := by
        have hm := Set.ext_iff.mp h []
        rwa [nil_mem_keys, nil_mem_keys, Bool.coe_iff_coe] at hm
      have hchild : character = character' := funext fun c =>
        ih c (ht.2 c) (hu.2 c) (Set.ext fun k => Set.ext_iff.mp h (c :: k))
      rw [hleaf, hchild]

/-- A node whose child has been replaced is as tidy as the new child. -/
theorem pruned_update {character : Fin charSize → Trie} (h : ∀ c, Pruned (character c))
    (c : Fin charSize) {child : Trie} (hc : Pruned child) (d : Fin charSize) :
    Pruned (Function.update character c child d) := by
  rcases eq_or_ne d c with rfl | hd
  · simpa using hc
  · simpa [hd] using h d

theorem Tidy.insert {t : Trie} (h : Tidy t) (key : Key) : Tidy (insert t key) := by
  induction key generalizing t with
  | nil =>
    cases t with
    | null => trivial
    | node => exact h
  | cons c key ih =>
    cases t with
    | null => trivial
    | node isLeaf character =>
      intro d
      have hkeys : (keys (Trie.insert (character c).orNew key)).Nonempty :=
        ⟨key, (mem_keys_insert (orNew_ne_null _) key key).mpr (Or.inl rfl)⟩
      exact pruned_update h c ((ih (h c).tidy.orNew).pruned hkeys) d

theorem Pruned.keys_nonempty_of_child {isLeaf : Bool} {character : Fin charSize → Trie}
    (h : ∀ c, Pruned (character c)) (hh : haveChildren (node isLeaf character) = true) :
    (keys (node isLeaf character)).Nonempty := by
  obtain ⟨c, hc⟩ := (haveChildren_iff isLeaf character).mp hh
  obtain ⟨key, hkey⟩ := (h c).nonempty_iff.mpr hc
  exact ⟨c :: key, hkey⟩

theorem Pruned.deletion {t : Trie} (h : Pruned t) (key : Key) : Pruned (deletion t key).2 := by
  induction key generalizing t with
  | nil =>
    cases t with
    | null => trivial
    | node isLeaf character =>
      rcases deletion_nil_cases isLeaf character with ⟨he, hh⟩ | ⟨he, _⟩
      · rw [he]
        cases isLeaf with
        | false => exact h
        | true => exact ⟨Pruned.keys_nonempty_of_child h.2 (hh rfl), h.2⟩
      · rw [he]
        trivial
  | cons c key ih =>
    cases t with
    | null => trivial
    | node isLeaf character =>
      rcases eq_or_ne (character c) null with hc | hc
      · rwa [deletion_cons_null isLeaf hc key]
      · have hchild := ih (h.2 c)
        have hkids := pruned_update h.2 c hchild
        rcases deletion_cons_cases isLeaf hc key with ⟨he, hh⟩ | ⟨he, _⟩
        · rw [he]
          refine ⟨?_, hkids⟩
          by_cases hr : (Trie.deletion (character c) key).1 = true
          · rcases hh hr with rfl | hh
            · exact ⟨[], rfl⟩
            · exact Pruned.keys_nonempty_of_child hkids hh
          -- the child is still there, and brings its keys
          · rw [deletion_fst_iff, not_and] at hr
            obtain ⟨k, hk⟩ := hchild.nonempty_iff.mpr (hr hc)
            exact ⟨c :: k, by simpa using hk⟩
        · rw [he]
          trivial

theorem Tidy.deletion {t : Trie} (h : Tidy t) (key : Key) : Tidy (deletion t key).2 := by
  cases t with
  | null => exact (deletion_null key).symm ▸ trivial
  | node isLeaf character =>
    cases key with
    | nil =>
      rcases deletion_nil_cases isLeaf character with ⟨he, _⟩ | ⟨he, _⟩
      · exact he.symm ▸ h
      · exact he.symm ▸ trivial
    | cons c key =>
      rcases eq_or_ne (character c) null with hc | hc
      · exact (deletion_cons_null isLeaf hc key).symm ▸ h
      · rcases deletion_cons_cases isLeaf hc key with ⟨he, _⟩ | ⟨he, _⟩
        · exact he.symm ▸ pruned_update h c ((h c).deletion key)
        · exact he.symm ▸ trivial

/-- Deleting an absent key changes nothing, whatever the trie. -/
theorem deletion_of_notMem {t : Trie} {key : Key} (h : key ∉ keys t) :
    deletion t key = (false, t) := by
  induction key generalizing t with
  | nil =>
    cases t with
    | null => rfl
    | node isLeaf character =>
      obtain rfl : isLeaf = false := by simpa using h
      rfl
  | cons c key ih =>
    cases t with
    | null => rfl
    | node isLeaf character =>
      rcases eq_or_ne (character c) null with hc | hc
      · exact deletion_cons_null isLeaf hc key
      · have hr := ih (t := character c) (by simpa using h)
        rcases deletion_cons_cases isLeaf hc key with ⟨he, _⟩ | ⟨_, hd, _⟩
        · simpa [hr] using he
        · simp [hr] at hd

/-! Where a walk down a trie gets to. -/

def child : Trie → Fin charSize → Trie
  | null, _ => null
  | node _ character, c => character c

def nodeAt (t : Trie) (path : Key) : Trie := path.foldl child t

theorem nodeAt_null (path : Key) : nodeAt null path = null := by
  induction path with
  | nil => rfl
  | cons c path ih => exact ih

theorem nodeAt_fresh {path : Key} (hp : nodeAt fresh path ≠ null) : path = [] := by
  cases path with
  | nil => rfl
  | cons c path => exact absurd (nodeAt_null path) hp

theorem Pruned.hasPrefix_of_nodeAt {t : Trie} (h : Pruned t) {path : Key}
    (hp : nodeAt t path ≠ null) : HasPrefix (keys t) path := by
  induction path generalizing t with
  | nil => exact (hasPrefix_nil _).mpr (h.nonempty_iff.mpr hp)
  | cons c path ih =>
    cases t with
    | null => exact absurd (nodeAt_null path) hp
    | node isLeaf character => exact (hasPrefix_cons _ c path).mpr (ih (h.2 c) hp)

/-- `search` finds a key of the trie, or a query that leaves the keys where one could go on with
a star. -/
theorem Tidy.search_iff {t : Trie} (h : Tidy t) (q : Key) :
    search t q = true ↔ q ∈ keys t ∨ FallsOff (keys t) star q := by
  induction q generalizing t with
  | nil =>
    rw [or_iff_left (not_fallsOff_nil (keys t) star)]
    cases t with
    | null => simp [search]
    | node => exact Iff.rfl
  | cons c q ih =>
    cases t with
    | null => simp [search, FallsOff, HasPrefix]
    | node isLeaf character =>
      rw [search, cons_mem_keys]
      rcases eq_or_ne (character c) null with hc | hc
      · have hne : ¬ (after (keys (node isLeaf character)) c).Nonempty := by simp [hc]
        rw [if_pos ((isNull_iff _).mpr hc), fallsOff_cons_of_empty hne, after_keys,
          (h star).nonempty_iff, hc]
        simp [← isNull_iff]
      · have hne : (after (keys (node isLeaf character)) c).Nonempty :=
          (h c).nonempty_iff.mpr hc
        rw [if_neg (fun hn => hc ((isNull_iff _).mp hn)), fallsOff_cons_of_nonempty hne, after_keys]
        exact ih (h c).tidy

end AeProxy.Trie

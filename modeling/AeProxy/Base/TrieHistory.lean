import AeProxy.Base.PrunedTrie
import Mathlib.Data.Finset.Basic
import Mathlib.Data.Finset.Lattice.Lemmas

/-! Any sequence of `insert` and `deletion` calls: the keys left determine the trie. -/
namespace AeProxy.Trie
open Lib

/-- A call on the trie. -/
inductive Call where
  | insert (key : Key)
  | deletion (key : Key)
  deriving DecidableEq, Repr

/-- The caller's root pointer, and the keys inserted and not deleted since. -/
structure Session where
  root : Trie
  keys : Finset Key

/-- Insert the keys into a fresh root, one after the other. -/
def insertAll (keys : List Key) : Trie := keys.foldl insert fresh

namespace Session

def start : Session := ⟨fresh, ∅⟩

/-- The root the next call is made on: where the pointer is null the caller starts a fresh one. -/
def current (s : Session) : Trie := s.root.orNew

def step (s : Session) : Call → Session
  | .insert key => ⟨s.current.insert key, Insert.insert key s.keys⟩
  | .deletion key => ⟨(deletion s.current key).2, s.keys.erase key⟩

def run (calls : List Call) : Session := calls.foldl step start

/-- The trie holds the keys and has no dead nodes. -/
structure Holds (s : Session) : Prop where
  keys_root : s.root.keys = ↑s.keys
  tidy : s.root.Tidy

theorem Holds.keys_current {s : Session} (h : s.Holds) : s.current.keys = ↑s.keys :=
  (keys_orNew s.root).trans h.keys_root

theorem Holds.step {s : Session} (h : s.Holds) (call : Call) : (s.step call).Holds := by
  cases call with
  | insert key =>
    refine ⟨?_, h.tidy.orNew.insert key⟩
    have hk := keys_insert (orNew_ne_null s.root) key
    rw [← current, h.keys_current, Set.singleton_union, ← Finset.coe_insert] at hk
    exact hk
  | deletion key =>
    refine ⟨?_, h.tidy.orNew.deletion key⟩
    have hk := keys_deletion s.current key
    rw [h.keys_current, ← Finset.coe_erase] at hk
    exact hk

theorem holds_start : start.Holds := ⟨by simp [start], tidy_fresh⟩

theorem holds_run (calls : List Call) : (run calls).Holds :=
  List.foldlRecOn calls step holds_start fun _ h call _ => h.step call

/-- What `search` answers after any calls depends on the keys alone, and the pointer is null only
when there are none. For keys without a star it is membership. -/
theorem search_run (calls : List Call) :
    ((run calls).root = null → (run calls).keys = ∅) ∧
    (∀ q, (run calls).current.search q = true ↔
      q ∈ (run calls).keys ∨ FallsOff ↑(run calls).keys star q) ∧
    ((∀ key ∈ (run calls).keys, star ∉ key) →
      ∀ q, (run calls).current.search q = true ↔ q ∈ (run calls).keys) := by
  have h := holds_run calls
  generalize run calls = s at h
  have hsearch (q : Key) : s.current.search q = true ↔ q ∈ s.keys ∨ FallsOff ↑s.keys star q := by
    have hq := h.tidy.orNew.search_iff q
    rwa [← current, h.keys_current, Finset.mem_coe] at hq
  refine ⟨fun hn => ?_, hsearch, fun hplain q => ?_⟩
  · have hk := h.keys_root
    rw [hn, keys_null] at hk
    exact Finset.coe_eq_empty.mp hk.symm
  · rw [hsearch, or_iff_left]
    rintro ⟨_, m, _, key, hkey, hm⟩
    exact hplain key hkey (hm.subset (by simp))

/-! Runs in which no deletion makes the key set empty. -/

/-- No deletion takes the last key. -/
def NeverEmptied : Finset Key → List Call → Prop
  | _, [] => True
  | keys, .insert key :: calls => NeverEmptied (Insert.insert key keys) calls
  | keys, .deletion key :: calls => keys ≠ {key} ∧ NeverEmptied (keys.erase key) calls

/-- And a root without keys is fresh. -/
structure Settled (s : Session) : Prop extends Holds s where
  fresh_of_empty : s.keys = ∅ → s.root = fresh

namespace Settled
variable {s : Session}

theorem pruned (h : s.Settled) (hk : s.keys.Nonempty) : s.root.Pruned :=
  h.tidy.pruned (h.keys_root ▸ Finset.coe_nonempty.mpr hk)

theorem root_ne_null (h : s.Settled) : s.root ≠ null := by
  rcases s.keys.eq_empty_or_nonempty with he | hk
  · simp [h.fresh_of_empty he, fresh]
  · exact (h.pruned hk).nonempty_iff.mp (h.keys_root ▸ Finset.coe_nonempty.mpr hk)

theorem current_eq (h : s.Settled) : s.current = s.root := orNew_of_ne_null h.root_ne_null

theorem notMem_root (h : s.Settled) {key : Key} (hk : key ∉ s.keys) : key ∉ s.root.keys := by
  rwa [h.keys_root, Finset.mem_coe]

theorem insert (h : s.Settled) (key : Key) : (s.step (.insert key)).Settled where
  toHolds := h.toHolds.step _
  fresh_of_empty he := absurd he (Finset.insert_ne_empty key s.keys)

theorem root_insert (h : s.Settled) (key : Key) :
    (s.step (.insert key)).root = s.root.insert key := by
  rw [step, h.current_eq]

theorem root_deletion (h : s.Settled) (key : Key) :
    (s.step (.deletion key)).root = (Trie.deletion s.root key).2 := by
  rw [step, h.current_eq]

theorem deletion (h : s.Settled) {key : Key} (hk : s.keys ≠ {key}) :
    (s.step (.deletion key)).Settled where
  toHolds := h.toHolds.step _
  fresh_of_empty he := by
    have hs : s.keys = ∅ := ((Finset.erase_eq_empty_iff s.keys key).mp he).resolve_right hk
    rw [h.root_deletion, deletion_of_notMem (h.notMem_root (by simp [hs]))]
    exact h.fresh_of_empty hs

theorem run {calls : List Call} (h : s.Settled) (hc : NeverEmptied s.keys calls) :
    (calls.foldl step s).Settled := by
  induction calls generalizing s with
  | nil => exact h
  | cons call calls ih =>
    cases call with
    | insert key => exact ih (h.insert key) hc
    | deletion key => exact ih (h.deletion hc.1) hc.2

/-- The keys alone fix the trie. -/
theorem root_eq {t : Session} (hs : s.Settled) (ht : t.Settled) (h : s.keys = t.keys) :
    s.root = t.root := by
  rcases s.keys.eq_empty_or_nonempty with he | hk
  · rw [hs.fresh_of_empty he, ht.fresh_of_empty (h ▸ he)]
  · apply (hs.pruned hk).eq_of_keys (ht.pruned (h ▸ hk))
    rw [hs.keys_root, ht.keys_root, h]

end Settled

theorem settled_start : start.Settled := ⟨holds_start, fun _ => rfl⟩

/-- Inserting keys into a fresh root is such a run. -/
theorem settled_insertAll (keys : List Key) : Settled ⟨insertAll keys, keys.toFinset⟩ := by
  induction keys using List.reverseRecOn with
  | nil => exact settled_start
  | append_singleton keys key ih =>
    have h := ih.insert key
    rw [step, ih.current_eq] at h
    rwa [insertAll, List.foldl_append, ← insertAll, List.toFinset_append, List.toFinset_cons,
      List.toFinset_nil, insert_empty_eq, Finset.union_comm, ← Finset.insert_eq]

/-- The root is the one trie of its keys, and has no node but those the keys need. -/
structure Canonical (s : Session) : Prop where
  rebuilt : ∀ keys : List Key, keys.toFinset = s.keys → s.root = insertAll keys
  insert_comm : ∀ key key', (s.root.insert key).insert key' = (s.root.insert key').insert key
  insert_idem : ∀ key, (s.root.insert key).insert key = s.root.insert key
  deletion_insert : ∀ key ∉ s.keys, s.keys.Nonempty →
    (Trie.deletion (s.root.insert key) key).2 = s.root
  deletion_absent : ∀ key ∉ s.keys, (Trie.deletion s.root key).2 = s.root
  no_dead_node : ∀ path, nodeAt s.root path ≠ null →
    HasPrefix ↑s.keys path ∨ path = [] ∧ s.keys = ∅

theorem Settled.canonical {s : Session} (h : s.Settled) : s.Canonical where
  rebuilt keys hk := h.root_eq (settled_insertAll keys) hk.symm
  insert_comm key key' := by
    have he := ((h.insert key).insert key').root_eq ((h.insert key').insert key)
      (Finset.insert_comm key' key s.keys)
    rwa [(h.insert key).root_insert, (h.insert key').root_insert, h.root_insert,
      h.root_insert] at he
  insert_idem key := by
    have he := ((h.insert key).insert key).root_eq (h.insert key) (Finset.insert_idem key s.keys)
    rwa [(h.insert key).root_insert, h.root_insert] at he
  deletion_insert key hk hne := by
    have hs : (s.step (.insert key)).keys ≠ {key} := by
      rintro (he : Insert.insert key s.keys = {key})
      obtain ⟨k, hks⟩ := hne
      have hkk : k ∈ ({key} : Finset Key) := he ▸ Finset.mem_insert_of_mem hks
      exact hk (Finset.mem_singleton.mp hkk ▸ hks)
    have he := ((h.insert key).deletion hs).root_eq h (Finset.erase_insert hk)
    rwa [(h.insert key).root_deletion, h.root_insert] at he
  deletion_absent key hk := by rw [deletion_of_notMem (h.notMem_root hk)]
  no_dead_node path hp := by
    rcases s.keys.eq_empty_or_nonempty with he | hk
    · rw [h.fresh_of_empty he] at hp
      exact Or.inr ⟨nodeAt_fresh hp, he⟩
    · exact Or.inl (h.keys_root ▸ (h.pruned hk).hasPrefix_of_nodeAt hp)

/-- Without a deletion that takes the last key, every history leaves the trie its keys determine. -/
theorem canonical_run (calls : List Call) (h : NeverEmptied ∅ calls) : (run calls).Canonical :=
  (settled_start.run h).canonical

/-- A key, a longer one, the longer one taken back and an absent key deleted. -/
theorem canonical_run_two :
    (run [.insert [1], .insert [1, 2], .deletion [1, 2], .deletion [3]]).Canonical :=
  canonical_run _ ⟨by decide, by decide, trivial⟩

end Session
end AeProxy.Trie

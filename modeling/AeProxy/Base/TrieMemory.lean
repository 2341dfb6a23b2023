import AeProxy.Base.TrieHistory
import AeProxy.Lib.Heap
import AeProxy.Lib.System
import Mathlib.Algebra.BigOperators.Group.Finset.Basic
import Mathlib.Data.Fintype.Basic

/-! `Trie` as it lies in memory: nodes that are allocated, linked and deleted one by one. What the
pointers lead to is the trie of the calls made so far, and there is nothing else in memory. -/
namespace AeProxy.Trie
open Lib

/-- A node in memory; `none` is `nullptr`. -/
structure Node where
  isLeaf : Bool
  character : Fin charSize → Option Nat

namespace Node

def fresh : Node := ⟨false, fun _ => none⟩

def haveChildren (self : Node) : Bool :=
  (List.finRange charSize).any fun i => (self.character i).isSome

def setCharacter (self : Node) (c : Fin charSize) (pointer : Option Nat) : Node :=
  { self with character := Function.update self.character c pointer }

end Node

abbrev Memory := Heap Node

namespace Memory

/-- The loop of `insert`, from `curr`. Here and below `none` is an access to memory that is not
there. -/
def insert (self : Memory) (curr : Nat) : Key → Option Memory
  | [] => (self.read curr).bind fun node => self.write curr { node with isLeaf := true }
  | c :: key => (self.read curr).bind fun node =>
    match node.character c with
    | some child => insert self child key
    | none =>
      let (memory, child) := self.new .fresh
      (memory.write curr (node.setCharacter c (some child))).bind fun memory =>
        insert memory child key

/-- `search`. A call through `nullptr` is undefined, and its test of `this` against it, which a
compiler may leave out, no help. -/
def search (self : Memory) : Option Nat → Key → Option Bool
  | none, _ => none
  | some curr, [] => (self.read curr).map Node.isLeaf
  | some curr, c :: key => (self.read curr).bind fun node =>
    match node.character c with
    | some child => search self (some child) key
    | none => some (node.character star).isSome

/-- What is returned, and what the reference to the pointer holds afterwards. -/
def deletion (self : Memory) : Option Nat → Key → Option (Memory × Bool × Option Nat)
  | none, _ => some (self, false, none)
  | some curr, [] => (self.read curr).bind fun node =>
    if node.isLeaf then
      if node.haveChildren then
        (self.write curr { node with isLeaf := false }).map fun memory => (memory, false, some curr)
      else (self.delete curr).map fun memory => (memory, true, none)
    else some (self, false, some curr)
  | some curr, c :: key => (self.read curr).bind fun node =>
    if node.character c = none then some (self, false, some curr)
    else
      (deletion self (node.character c) key).bind fun (memory, r, child) =>
        (memory.read curr).bind fun node =>
          (memory.write curr (node.setCharacter c child)).bind fun memory =>
            if r && !node.isLeaf then
              if (node.setCharacter c child).haveChildren then some (memory, false, some curr)
              else (memory.delete curr).map fun memory => (memory, true, none)
            else some (memory, false, some curr)

/-- The pointer leads to this trie, whose nodes are these cells, each used once. -/
inductive Holds (self : Memory) : Option Nat → Trie → Finset Nat → Prop
  | null : Holds self none null ∅
  | node {curr : Nat} {isLeaf : Bool} {pointer : Fin charSize → Option Nat}
      {character : Fin charSize → Trie} {cells : Fin charSize → Finset Nat}
      (hread : self.read curr = some ⟨isLeaf, pointer⟩)
      (hchild : ∀ c, Holds self (pointer c) (character c) (cells c)) (hcurr : ∀ c, curr ∉ cells c)
      (hdisjoint : ∀ c d, c ≠ d → Disjoint (cells c) (cells d)) :
    Holds self (some curr) (node isLeaf character) (Insert.insert curr (Finset.univ.biUnion cells))

variable {m m' : Memory} {pointer : Option Nat} {t : Trie} {cells : Finset Nat}

namespace Holds

theorem live (h : Holds m pointer t cells) {a : Nat} (ha : a ∈ cells) : ∃ node, m.read a = some node := by
  induction h with
  | null => cases Finset.notMem_empty a ha
  | node hread _ _ _ ih =>
    rcases Finset.mem_insert.mp ha with rfl | ha
    · exact ⟨_, hread⟩
    · obtain ⟨c, -, hc⟩ := Finset.mem_biUnion.mp ha
      exact ih c hc

/-- Only the cells of a trie matter to it. -/
theorem congr (h : Holds m pointer t cells) (hs : ∀ a ∈ cells, m'.read a = m.read a) :
    Holds m' pointer t cells := by
  induction h with
  | null => exact .null
  | node hread _ hcurr hdisjoint ih =>
    refine .node ?_ (fun c => ih c fun a ha => hs a ?_) hcurr hdisjoint
    · rw [hs _ (Finset.mem_insert_self _ _), hread]
    · exact Finset.mem_insert_of_mem (Finset.mem_biUnion.mpr ⟨c, Finset.mem_univ c, ha⟩)

theorem none_iff (h : Holds m pointer t cells) : pointer = none ↔ t = Trie.null := by
  cases h with
  | null => exact iff_of_true rfl rfl
  | node => exact iff_of_false nofun nofun

theorem cells_of_none (h : Holds m none t cells) : cells = ∅ := by
  cases h
  rfl

theorem cells_update (cells : Fin charSize → Finset Nat) (c : Fin charSize) (cells' : Finset Nat) :
    Finset.univ.biUnion (Function.update cells c cells') =
      (Finset.univ.erase c).biUnion cells ∪ cells' := by
  ext a
  simp only [Finset.mem_biUnion, Finset.mem_union, Finset.mem_univ, true_and, Finset.mem_erase, and_true]
  constructor
  · rintro ⟨d, hd⟩
    rcases eq_or_ne d c with rfl | hne
    · rw [Function.update_self] at hd
      exact .inr hd
    · rw [Function.update_of_ne hne] at hd
      exact .inl ⟨d, hne, hd⟩
  · rintro (⟨d, hne, hd⟩ | ha)
    · exact ⟨d, by rwa [Function.update_of_ne hne]⟩
    · exact ⟨c, by rwa [Function.update_self]⟩

/-- Another child in place of one. -/
theorem replace {curr : Nat} {isLeaf' : Bool} {pointer : Fin charSize → Option Nat}
    {character : Fin charSize → Trie} {cells : Fin charSize → Finset Nat}
    (hchild : ∀ c, Holds m (pointer c) (character c) (cells c)) (hcurr : ∀ c, curr ∉ cells c)
    (hdisjoint : ∀ c d, c ≠ d → Disjoint (cells c) (cells d)) {c : Fin charSize}
    {pointer' : Option Nat} {t' : Trie} {cells' : Finset Nat}
    (hm : Heap.Moves (Insert.insert curr (cells c)) (Insert.insert curr cells') m m')
    (hread : m'.read curr = some ⟨isLeaf', Function.update pointer c pointer'⟩)
    (hchild' : Holds m' pointer' t' cells') (hcurr' : curr ∉ cells') :
    Holds m' (some curr) (.node isLeaf' (Function.update character c t'))
      (Insert.insert curr (Finset.univ.biUnion (Function.update cells c cells'))) ∧
    Heap.Moves (Insert.insert curr (Finset.univ.biUnion cells))
      (Insert.insert curr (Finset.univ.biUnion (Function.update cells c cells'))) m m' := by
  have hbeside {d : Fin charSize} (hne : d ≠ c) {a : Nat} (ha : a ∈ cells d) :
      a ∉ Insert.insert curr cells' ∧ m'.read a = m.read a := by
    obtain ⟨node, hnode⟩ := (hchild d).live ha
    have hna : a ∉ Insert.insert curr (cells c) := by
      rw [Finset.mem_insert, not_or]
      refine ⟨?_, Finset.disjoint_left.mp (hdisjoint d c hne) ha⟩
      rintro rfl
      exact hcurr d ha
    obtain ⟨hna', hread'⟩ := hm.read_eq hnode hna
    exact ⟨hna', hread'.trans hnode.symm⟩
  have hout {d : Fin charSize} (hne : d ≠ c) : Disjoint (cells d) cells' :=
    Finset.disjoint_left.mpr fun a ha ha' => (hbeside hne ha).1 (Finset.mem_insert_of_mem ha')
  constructor
  · refine .node hread (fun d => ?_) (fun d => ?_) fun d e hne => ?_
    · rcases eq_or_ne d c with rfl | hdc
      · simpa using hchild'
      · simpa [hdc] using (hchild d).congr fun a ha => (hbeside hdc ha).2
    · rcases eq_or_ne d c with rfl | hdc
      · simpa using hcurr'
      · simpa [hdc] using hcurr d
    · rcases eq_or_ne d c with rfl | hdc
      · simpa [hne.symm] using (hout hne.symm).symm
      · rcases eq_or_ne e c with rfl | hec
        · simpa [hdc] using hout hdc
        · simpa [hdc, hec] using hdisjoint d e hne
  · have hbefore := cells_update cells c (cells c)
    rw [Function.update_eq_self] at hbefore
    rw [hbefore, cells_update, ← Finset.union_insert, ← Finset.union_insert]
    exact hm.frame _

/-- Another mark on the node. -/
theorem relabel {curr : Nat} {isLeaf' : Bool} {pointer : Fin charSize → Option Nat}
    {character : Fin charSize → Trie} {cells : Fin charSize → Finset Nat}
    (hchild : ∀ c, Holds m (pointer c) (character c) (cells c)) (hcurr : ∀ c, curr ∉ cells c)
    (hdisjoint : ∀ c d, c ≠ d → Disjoint (cells c) (cells d)) (hm : Heap.Moves {curr} {curr} m m')
    (hread : m'.read curr = some ⟨isLeaf', pointer⟩) :
    Holds m' (some curr) (.node isLeaf' character)
      (Insert.insert curr (Finset.univ.biUnion cells)) ∧
    Heap.Moves (Insert.insert curr (Finset.univ.biUnion cells))
      (Insert.insert curr (Finset.univ.biUnion cells)) m m' := by
  constructor
  · refine .node hread (fun c => (hchild c).congr fun a ha => ?_) hcurr hdisjoint
    obtain ⟨node, hnode⟩ := (hchild c).live ha
    have hne : a ∉ ({curr} : Finset Nat) := by
      rw [Finset.mem_singleton]
      rintro rfl
      exact hcurr c ha
    exact (hm.read_eq hnode hne).2.trans hnode.symm
  · have hframe := hm.frame (Finset.univ.biUnion cells)
    rwa [Finset.union_comm, ← Finset.insert_eq] at hframe

end Holds

theorem holds_fresh {curr : Nat} (h : m.read curr = some .fresh) :
    Holds m (some curr) Trie.fresh {curr} := by
  have hcells : Insert.insert curr (Finset.univ.biUnion fun _ : Fin charSize => ∅) = {curr} := by
    ext a
    simp
  exact hcells ▸ .node h (fun _ => .null) (fun _ => Finset.notMem_empty curr)
    fun _ _ _ => Finset.disjoint_empty_left _

/-- A new node behind another. -/
theorem link {curr : Nat} {node : Node} (hread : m.read curr = some node) (c : Fin charSize) :
    ∃ m', Heap.write (m.new .fresh).1 curr (node.setCharacter c (some m.next)) = some m' ∧
      m'.read curr = some (node.setCharacter c (some m.next)) ∧ m'.read m.next = some .fresh ∧
      Heap.Moves {curr} ({curr} ∪ {m.next}) m m' := by
  have hnew := Heap.moves_new m .fresh
  obtain ⟨hne, hread'⟩ := hnew.read_eq hread (Finset.notMem_empty curr)
  obtain ⟨m', hw, hcurr, hm⟩ := Heap.write_of_read hread' (node.setCharacter c (some m.next))
  have hnext : m.next ∉ ({curr} : Finset Nat) := fun h =>
    hne (Finset.mem_singleton.mpr (Finset.mem_singleton.mp h).symm)
  refine ⟨m', hw, hcurr, (hm.read_eq (Heap.read_new m .fresh) hnext).2, ?_⟩
  have hfirst := hnew.frame {curr}
  have hthen := hm.frame {m.next}
  rw [Finset.union_empty] at hfirst
  rw [Finset.union_comm] at hthen
  exact hfirst.trans hthen

/-- `insert` finds every node it reads, and makes the trie the inserted one. -/
theorem insert_holds {curr : Nat} (h : Holds m (some curr) t cells) (key : Key) :
    ∃ m' cells', m.insert curr key = some m' ∧ Holds m' (some curr) (t.insert key) cells' ∧
      Heap.Moves cells cells' m m' := by
  induction key generalizing m curr t cells with
  | nil =>
    cases h with
    | @node _ _ pointer _ _ hread hchild hcurr hdisjoint =>
      obtain ⟨m', hw, hread', hm⟩ := Heap.write_of_read hread ⟨true, pointer⟩
      obtain ⟨hholds, hmoves⟩ := Holds.relabel hchild hcurr hdisjoint hm hread'
      exact ⟨m', _, by rw [insert, hread, Option.bind_some, hw], hholds, hmoves⟩
  | cons c key ih =>
    cases h with
    | @node _ isLeaf pointer character cells hread hchild hcurr hdisjoint =>
      have hc := hchild c
      match hp : pointer c with
      | some child =>
        rw [hp] at hc
        obtain ⟨m', cells', hins, hholds, hm⟩ := ih hc
        obtain ⟨hcurr', hread'⟩ := hm.read_eq hread (hcurr c)
        have hne : character c ≠ Trie.null := hc.none_iff.not.mp (Option.some_ne_none child)
        have hmoves := hm.frame {curr}
        rw [← Finset.insert_eq, ← Finset.insert_eq] at hmoves
        rw [← hp] at hholds
        have hself : m'.read curr =
            some ⟨isLeaf, Function.update pointer c (pointer c)⟩ := by
          rw [hread', Function.update_eq_self]
        obtain ⟨hholds', hmoves'⟩ :=
          Holds.replace hchild hcurr hdisjoint hmoves hself hholds hcurr'
        refine ⟨m', _, ?_, ?_, hmoves'⟩
        · rw [insert, hread, Option.bind_some]
          simp only [hp, hins]
        · rw [Trie.insert, orNew_of_ne_null hne]
          exact hholds'
      | none =>
        rw [hp] at hc
        obtain ⟨m₁, hw, hread₁, hnew, hlink⟩ := link hread c
        obtain ⟨m', cells', hins, hholds, hm⟩ := ih (holds_fresh hnew)
        have hempty : cells c = ∅ := hc.cells_of_none
        have hne : curr ∉ ({m.next} : Finset Nat) := by
          rw [Finset.mem_singleton]
          exact Nat.ne_of_lt (Heap.lt_next hread)
        obtain ⟨hcurr', hread'⟩ := hm.read_eq hread₁ hne
        have hmoves : Heap.Moves (Insert.insert curr (cells c)) (Insert.insert curr cells') m m' := by
          rw [hempty, Finset.insert_eq curr cells']
          exact hlink.trans (hm.frame {curr})
        obtain ⟨hholds', hmoves'⟩ :=
          Holds.replace hchild hcurr hdisjoint hmoves hread' hholds hcurr'
        refine ⟨m', _, ?_, ?_, hmoves'⟩
        · rw [insert, hread, Option.bind_some]
          simp only [hp]
          exact (congrArg (Option.bind · _) hw).trans hins
        · rw [Trie.insert, hc.none_iff.mp rfl]
          exact hholds'

theorem Holds.isSome_eq (h : Holds m pointer t cells) : pointer.isSome = !t.isNull := by
  cases h <;> rfl

/-- A node in memory knows whether it has children. -/
theorem Holds.haveChildren_eq {curr : Nat} {node : Node} (h : Holds m (some curr) t cells)
    (hread : m.read curr = some node) : node.haveChildren = t.haveChildren := by
  cases h with
  | @node _ isLeaf pointer character cells hread' hchild =>
    obtain rfl : (⟨isLeaf, pointer⟩ : Node) = node := Option.some.inj (hread'.symm.trans hread)
    have hp : (fun c => (pointer c).isSome) = fun c => !(character c).isNull :=
      funext fun c => (hchild c).isSome_eq
    rw [Node.haveChildren, Trie.haveChildren, hp]

/-- A node without children is all there is of its trie. -/
theorem Holds.delete {curr : Nat} (h : Holds m (some curr) t cells)
    (hc : ¬ t.haveChildren = true) : ∃ m', Heap.delete m curr = some m' ∧ Heap.Moves cells ∅ m m' := by
  cases h with
  | @node _ isLeaf pointer character cells hread hchild hcurr hdisjoint =>
    rw [haveChildren_iff, not_exists] at hc
    have hcells : Finset.univ.biUnion cells = ∅ := by
      refine Finset.eq_empty_of_forall_notMem fun a ha => ?_
      obtain ⟨c, -, ha⟩ := Finset.mem_biUnion.mp ha
      have hnull := hchild c
      rw [(hnull.none_iff).mpr (not_not.mp (hc c))] at hnull
      rw [hnull.cells_of_none] at ha
      exact Finset.notMem_empty a ha
    rw [hcells]
    exact Heap.delete_of_read hread

/-- `deletion` finds every node it reads, makes the trie the one without the key, and leaves no
node of it behind. -/
theorem deletion_holds (h : Holds m pointer t cells) (key : Key) :
    ∃ m' pointer' cells', m.deletion pointer key = some (m', (t.deletion key).1, pointer') ∧
      Holds m' pointer' (t.deletion key).2 cells' ∧ Heap.Moves cells cells' m m' := by
  induction key generalizing m pointer t cells with
  | nil =>
    cases h with
    | null => exact ⟨m, none, ∅, rfl, .null, .refl ∅ m⟩
    | @node curr isLeaf pointer character cells hread hchild hcurr hdisjoint =>
      have hself := Holds.node hread hchild hcurr hdisjoint
      rw [deletion, hread, Option.bind_some, Trie.deletion, hself.haveChildren_eq hread]
      dsimp only
      by_cases hl : isLeaf = true
      · rw [if_pos hl, if_pos hl]
        by_cases hh : Trie.haveChildren (.node isLeaf character) = true
        · rw [if_pos hh, if_pos hh]
          obtain ⟨m', hw, hread', hm⟩ := Heap.write_of_read hread ⟨false, pointer⟩
          obtain ⟨hholds, hmoves⟩ := Holds.relabel hchild hcurr hdisjoint hm hread'
          exact ⟨m', _, _, congrArg (Option.map _) hw, hholds, hmoves⟩
        · rw [if_neg hh, if_neg hh]
          obtain ⟨m', hd, hm⟩ := hself.delete hh
          exact ⟨m', none, ∅, congrArg (Option.map _) hd, .null, hm⟩
      · rw [if_neg hl, if_neg hl]
        exact ⟨m, _, _, rfl, hself, .refl _ m⟩
  | cons c key ih =>
    cases h with
    | null => exact ⟨m, none, ∅, rfl, .null, .refl ∅ m⟩
    | @node curr isLeaf pointer character cells hread hchild hcurr hdisjoint =>
      have hself := Holds.node hread hchild hcurr hdisjoint
      have hnull := (hchild c).none_iff
      rw [deletion, hread, Option.bind_some, Trie.deletion]
      dsimp only
      by_cases hp : pointer c = none
      · rw [if_pos hp, if_pos ((isNull_iff _).mpr (hnull.mp hp))]
        exact ⟨m, _, _, rfl, hself, .refl _ m⟩
      · rw [if_neg hp, if_neg (fun hn => hp (hnull.mpr ((isNull_iff _).mp hn)))]
        obtain ⟨m₁, child, cells₁, hdel, hholds, hm⟩ := ih (hchild c)
        obtain ⟨hcurr₁, hread₁⟩ := hm.read_eq hread (hcurr c)
        obtain ⟨m₂, hw, hread₂, hm₂⟩ :=
          Heap.write_of_read hread₁ (Node.setCharacter ⟨isLeaf, pointer⟩ c child)
        have hholds₂ : Holds m₂ child ((character c).deletion key).2 cells₁ := by
          refine hholds.congr fun a ha => ?_
          obtain ⟨node, hnode⟩ := hholds.live ha
          have hne : a ∉ ({curr} : Finset Nat) := by
            rw [Finset.mem_singleton]
            rintro rfl
            exact hcurr₁ ha
          exact (hm₂.read_eq hnode hne).2.trans hnode.symm
        have hmoves : Heap.Moves (Insert.insert curr (cells c)) (Insert.insert curr cells₁) m m₂ := by
          have hthen := hm₂.frame cells₁
          rw [Finset.union_comm] at hthen
          rw [Finset.insert_eq, Finset.insert_eq]
          exact (hm.frame {curr}).trans hthen
        obtain ⟨hcurrent, hmoves₂⟩ :=
          Holds.replace hchild hcurr hdisjoint hmoves hread₂ hholds₂ hcurr₁
        rw [hdel, Option.bind_some]
        dsimp only
        rw [hread₁, Option.bind_some, hw, Option.bind_some, hcurrent.haveChildren_eq hread₂]
        dsimp only
        by_cases hr : (((character c).deletion key).1 && !isLeaf) = true
        · rw [if_pos hr, if_pos hr]
          by_cases hh : Trie.haveChildren
              (.node isLeaf (Function.update character c ((character c).deletion key).2)) = true
          · rw [if_pos hh, if_pos hh]
            exact ⟨m₂, _, _, rfl, hcurrent, hmoves₂⟩
          · rw [if_neg hh, if_neg hh]
            obtain ⟨m', hd, hm'⟩ := hcurrent.delete hh
            exact ⟨m', none, ∅, congrArg (Option.map _) hd, .null, hmoves₂.trans hm'⟩
        · rw [if_neg hr, if_neg hr]
          exact ⟨m₂, _, _, rfl, hcurrent, hmoves₂⟩

/-- `search` reads nodes of the trie only, and answers for it, if there is one. -/
theorem search_holds (h : Holds m pointer t cells) (key : Key) :
    m.search pointer key = pointer.map fun _ => t.search key := by
  induction key generalizing pointer t cells with
  | nil =>
    cases h with
    | null => rfl
    | node hread => rw [search, hread, Option.map_some, Option.map_some, Trie.search]
  | cons c key ih =>
    cases h with
    | null => rfl
    | @node curr isLeaf pointer character cells hread hchild =>
      rw [search, hread, Option.bind_some, Option.map_some, Trie.search]
      have hc := hchild c
      cases hp : pointer c with
      | none =>
        rw [hp] at hc
        rw [if_pos ((isNull_iff _).mpr (hc.none_iff.mp rfl)), ← (hchild star).isSome_eq]
        simp only [hp]
      | some child =>
        rw [hp] at hc
        have hnull : ¬ (character c).isNull = true := fun hn =>
          Option.some_ne_none child (hc.none_iff.mpr ((isNull_iff _).mp hn))
        rw [if_neg hnull]
        simp only [hp]
        exact ih hc

end Memory

/-! The nodes of a trie, by the way to them. -/

def paths : Trie → Finset Key
  | null => ∅
  | node _ character => Insert.insert []
    (Finset.univ.biUnion fun c => (paths (character c)).map ⟨List.cons c, List.cons_injective⟩)

theorem nil_mem_paths (t : Trie) : [] ∈ t.paths ↔ t ≠ null := by
  cases t <;> simp [paths]

theorem cons_mem_paths (isLeaf : Bool) (character : Fin charSize → Trie) (c : Fin charSize)
    (path : Key) : c :: path ∈ paths (node isLeaf character) ↔ path ∈ paths (character c) := by
  simp [paths]

theorem Pruned.mem_paths_iff {t : Trie} (h : Pruned t) (path : Key) :
    path ∈ t.paths ↔ HasPrefix t.keys path := by
  induction path generalizing t with
  | nil => rw [nil_mem_paths, hasPrefix_nil, h.nonempty_iff]
  | cons c path ih =>
    cases t with
    | null => simp [paths, HasPrefix]
    | node isLeaf character =>
      rw [cons_mem_paths, hasPrefix_cons, after_keys]
      exact ih (h.2 c)

/-- Every prefix of a key has a node, and in a tidy trie nothing but these and the root has one. -/
theorem Tidy.mem_paths_iff {t : Trie} (h : Tidy t) (path : Key) :
    path ∈ t.paths ↔ HasPrefix t.keys path ∨ path = [] ∧ t ≠ null := by
  cases path with
  | nil =>
    rw [nil_mem_paths]
    refine ⟨fun hn => .inr ⟨rfl, hn⟩, ?_⟩
    rintro (hk | ⟨-, hn⟩)
    · rintro rfl
      simp at hk
    · exact hn
  | cons c path =>
    rw [or_iff_left (fun he => List.cons_ne_nil _ _ he.1)]
    cases t with
    | null => simp [paths, HasPrefix]
    | node isLeaf character =>
      rw [cons_mem_paths, hasPrefix_cons, after_keys]
      exact (h c).mem_paths_iff path

/-- A node in memory for each. -/
theorem Memory.Holds.card_eq {m : Memory} {pointer : Option Nat} {t : Trie} {cells : Finset Nat}
    (h : Holds m pointer t cells) : cells.card = t.paths.card := by
  induction h with
  | null => rfl
  | @node curr isLeaf pointer character cells hread hchild hcurr hdisjoint ih =>
    have hnil : [] ∉ Finset.univ.biUnion fun c =>
        (paths (character c)).map ⟨List.cons c, List.cons_injective⟩ := by simp
    have hout : curr ∉ Finset.univ.biUnion cells := by simpa using hcurr
    have hpaths (c d : Fin charSize) (hne : c ≠ d) :
        Disjoint ((paths (character c)).map ⟨List.cons c, List.cons_injective⟩)
          ((paths (character d)).map ⟨List.cons d, List.cons_injective⟩) := by
      rw [Finset.disjoint_left]
      intro path hc hd
      obtain ⟨p, -, rfl⟩ := Finset.mem_map.mp hc
      obtain ⟨q, -, he⟩ := Finset.mem_map.mp hd
      exact hne (List.cons.inj he).1.symm
    rw [paths, Finset.card_insert_of_notMem hnil, Finset.card_insert_of_notMem hout,
      Finset.card_biUnion fun c _ d _ hne => hdisjoint c d hne,
      Finset.card_biUnion fun c _ d _ hne => hpaths c d hne]
    refine congrArg (· + 1) (Finset.sum_congr rfl fun c _ => ?_)
    rw [ih c, Finset.card_map]

/-! The calls of a session, in memory. -/

/-- The caller's pointer, and all there is in memory. -/
structure Process where
  root : Option Nat
  memory : Memory

namespace Process

/-- `new Trie()`. -/
def start : Process := ⟨some (Heap.empty.new Node.fresh).2, (Heap.empty.new Node.fresh).1⟩

/-- Where the pointer is null the caller starts a fresh root. -/
def current (self : Process) : Memory × Nat :=
  match self.root with
  | some root => (self.memory, root)
  | none => self.memory.new .fresh

def step : Step Process Call := fun self call =>
  let (memory, root) := self.current
  match call with
  | .insert key => (memory.insert root key).map fun memory => ⟨some root, memory⟩
  | .deletion key =>
    (memory.deletion (some root) key).map fun (memory, _, root) => ⟨root, memory⟩

/-- Memory holds the trie of the session, and nothing else. -/
def Refines (self : Process) (s : Session) : Prop :=
  ∃ cells, Memory.Holds self.memory self.root s.root cells ∧
    ∀ a, a ∉ cells → self.memory.read a = none

theorem refines_start : Refines start Session.start := by
  refine ⟨{0}, Memory.holds_fresh (Heap.read_new _ _), fun a ha => ?_⟩
  exact (Heap.moves_new Heap.empty Node.fresh).others a (Finset.notMem_empty a) ha

theorem Refines.current {p : Process} {s : Session} (h : p.Refines s) :
    ∃ cells, Memory.Holds p.current.1 (some p.current.2) s.current cells ∧
      ∀ a, a ∉ cells → p.current.1.read a = none := by
  obtain ⟨cells, hholds, hrest⟩ := h
  match hp : p.root with
  | some root =>
    rw [hp] at hholds
    have hne : s.root ≠ null := hholds.none_iff.not.mp (Option.some_ne_none root)
    rw [Process.current, hp, Session.current, orNew_of_ne_null hne]
    exact ⟨cells, hholds, hrest⟩
  | none =>
    rw [hp] at hholds
    have hnew := Heap.moves_new p.memory Node.fresh
    rw [Process.current, hp, Session.current, hholds.none_iff.mp rfl]
    refine ⟨{p.memory.next}, Memory.holds_fresh (Heap.read_new _ _), fun a ha => ?_⟩
    rw [hnew.others a (Finset.notMem_empty a) ha, hrest a]
    rw [hholds.cells_of_none]
    exact Finset.notMem_empty a

/-- The step lemma: no call faults, and none leaves or loses a node. -/
theorem Refines.step {p : Process} {s : Session} (h : p.Refines s) (call : Call) :
    ∃ p', Process.step p call = some p' ∧ p'.Refines (s.step call) := by
  obtain ⟨cells, hholds, hrest⟩ := h.current
  have hall {m' : Memory} {cells' : Finset Nat}
      (hm : Heap.Moves cells cells' p.current.1 m') (a : Nat) (ha : a ∉ cells') : m'.read a = none := by
    by_cases hin : a ∈ cells
    · exact hm.freed a hin ha
    · rw [hm.others a hin ha, hrest a hin]
  cases call with
  | insert key =>
    obtain ⟨m', cells', hins, hholds', hm⟩ := Memory.insert_holds hholds key
    exact ⟨⟨_, m'⟩, congrArg (Option.map _) hins, cells', hholds', hall hm⟩
  | deletion key =>
    obtain ⟨m', root, cells', hdel, hholds', hm⟩ := Memory.deletion_holds hholds key
    exact ⟨⟨root, m'⟩, congrArg (Option.map _) hdel, cells', hholds', hall hm⟩

theorem refines_run (calls : List Call) : ∃ p, Process.step.run start calls = some p ∧
    p.Refines (Session.run calls) := by
  induction calls using List.reverseRecOn with
  | nil => exact ⟨start, rfl, refines_start⟩
  | append_singleton calls call ih =>
    obtain ⟨p, hp, hrefines⟩ := ih
    obtain ⟨p', hp', hrefines'⟩ := hrefines.step call
    refine ⟨p', Step.run_append_eq_some.mpr ⟨p, hp, Step.run_cons_eq_some.mpr ⟨p', hp', rfl⟩⟩, ?_⟩
    rwa [Session.run, List.foldl_append]

/-- In every history of calls: no call reads, writes or deletes memory that is not there, the nodes
in memory are those that a prefix of a key or the root needs, one for each, and `search`, where the
root is not null, answers as the trie of the history does. -/
theorem memory_run (calls : List Call) : ∃ p, Process.step.run start calls = some p ∧
    (∃ (live : Finset Nat) (paths : Finset Key),
      (∀ a, a ∈ live ↔ p.memory.read a ≠ none) ∧ live.card = paths.card ∧ ∀ path, path ∈ paths ↔
        HasPrefix ((Session.run calls).keys : Set Key) path ∨ path = [] ∧ p.root ≠ none) ∧
    ∀ q, p.memory.search p.root q = p.root.map fun _ => (Session.run calls).root.search q := by
  obtain ⟨p, hp, cells, hholds, hrest⟩ := refines_run calls
  obtain ⟨hkeys, htidy⟩ := Session.holds_run calls
  refine ⟨p, hp, ⟨cells, (Session.run calls).root.paths, fun a => ⟨fun ha => ?_, fun ha => ?_⟩,
    hholds.card_eq, fun path => ?_⟩, Memory.search_holds hholds⟩
  · obtain ⟨node, hnode⟩ := hholds.live ha
    rw [hnode]
    exact Option.some_ne_none node
  · by_contra hna
    exact ha (hrest a hna)
  · rw [htidy.mem_paths_iff, hkeys, Ne, Ne, hholds.none_iff]

end Process
end AeProxy.Trie

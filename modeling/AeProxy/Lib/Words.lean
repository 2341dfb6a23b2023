import Mathlib.Data.Set.Insert

/-! Sets of words, read letter by letter: which prefixes start a word, and where a query leaves
the words of the set. -/
namespace AeProxy.Lib
variable {α : Type*}

/-- The words of the set behind a first letter. -/
def after (K : Set (List α)) (c : α) : Set (List α) := {w | c :: w ∈ K}

@[simp] theorem mem_after (K : Set (List α)) (c : α) (w : List α) :
    w ∈ after K c ↔ c :: w ∈ K := Iff.rfl

/-- Some word of the set starts with `p`. -/
def HasPrefix (K : Set (List α)) (p : List α) : Prop := ∃ k ∈ K, p <+: k

@[simp] theorem hasPrefix_nil (K : Set (List α)) : HasPrefix K [] ↔ K.Nonempty :=
  exists_congr fun k => and_iff_left (List.nil_prefix (l := k))

@[simp] theorem hasPrefix_cons (K : Set (List α)) (c : α) (p : List α) :
    HasPrefix K (c :: p) ↔ HasPrefix (after K c) p := by
  constructor
  · rintro ⟨k, hk, t, rfl⟩
    exact ⟨p ++ t, hk, List.prefix_append p t⟩
  · rintro ⟨w, hw, hp⟩
    exact ⟨c :: w, hw, (List.prefix_cons_inj c).mpr hp⟩

theorem HasPrefix.nonempty {K : Set (List α)} {p : List α} (h : HasPrefix K p) : K.Nonempty :=
  h.imp fun _ hk => hk.1

theorem HasPrefix.of_prefix {K : Set (List α)} {p q : List α} (h : HasPrefix K q) (hp : p <+: q) :
    HasPrefix K p :=
  h.imp fun _ hk => ⟨hk.1, hp.trans hk.2⟩

/-- `m` is the longest prefix of `q` that starts a word of the set. -/
structure LongestPrefix (K : Set (List α)) (q m : List α) : Prop where
  isPrefix : m <+: q
  starts : HasPrefix K m
  longest : ∀ p, p <+: q → HasPrefix K p → p <+: m

theorem longestPrefix_cons_of_nonempty {K : Set (List α)} {c : α} (h : (after K c).Nonempty)
    (q m : List α) :
    LongestPrefix K (c :: q) m ↔ ∃ n, m = c :: n ∧ LongestPrefix (after K c) q n := by
  constructor
  · intro hm
    have hc := hm.longest [c] (List.prefix_append [c] q) (by simpa using h)
    obtain ⟨n, rfl⟩ := hc
    refine ⟨n, rfl, (List.prefix_cons_inj c).mp hm.isPrefix, (hasPrefix_cons K c n).mp hm.starts,
      fun p hp hk => ?_⟩
    have hl := hm.longest (c :: p) ((List.prefix_cons_inj c).mpr hp) ((hasPrefix_cons K c p).mpr hk)
    exact (List.prefix_cons_inj c).mp hl
  · rintro ⟨n, rfl, hn⟩
    refine ⟨(List.prefix_cons_inj c).mpr hn.isPrefix, (hasPrefix_cons K c n).mpr hn.starts,
      fun p hp hk => ?_⟩
    cases p with
    | nil => exact List.nil_prefix
    | cons d p =>
      obtain ⟨rfl, hpq⟩ := List.cons_prefix_cons.mp hp
      exact (List.prefix_cons_inj d).mpr (hn.longest p hpq ((hasPrefix_cons K d p).mp hk))

theorem longestPrefix_cons_of_empty {K : Set (List α)} {c : α} (h : ¬ (after K c).Nonempty)
    (q m : List α) : LongestPrefix K (c :: q) m ↔ m = [] ∧ K.Nonempty := by
  constructor
  · intro hm
    cases m with
    | nil => exact ⟨rfl, hm.starts.nonempty⟩
    | cons d m =>
      obtain ⟨rfl, _⟩ := List.cons_prefix_cons.mp hm.isPrefix
      exact absurd ((hasPrefix_cons K d m).mp hm.starts).nonempty h
  · rintro ⟨rfl, hK⟩
    refine ⟨List.nil_prefix, (hasPrefix_nil K).mpr hK, fun p hp hk => ?_⟩
    cases p with
    | nil => exact List.nil_prefix
    | cons d p =>
      obtain ⟨rfl, _⟩ := List.cons_prefix_cons.mp hp
      exact absurd ((hasPrefix_cons K d p).mp hk).nonempty h

/-- Read along the words of the set, the query leaves them at a point where a word could go on
with `x`. -/
def FallsOff (K : Set (List α)) (x : α) (q : List α) : Prop :=
  ¬ HasPrefix K q ∧ ∃ m, LongestPrefix K q m ∧ HasPrefix K (m ++ [x])

theorem not_fallsOff_nil (K : Set (List α)) (x : α) : ¬ FallsOff K x [] := by
  rintro ⟨hK, m, hm, _⟩
  exact hK ((hasPrefix_nil K).mpr hm.starts.nonempty)

theorem fallsOff_cons_of_nonempty {K : Set (List α)} {c : α} (h : (after K c).Nonempty) (x : α)
    (q : List α) : FallsOff K x (c :: q) ↔ FallsOff (after K c) x q := by
  rw [FallsOff, FallsOff, hasPrefix_cons]
  refine and_congr_right fun _ => ⟨?_, ?_⟩
  · rintro ⟨m, hm, hx⟩
    obtain ⟨n, rfl, hn⟩ := (longestPrefix_cons_of_nonempty h q m).mp hm
    exact ⟨n, hn, (hasPrefix_cons K c _).mp hx⟩
  · rintro ⟨n, hn, hx⟩
    exact ⟨c :: n, (longestPrefix_cons_of_nonempty h q _).mpr ⟨n, rfl, hn⟩,
      (hasPrefix_cons K c _).mpr hx⟩

theorem fallsOff_cons_of_empty {K : Set (List α)} {c : α} (h : ¬ (after K c).Nonempty) (x : α)
    (q : List α) : FallsOff K x (c :: q) ↔ (after K x).Nonempty := by
  constructor
  · rintro ⟨_, m, hm, hx⟩
    obtain ⟨rfl, _⟩ := (longestPrefix_cons_of_empty h q m).mp hm
    simpa using hx
  · intro hx
    refine ⟨fun hq => h ((hasPrefix_cons K c q).mp hq).nonempty, [],
      (longestPrefix_cons_of_empty h q []).mpr ⟨rfl, ?_⟩, by simpa using hx⟩
    exact hx.elim fun w hw => ⟨x :: w, hw⟩

/-- The point where the query leaves: behind `m` a word goes on with `x` and none with the
query's next letter. -/
theorem fallsOff_iff (K : Set (List α)) (x : α) (q : List α) : FallsOff K x q ↔
    ∃ m c t, q = m ++ c :: t ∧ HasPrefix K (m ++ [x]) ∧ ¬ HasPrefix K (m ++ [c]) := by
  constructor
  · rintro ⟨hq, m, hm, hx⟩
    obtain ⟨t, rfl⟩ := hm.isPrefix
    cases t with
    | nil => exact absurd ((List.append_nil m).symm ▸ hm.starts) hq
    | cons c t =>
      refine ⟨m, c, t, rfl, hx, fun hc => ?_⟩
      have hl := (hm.longest (m ++ [c]) ⟨t, by simp⟩ hc).length_le
      exact absurd hl (by simp)
  · rintro ⟨m, c, t, rfl, hx, hc⟩
    have hpre : m ++ [c] <+: m ++ c :: t := ⟨t, by simp⟩
    refine ⟨fun hq => hc (hq.of_prefix hpre), m, ⟨List.prefix_append _ _,
      hx.of_prefix (List.prefix_append _ _), fun p hp hk => ?_⟩, hx⟩
    rcases List.prefix_or_prefix_of_prefix hp hpre with h | h
    · exact (List.prefix_concat_iff.mp h).resolve_left fun he => hc (he ▸ hk)
    · exact absurd (hk.of_prefix h) hc

end AeProxy.Lib

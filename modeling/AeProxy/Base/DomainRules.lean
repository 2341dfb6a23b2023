import Mathlib
import AeProxy.Base.TrieHistory

/-! Domain rules: exact domains and `*` with a suffix, inserted back to front. `search` looks for
a star only where the query leaves the trie, so a longer rule hides the star it walks past. -/
namespace AeProxy.Trie
open Lib

/-- A 7-bit text without a star. -/
structure Domain where
  text : Key
  plain : star ∉ text
  deriving DecidableEq

inductive Rule where
  | exact (domain : Domain)
  | wildcard (suffix : Domain)
  deriving DecidableEq

/-- A line of the rules file. -/
def Rule.text : Rule → Key
  | exact domain => domain.text
  | wildcard suffix => star :: suffix.text

/-- The rules, reversed and inserted into a fresh root. -/
def build (rules : List Rule) : Trie := insertAll (rules.map fun r => r.text.reverse)

/-- Some wildcard rule names a proper suffix of the domain. -/
def WildcardMatch (rules : List Rule) (d : Domain) : Prop :=
  ∃ suffix, .wildcard suffix ∈ rules ∧ ∃ x, x ≠ [] ∧ d.text = x ++ suffix.text

/-- The domain is a rule, or a wildcard rule matches it. -/
def Matches (rules : List Rule) (d : Domain) : Prop :=
  (∃ r ∈ rules, r.text = d.text) ∨ WildcardMatch rules d

/-- No rule ends in the suffix with the domain's letter in front of it. -/
def Unshadowed (rules : List Rule) (d : Domain) : Prop :=
  ∃ suffix, .wildcard suffix ∈ rules ∧ ∃ x c, d.text = x ++ c :: suffix.text ∧
    ∀ r ∈ rules, ¬ c :: suffix.text <:+ r.text

theorem Unshadowed.wildcardMatch {rules : List Rule} {d : Domain} (h : Unshadowed rules d) :
    WildcardMatch rules d := by
  obtain ⟨suffix, hs, x, c, hd, _⟩ := h
  exact ⟨suffix, hs, x ++ [c], by simp, by simp [hd]⟩

section
variable (rules : List Rule)

theorem mem_keys_build (key : Key) :
    key ∈ (build rules).keys ↔ ∃ r ∈ rules, r.text = key.reverse := by
  have h := (Session.settled_insertAll (rules.map fun r => r.text.reverse)).keys_root
  rw [build, h]
  simp [List.reverse_eq_iff]

theorem hasPrefix_build (p : Key) :
    HasPrefix (build rules).keys p ↔ ∃ r ∈ rules, p.reverse <:+ r.text := by
  constructor
  · rintro ⟨key, hkey, hp⟩
    obtain ⟨r, hr, he⟩ := (mem_keys_build rules key).mp hkey
    exact ⟨r, hr, he ▸ List.reverse_suffix.mpr hp⟩
  · rintro ⟨r, hr, hp⟩
    refine ⟨r.text.reverse, (mem_keys_build rules _).mpr ⟨r, hr, by simp⟩, ?_⟩
    exact List.reverse_suffix.mp (by simpa using hp)

/-- A star with a star-free text behind it ends a rule only as a whole wildcard rule. -/
theorem star_suffix_iff (r : Rule) (p : Key) : star :: p <:+ r.text ↔
    ∃ suffix, r = .wildcard suffix ∧ suffix.text = p := by
  constructor
  · intro h
    cases r with
    | exact domain => exact absurd (h.subset (by simp)) domain.plain
    | wildcard suffix =>
      rcases List.suffix_cons_iff.mp h with he | hs
      · exact ⟨suffix, rfl, (List.cons.inj he).2.symm⟩
      · exact absurd (hs.subset (by simp)) suffix.plain
  · rintro ⟨suffix, rfl, rfl⟩
    exact List.suffix_refl _

theorem fallsOff_build (d : Domain) :
    FallsOff (build rules).keys star d.text.reverse ↔ Unshadowed rules d := by
  rw [fallsOff_iff]
  constructor
  · rintro ⟨m, c, t, hd, hx, hc⟩
    obtain ⟨r, hr, hs⟩ := (hasPrefix_build rules _).mp hx
    rw [List.reverse_append, List.reverse_singleton, List.singleton_append] at hs
    obtain ⟨suffix, rfl, hm⟩ := (star_suffix_iff r _).mp hs
    refine ⟨suffix, hr, t.reverse, c, ?_, fun r' hr' hs' => hc ?_⟩
    · rw [hm, ← List.reverse_inj, hd]
      simp
    · exact (hasPrefix_build rules _).mpr ⟨r', hr', by simpa [hm] using hs'⟩
  · rintro ⟨suffix, hr, x, c, hd, hc⟩
    refine ⟨suffix.text.reverse, c, x.reverse, by simp [hd], ?_, fun h => ?_⟩
    · exact (hasPrefix_build rules _).mpr ⟨_, hr, by simp [Rule.text]⟩
    · obtain ⟨r, hr', hs⟩ := (hasPrefix_build rules _).mp h
      exact hc r hr' (by simpa using hs)

theorem search_build (d : Domain) : (build rules).search d.text.reverse = true ↔
    (∃ r ∈ rules, r.text = d.text) ∨ Unshadowed rules d := by
  rw [build, (Session.settled_insertAll _).tidy.search_iff, ← build, mem_keys_build, fallsOff_build,
    List.reverse_reverse]

/-- `search` decides the rules exactly for the domains that are a rule themselves, that no wildcard
matches, or that some wildcard matches with no longer rule going on along the domain. -/
theorem search_build_iff (d : Domain) :
    ((build rules).search d.text.reverse = true ↔ Matches rules d) ↔
      (WildcardMatch rules d → (∃ r ∈ rules, r.text = d.text) ∨ Unshadowed rules d) := by
  rw [search_build, Matches]
  constructor
  · exact fun h hw => h.mpr (Or.inr hw)
  · intro h
    exact ⟨Or.imp_right Unshadowed.wildcardMatch, fun hm => hm.elim Or.inl h⟩

end

/-- With `*.b` alone `a.b` is found; with `ca.b` added, which it is not, `a.b` is lost. -/
theorem search_build_shadowed :
    let domain : Domain := ⟨[97, 46, 98], by decide⟩
    let wildcard : Rule := .wildcard ⟨[46, 98], by decide⟩
    let longer : Rule := .exact ⟨[99, 97, 46, 98], by decide⟩
    (build [wildcard]).search domain.text.reverse = true ∧
      ¬ ((build [wildcard, longer]).search domain.text.reverse = true ↔
        Matches [wildcard, longer] domain) := by
  intro domain wildcard longer
  have hm : Matches [wildcard, longer] domain :=
    Or.inr ⟨⟨[46, 98], by decide⟩, by simp [wildcard], [97], by simp, rfl⟩
  refine ⟨by decide, fun h => absurd (h.mpr hm) (by decide)⟩

end AeProxy.Trie

import FcTpms.Application.Version
import Mathlib.Order.PiLex
import Mathlib.Order.WellFounded

/-!
# The order of versions

Versions are compared as the sequences of their components, in the lexicographic order, with zeros
after the last component. The latest version is one that no other exceeds.
-/

namespace FcTpms.RemoteTpmsApplication

open FcTpms.Text

/-- What `Comparable` says of a result, for two values of an order. -/
def Compares {α : Type} [LT α] (c : ℤ) (x y : α) : Prop :=
  (c < 0 ↔ x < y) ∧ (c = 0 ↔ x = y) ∧ (0 < c ↔ y < x)

/-- The component of a version at a position, zero where it has none. -/
def Version.component (v : Version) (i : ℕ) : ℕ :=
  Nat.ofDigitChars 10 ((v.version.splitOn '.')[i]?.getD []) 0

/-- The components of a version, in lexicographic order. -/
def Version.components (v : Version) : Lex (ℕ → ℕ) := toLex v.component

/-- A version whose components all fit in a Java `int`. -/
structure SmallVersion extends Version where
  small : ∀ i, toVersion.component i < 2 ^ 31

/-- A version is small if all its parts are; past the parts the components are zero. -/
def SmallVersion.ofParts (text : List Char) (format : versionFormat.rmatch text = true)
    (parts :
      (text.splitOn '.').all (fun one => decide (Nat.ofDigitChars 10 one 0 < 2 ^ 31)) = true) :
    SmallVersion where
  version := text
  format := format
  small := by
    intro i
    unfold Version.component
    cases found : (text.splitOn '.')[i]? with
    | none => simp
    | some one =>
      have fits := List.all_eq_true.mp parts one (List.mem_of_getElem? found)
      exact of_decide_eq_true fits

/-- The parts of a version are its texts between points; none of them is empty. -/
theorem splitAtPoints_version (v : Version) : splitAtPoints v.version = v.version.splitOn '.' := by
  have parts := (versionFormat_iff v.version).mp v.format
  unfold splitAtPoints
  by_cases point : '.' ∈ v.version
  · rw [if_pos point, List.rdropWhile_eq_self_iff]
    intro nonempty last
    have part := parts _ (List.getLast_mem nonempty)
    exact part.1 (List.isEmpty_iff.mp last)
  · rw [if_neg point]
    have single : (['.'].intercalate [v.version]).splitOn '.' = [v.version] :=
      List.splitOn_intercalate '.' (by simpa using point) (by simp)
    rw [← single]
    simp [List.intercalate]

/-- A part within the array is read as the component there, any other as zero. -/
theorem part_component (v : SmallVersion) (i : ℕ) :
    part (splitAtPoints v.version) i = .ok (v.component i : ℤ) := by
  have small := v.small i
  rw [splitAtPoints_version]
  unfold part
  unfold Version.component at small ⊢
  cases found : (v.version.splitOn '.')[i]? with
  | none => simp
  | some text =>
    have parts := (versionFormat_iff v.version).mp v.format text (List.mem_of_getElem? found)
    rw [found] at small
    have value := parseInt_digits parts.1 parts.2 (by simpa using small)
    simp [value]

/-- Past its last part a version has the component zero. -/
theorem Version.component_past (v : Version) {i : ℕ} (past : (splitAtPoints v.version).length ≤ i) :
    v.component i = 0 := by
  rw [splitAtPoints_version] at past
  rw [component, List.getElem?_eq_none past]
  simp

section Comparison

variable {α : Type} [LinearOrder α] {x y z : α} {c d e : ℤ}

theorem compares_of_lt (below : x < y) : Compares (-1) x y := by
  have distinct := ne_of_lt below
  have not_above := not_lt_of_gt below
  simp [Compares, below, distinct, not_above]

theorem compares_of_gt (above : y < x) : Compares 1 x y := by
  have distinct := (ne_of_lt above).symm
  have not_below := not_lt_of_gt above
  simp [Compares, above, distinct, not_below]

theorem compares_of_eq (same : x = y) : Compares 0 x y := by
  simp [Compares, same]

theorem Compares.le (result : Compares c x y) : c ≤ 0 ↔ x ≤ y := by
  rw [← not_lt, result.2.2, not_lt]

theorem Compares.ge (result : Compares c x y) : 0 ≤ c ↔ y ≤ x := by
  rw [← not_lt, result.1, not_lt]

/-- The results of the two comparisons of two values have opposite signs. -/
theorem Compares.sign_swap (result : Compares c x y) (swapped : Compares d y x) :
    d.sign = -c.sign := by
  rcases lt_trichotomy x y with below | same | above
  · rw [Int.sign_eq_neg_one_of_neg (result.1.mpr below),
      Int.sign_eq_one_of_pos (swapped.2.2.mpr below)]
    rfl
  · rw [result.2.1.mpr same, swapped.2.1.mpr same.symm]
    rfl
  · rw [Int.sign_eq_one_of_pos (result.2.2.mpr above),
      Int.sign_eq_neg_one_of_neg (swapped.1.mpr above)]

end Comparison

/-- The loop of `compareTo` finds the first components that differ, and stops there. -/
theorem compareParts_compares (u v : SmallVersion) (n i : ℕ)
    (before : ∀ j < i, u.component j = v.component j)
    (after : ∀ j, i + n ≤ j → u.component j = v.component j) :
    ∃ c, compareParts (splitAtPoints u.version) (splitAtPoints v.version) (List.range' i n) =
        .ok c ∧
      Compares c u.components v.components := by
  -- induction on the positions that are left; up to here the components agree
  induction n generalizing i with
  | zero =>
    have same : u.components = v.components := by
      apply congrArg toLex
      funext j
      rcases Nat.lt_or_ge j i with early | late
      · exact before j early
      · exact after j (by omega)
    exact ⟨0, rfl, compares_of_eq same⟩
  | succ n hypothesis =>
    rw [List.range'_succ, compareParts, part_component, part_component]
    rcases lt_trichotomy (u.component i) (v.component i) with below | same | above
    · have ordered : u.components < v.components := ⟨i, before, below⟩
      have less : (u.component i : ℤ) < v.component i := by exact_mod_cast below
      refine ⟨-1, ?_, compares_of_lt ordered⟩
      simp [bind, Except.bind, less]
    · have through : ∀ j < i + 1, u.component j = v.component j := by
        intro j early
        rcases Nat.lt_succ_iff_lt_or_eq.mp early with earlier | here
        · exact before j earlier
        · rw [here]
          exact same
      obtain ⟨c, found, result⟩ := hypothesis (i + 1) through fun j late => after j (by omega)
      refine ⟨c, ?_, result⟩
      simp [bind, Except.bind, same, found]
    · have ordered : v.components < u.components :=
        ⟨i, fun j early => (before j early).symm, above⟩
      have more : (v.component i : ℤ) < u.component i := by exact_mod_cast above
      have not_less : ¬ (u.component i : ℤ) < v.component i := by omega
      refine ⟨1, ?_, compares_of_gt ordered⟩
      simp [bind, Except.bind, more, not_less]

/-- `compareTo` compares the components. -/
theorem compareTo_compares (u v : SmallVersion) :
    ∃ c, u.compareTo (some v.toVersion) = .ok c ∧ Compares c u.components v.components := by
  rw [Version.compareTo, List.range_eq_range']
  apply compareParts_compares u v
  · intro j early
    omega
  · intro j late
    have long : max (splitAtPoints u.version).length (splitAtPoints v.version).length ≤ j := by
      omega
    rw [Version.component_past _ (le_trans (le_max_left _ _) long),
      Version.component_past _ (le_trans (le_max_right _ _) long)]

/-- A version is at most another one by the comparison of the source. -/
def SmallVersion.AtMost (u v : SmallVersion) : Prop :=
  ∃ c, u.compareTo (some v.toVersion) = .ok c ∧ c ≤ 0

/-- At most, by the comparison, is at most by the components. -/
theorem SmallVersion.atMost_iff (u v : SmallVersion) :
    u.AtMost v ↔ u.components ≤ v.components := by
  obtain ⟨c, compared, result⟩ := compareTo_compares u v
  unfold AtMost
  rw [compared]
  constructor
  · rintro ⟨d, same, below⟩
    rw [← Except.ok.inj same] at below
    exact result.le.mp below
  · intro below
    exact ⟨c, rfl, result.le.mpr below⟩

/-- A version compares as equal to itself. -/
theorem compareTo_self (u : SmallVersion) : u.compareTo (some u.toVersion) = .ok 0 := by
  obtain ⟨c, compared, result⟩ := compareTo_compares u u
  rw [compared, result.2.1.mpr rfl]

/-- `equals` agrees with the comparison, wherever on the heap the two versions stand. -/
theorem equals_iff (heap : ℕ → SmallVersion) (self address : ℕ) :
    ∃ same c,
      (heap self).equals (fun there => .version (heap there).toVersion) self (some address) =
        .ok same ∧
      (heap self).compareTo (some (heap address).toVersion) = .ok c ∧ (same = true ↔ c = 0) := by
  by_cases identical : self = address
  · refine ⟨true, 0, ?_, ?_, by simp⟩
    · rw [Version.equals, if_pos identical]
    · rw [identical]
      exact compareTo_self _
  · obtain ⟨c, compared, _⟩ := compareTo_compares (heap self) (heap address)
    refine ⟨decide (c = 0), c, ?_, compared, decide_eq_true_iff⟩
    simp [Version.equals, identical, compared, bind, Except.bind]

/-- The constructor takes the text of a version. -/
theorem Version.new_version (v : Version) : Version.new (some v.version) = .ok v := by
  rw [Version.new, dif_pos v.format]

/-- The loop ends with a version of those it has seen, and none of them is above it. -/
theorem latestVersion_greatest (first : SmallVersion) (rest : List SmallVersion) :
    ∃ latest ∈ first :: rest,
      latestVersion first.version (rest.map fun v => some v.version) = .ok latest.version ∧
      ∀ v ∈ first :: rest, v.AtMost latest := by
  -- induction on the versions still to come; the latest so far is among those seen and above them
  induction rest generalizing first with
  | nil =>
    refine ⟨first, List.mem_singleton.mpr rfl, rfl, ?_⟩
    intro v member
    rw [List.mem_singleton.mp member, SmallVersion.atMost_iff]
  | cons v rest hypothesis =>
    obtain ⟨c, compared, result⟩ := compareTo_compares first v
    have step : latestVersion first.version ((v :: rest).map fun v => some v.version) =
        latestVersion (if 0 ≤ c then first.version else v.version)
          (rest.map fun v => some v.version) := by
      simp [latestVersion, Version.new_version, compared, bind, Except.bind]
    rw [step]
    by_cases keeps : 0 ≤ c
    · obtain ⟨latest, member, chosen, above⟩ := hypothesis first
      rw [if_pos keeps]
      refine ⟨latest, ?_, chosen, ?_⟩
      · simp only [List.mem_cons] at member ⊢
        tauto
      · intro w listed
        rcases List.mem_cons.mp listed with same | later
        · rw [same]
          exact above first List.mem_cons_self
        · rcases List.mem_cons.mp later with same | last
          · have below := (first.atMost_iff latest).mp (above first List.mem_cons_self)
            rw [same, SmallVersion.atMost_iff]
            exact le_trans (result.ge.mp keeps) below
          · exact above w (List.mem_cons_of_mem _ last)
    · obtain ⟨latest, member, chosen, above⟩ := hypothesis v
      rw [if_neg keeps]
      refine ⟨latest, List.mem_cons_of_mem _ member, chosen, ?_⟩
      intro w listed
      rcases List.mem_cons.mp listed with same | later
      · have below := (v.atMost_iff latest).mp (above v List.mem_cons_self)
        rw [same, SmallVersion.atMost_iff]
        exact le_trans (le_of_lt (result.1.mp (by omega))) below
      · exact above w later

/-- The response of the server comes to its latest version, and says whether it is above the one
that is installed. -/
theorem handleServerResponse_latest (first : SmallVersion) (rest : List SmallVersion)
    (installed : SmallVersion) : ∃ latest ∈ first :: rest, ∃ newer,
      handleServerResponse (some ((first :: rest).map fun v => some v.version))
        (some (some installed.version)) = .ok (some (latest.version, newer)) ∧
      (∀ v ∈ first :: rest, v.AtMost latest) ∧ (newer = true ↔ ¬ latest.AtMost installed) := by
  obtain ⟨latest, member, chosen, above⟩ := latestVersion_greatest first rest
  obtain ⟨c, compared, result⟩ := compareTo_compares latest installed
  refine ⟨latest, member, decide (0 < c), ?_, above, ?_⟩
  · simp [handleServerResponse, handleServerResponse.installed, chosen, Version.new_version,
      compared, bind, Except.bind]
  · rw [decide_eq_true_iff, SmallVersion.atMost_iff, result.le.symm]
    exact not_le.symm

/-- `compareTo` is the order of the components and a total preorder, `equals` agrees with it, and
the loop of the server's response ends with a version that no other exceeds. -/
theorem versions_ordered :
    (∀ u v : SmallVersion, ∃ c, u.compareTo (some v.toVersion) = .ok c ∧
      Compares c u.components v.components) ∧
    (∀ u : SmallVersion, u.compareTo (some u.toVersion) = .ok 0) ∧
    (∀ u v : SmallVersion, ∃ c d, u.compareTo (some v.toVersion) = .ok c ∧
      v.compareTo (some u.toVersion) = .ok d ∧ d.sign = -c.sign) ∧
    (∀ u v w : SmallVersion, u.AtMost v → v.AtMost w → u.AtMost w) ∧
    (∀ u v : SmallVersion, u.AtMost v ∨ v.AtMost u) ∧
    (∀ (heap : ℕ → SmallVersion) (self address : ℕ), ∃ same c,
      (heap self).equals (fun there => .version (heap there).toVersion) self (some address) =
        .ok same ∧
      (heap self).compareTo (some (heap address).toVersion) = .ok c ∧ (same = true ↔ c = 0)) ∧
    (∀ (first : SmallVersion) (rest : List SmallVersion), ∃ latest ∈ first :: rest,
      latestVersion first.version (rest.map fun v => some v.version) = .ok latest.version ∧
      ∀ v ∈ first :: rest, v.AtMost latest) := by
  refine ⟨compareTo_compares, compareTo_self, ?_, ?_, ?_, equals_iff, latestVersion_greatest⟩
  · intro u v
    obtain ⟨c, compared, result⟩ := compareTo_compares u v
    obtain ⟨d, swapped, back⟩ := compareTo_compares v u
    exact ⟨c, d, compared, swapped, result.sign_swap back⟩
  · intro u v w
    rw [SmallVersion.atMost_iff, SmallVersion.atMost_iff, SmallVersion.atMost_iff]
    exact le_trans
  · intro u v
    rw [SmallVersion.atMost_iff, SmallVersion.atMost_iff]
    exact le_total _ _

/-- Versions with a leading zero and with a component more. -/
theorem versions_ordered_three : ∃ u w : SmallVersion,
    u.version = ['1', '.', '0', '2'] ∧ w.version = ['1', '.', '1', '0'] ∧ u.AtMost w := by
  let u := SmallVersion.ofParts ['1', '.', '0', '2'] (by decide) (by decide)
  let v := SmallVersion.ofParts ['1', '.', '2', '.', '0'] (by decide) (by decide)
  let w := SmallVersion.ofParts ['1', '.', '1', '0'] (by decide) (by decide)
  have equal : u.AtMost v := ⟨0, rfl, by decide⟩
  have below : v.AtMost w := ⟨-1, rfl, by decide⟩
  exact ⟨u, w, rfl, rfl, versions_ordered.2.2.2.1 u v w equal below⟩

end FcTpms.RemoteTpmsApplication

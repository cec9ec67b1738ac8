import FcTpms.Extractor.CplxToPkt
import Mathlib.Tactic.Linarith

/-!
# The extractor against its script

The program looks a sample up relative to the first peak, so it answers for the sample that is
later by the position of the first peak. It takes the first peak within five samples of the middle
of a bit, where the script takes the nearest one that is less than five away. It agrees with the
script exactly as long as neither makes a difference in a state that it reaches
(`getPkt_agrees_iff`).
-/

namespace FcTpms.Extractor

/-! ## Looking up a sample -/

/-- In an increasing list the first entry after a sample is preceded by the entries up to it. -/
theorem findIdx_eq_countP {cc : List ℤ} (increasing : cc.Pairwise (· < ·)) (samp : ℤ) :
    (cc.findIdx fun peak => decide (samp < peak)) =
      cc.countP fun peak => decide (peak ≤ samp) := by
  induction cc with
  | nil => rfl
  | cons peak rest ih =>
    have later : ∀ other ∈ rest, peak < other := fun _ there =>
      List.rel_of_pairwise_cons increasing there
    rw [List.findIdx_cons]
    by_cases after : samp < peak
    · have none_up_to : (peak :: rest).countP (fun other => decide (other ≤ samp)) = 0 := by
        rw [List.countP_eq_zero]
        intro other there
        rcases List.mem_cons.mp there with rfl | there
        · simpa using after
        · have := later other there
          simp only [decide_eq_true_eq]
          omega
      rw [none_up_to]
      simp [after]
    · have up_to : peak ≤ samp := by omega
      rw [List.countP_cons_of_pos (by simpa using up_to), ih increasing.of_cons]
      simp [after]

namespace Peaks

variable (p : Peaks)

/-- The first peak, `cc[0]`. -/
def firstPeak : ℤ := p.cc.headD 0

/-- The last peak. -/
def lastPeak : ℤ := p.cc.getLastD 0

/-- A sample lies between the first and the last peak. -/
def Between (samp : ℤ) : Prop := p.firstPeak ≤ samp ∧ samp < p.lastPeak

/-- The peaks up to a sample. -/
def upTo (samp : ℤ) : ℕ := p.cc.countP fun peak => decide (peak ≤ samp)

/-- The first peak and the others. -/
theorem cc_eq : p.cc = p.firstPeak :: p.cc.tail := by
  have several := p.several
  unfold firstPeak
  cases shape : p.cc with
  | nil => simp [shape] at several
  | cons peak rest => rfl

/-- No peak is before the first. -/
theorem firstPeak_le {peak : ℤ} (there : peak ∈ p.cc) : p.firstPeak ≤ peak := by
  have increasing := p.increasing
  rw [p.cc_eq] at there increasing
  rcases List.mem_cons.mp there with rfl | there
  · exact le_refl _
  · exact (List.rel_of_pairwise_cons increasing there).le

theorem lastPeak_mem : p.lastPeak ∈ p.cc := by
  have several := p.several
  have nonempty : p.cc ≠ [] := by
    intro empty
    simp [empty] at several
  rw [lastPeak, List.getLastD_eq_getLast?, List.getLast?_eq_some_getLast nonempty]
  exact List.getLast_mem nonempty

/-- No peak is after the last. -/
theorem le_lastPeak {peak : ℤ} (there : peak ∈ p.cc) : peak ≤ p.lastPeak := by
  have nonempty : p.cc ≠ [] := List.ne_nil_of_mem there
  have last : p.lastPeak = p.cc.getLast nonempty := by
    rw [lastPeak, List.getLastD_eq_getLast?, List.getLast?_eq_some_getLast nonempty]
    rfl
  have split := List.dropLast_append_getLast nonempty
  have increasing := p.increasing
  rw [← split, ← last] at there increasing
  rcases List.mem_append.mp there with before | same
  · exact ((List.pairwise_append.mp increasing).2.2 peak before p.lastPeak (by simp)).le
  · rw [List.mem_singleton.mp same]

/-- The program finds the interval of the sample that is later by the position of the first peak. -/
theorem computeCcindexContainSample_eq {samp : ℤ} (start : 0 ≤ samp) :
    computeCcindexContainSample samp p.cc = p.upTo (samp + p.firstPeak) := by
  have increasing := p.increasing
  rw [p.cc_eq] at increasing
  have shifted : (fun peak : ℤ => decide (samp < peak - p.cc.headD 0)) =
      fun peak => decide (samp + p.firstPeak < peak) := by
    funext peak
    have same : samp < peak - p.cc.headD 0 ↔ samp + p.firstPeak < peak := by
      unfold firstPeak
      omega
    simp only [same]
  rw [computeCcindexContainSample, shifted, findIdx_eq_countP increasing.of_cons, upTo]
  conv_rhs => rw [p.cc_eq]
  rw [List.countP_cons_of_pos]
  simpa using start

/-- A sample from the first peak on has a peak up to it. -/
theorem upTo_pos {samp : ℤ} : 0 < p.upTo samp ↔ p.firstPeak ≤ samp := by
  rw [upTo, List.countP_pos_iff]
  constructor
  · rintro ⟨peak, there, reached⟩
    have := p.firstPeak_le there
    have : peak ≤ samp := by simpa using reached
    omega
  · intro reached
    have there : p.firstPeak ∈ p.cc := by
      rw [p.cc_eq]
      simp
    exact ⟨p.firstPeak, there, by simpa using reached⟩

/-- A sample before the last peak has a peak after it. -/
theorem upTo_lt {samp : ℤ} : p.upTo samp < p.cc.length ↔ samp < p.lastPeak := by
  have all : p.cc.countP (fun peak => decide (peak ≤ samp)) = p.cc.length ↔
      ∀ peak ∈ p.cc, decide (peak ≤ samp) = true := List.countP_eq_length
  have bound := List.countP_le_length (p := fun peak : ℤ => decide (peak ≤ samp)) (l := p.cc)
  rw [upTo]
  constructor
  · intro fewer
    by_contra notBefore
    have : p.cc.countP (fun peak => decide (peak ≤ samp)) = p.cc.length := by
      rw [all]
      intro peak there
      have := p.le_lastPeak there
      simp only [decide_eq_true_eq]
      omega
    omega
  · intro before
    have : p.cc.countP (fun peak => decide (peak ≤ samp)) ≠ p.cc.length := by
      intro every
      have := all.mp every p.lastPeak p.lastPeak_mem
      simp only [decide_eq_true_eq] at this
      omega
    omega

/-- Before the first peak the script has no value. -/
theorem hfAtSample_of_zero {samp : ℤ} (count : p.upTo samp = 0) : hfAtSample p samp = none := by
  rw [upTo] at count
  rw [hfAtSample, count]

/-- Behind a peak the script looks at the class of its interval. -/
theorem hfAtSample_of_succ {samp : ℤ} {place : ℕ} (count : p.upTo samp = place + 1) :
    hfAtSample p samp = p.inHf[place]? := by
  rw [upTo] at count
  rw [hfAtSample, count]

/-- The script has a value for a sample if and only if it lies between the peaks. -/
theorem hfAtSample_isSome {samp : ℤ} : (hfAtSample p samp).isSome ↔ p.Between samp := by
  have classified := p.classified
  have positive : 0 < p.upTo samp ↔ p.firstPeak ≤ samp := p.upTo_pos
  have fewer : p.upTo samp < p.cc.length ↔ samp < p.lastPeak := p.upTo_lt
  unfold Between
  rw [← positive, ← fewer]
  cases count : p.upTo samp with
  | zero => simp [p.hfAtSample_of_zero count]
  | succ place =>
    rw [p.hfAtSample_of_succ count]
    have there : p.inHf[place]?.isSome ↔ place < p.inHf.length := by simp
    rw [there]
    omega

/-- A sample between the peaks is in the capture. -/
theorem Between.nonneg {samp : ℤ} (between : p.Between samp) : 0 ≤ samp := by
  have there : p.firstPeak ∈ p.cc := by
    rw [p.cc_eq]
    simp
  exact le_trans (p.counted p.firstPeak there) between.1

/-- The program's value for a sample is the script's for the later one. -/
theorem bitHalf_eq {samp : ℤ} (start : 0 ≤ samp) :
    bitHalf p samp = (hfAtSample p (samp + p.firstPeak)).elim nul hfChar := by
  have positive : 0 < p.upTo (samp + p.firstPeak) := p.upTo_pos.mpr (by omega)
  rw [bitHalf, p.computeCcindexContainSample_eq start]
  cases count : p.upTo (samp + p.firstPeak) with
  | zero => omega
  | succ place =>
    rw [p.hfAtSample_of_succ count, Nat.add_sub_cancel, List.getD_eq_getElem?_getD, inHfS]
    by_cases inside : place < p.inHf.length
    · rw [List.getElem?_append_left (by simpa using inside)]
      simp [inside]
    · rw [List.getElem?_append_right (by simpa using inside)]
      have missing : p.inHf[place]? = none := by simpa using inside
      show ([nul][place - (p.inHf.map hfChar).length]?).getD nul = (p.inHf[place]?).elim nul hfChar
      rw [missing]
      cases place - (p.inHf.map hfChar).length <;> rfl

/-- The program and the script have the same value for a sample between the peaks. -/
def SampleAgrees (samp : ℤ) : Prop :=
  p.Between samp → ∃ hf, hfAtSample p samp = some hf ∧ bitHalf p samp = hfChar hf

/-- A sample between the peaks and the one that is later by the position of the first peak are in
intervals of one class. -/
def ShiftHarmless (samp : ℤ) : Prop :=
  p.Between samp → hfAtSample p (samp + p.firstPeak) = hfAtSample p samp

/-- The values of a sample are the same if and only if the shift does no harm. -/
theorem sampleAgrees_iff (samp : ℤ) : p.SampleAgrees samp ↔ p.ShiftHarmless samp := by
  have distinct : ∀ hf other, hfChar hf = hfChar other → hf = other := by decide
  have ended : ∀ hf, hfChar hf ≠ nul := by decide
  constructor
  · intro agrees between
    obtain ⟨hf, value, same⟩ := agrees between
    rw [p.bitHalf_eq between.nonneg] at same
    rw [value]
    cases later : hfAtSample p (samp + p.firstPeak) with
    | none =>
      rw [later] at same
      exact absurd same.symm (ended hf)
    | some other =>
      rw [later] at same
      rw [distinct other hf same]
  · intro harmless between
    obtain ⟨hf, value⟩ := Option.isSome_iff_exists.mp (p.hfAtSample_isSome.mpr between)
    apply Exists.intro hf
    constructor
    · exact value
    · rw [p.bitHalf_eq between.nonneg, harmless between, value]
      rfl

/-! ## The middle of the next bit -/

/-- No peak is within five samples, or the first that is, is less than five samples away and none
is nearer. -/
def FirstIsNearest (midBit : ℤ) : Prop :=
  ∀ peak ∈ p.cc, |peak - midBit| ≤ 5 → (∀ other ∈ p.cc, other < peak → 5 < |other - midBit|) →
    |peak - midBit| < 5 ∧ ∀ other ∈ p.cc, |peak - midBit| ≤ |other - midBit|

/-- Without a peak within five samples the middle stays where it is expected. -/
theorem snap_far {midBit : ℤ} (far : ∀ peak ∈ p.cc, 5 < |peak - midBit|) :
    snap p midBit = midBit := by
  rw [snap, List.find?_eq_none.mpr]
  · rfl
  · intro peak there
    simpa using far peak there

/-- The program takes the first peak within five samples. -/
theorem snap_first {peak midBit : ℤ} (there : peak ∈ p.cc) (near : |peak - midBit| ≤ 5)
    (first : ∀ other ∈ p.cc, other < peak → 5 < |other - midBit|) : snap p midBit = peak := by
  obtain ⟨before, after, split⟩ := List.append_of_mem there
  have earlier : ∀ other ∈ before, other < peak := by
    have increasing := p.increasing
    rw [split] at increasing
    intro other inBefore
    exact (List.pairwise_append.mp increasing).2.2 other inBefore peak (by simp)
  have found : p.cc.find? (fun peak => !decide (5 < |peak - midBit|)) = some peak := by
    rw [List.find?_eq_some_iff_append]
    constructor
    · simpa using near
    · refine ⟨before, after, split, fun other inBefore => ?_⟩
      have := first other (by rw [split]; exact List.mem_append_left _ inBefore)
        (earlier other inBefore)
      simpa using this
  rw [snap, found]
  rfl

/-- Some peak within five samples is the first one. -/
theorem exists_first {peak midBit : ℤ} (there : peak ∈ p.cc) (near : |peak - midBit| ≤ 5) :
    ∃ first ∈ p.cc, |first - midBit| ≤ 5 ∧
      ∀ other ∈ p.cc, other < first → 5 < |other - midBit| := by
  have found : (p.cc.find? fun peak => !decide (5 < |peak - midBit|)).isSome := by
    rw [List.find?_isSome]
    exact ⟨peak, there, by simpa using near⟩
  obtain ⟨first, is_first⟩ := Option.isSome_iff_exists.mp found
  obtain ⟨isNear, before, after, split, far⟩ := List.find?_eq_some_iff_append.mp is_first
  have increasing := p.increasing
  rw [split] at increasing
  refine ⟨first, by rw [split]; simp, by simpa using isNear, fun other inCc smaller => ?_⟩
  rw [split] at inCc
  rcases List.mem_append.mp inCc with inBefore | rest
  · simpa using far other inBefore
  · rcases List.mem_cons.mp rest with rfl | inAfter
    · omega
    · have := List.rel_of_pairwise_cons (List.pairwise_append.mp increasing).2.1 inAfter
      omega

/-- Without a peak less than five samples away the script leaves the middle, too. -/
theorem nearest_far {midBit : ℤ} (far : ∀ peak ∈ p.cc, 5 ≤ |peak - midBit|) :
    nearest p midBit = midBit := by
  have empty : (p.cc.filter fun peak => decide (|peak - midBit| < 5)) = [] := by
    rw [List.filter_eq_nil_iff]
    intro peak there
    simpa using far peak there
  rw [nearest, empty]
  rfl

/-- Otherwise the script takes a peak that none is nearer than, and of equally near ones the
first. -/
theorem nearest_near {peak midBit : ℤ} (there : peak ∈ p.cc) (near : |peak - midBit| < 5) :
    nearest p midBit ∈ p.cc ∧ |nearest p midBit - midBit| < 5 ∧
      (∀ other ∈ p.cc, |nearest p midBit - midBit| ≤ |other - midBit|) ∧
      ∀ other ∈ p.cc, |other - midBit| = |nearest p midBit - midBit| →
        nearest p midBit ≤ other := by
  let candidates := p.cc.filter fun peak => decide (|peak - midBit| < 5)
  have increasing : candidates.Pairwise (· < ·) := p.increasing.filter _
  have candidate : ∀ {other}, other ∈ candidates ↔ other ∈ p.cc ∧ |other - midBit| < 5 := by
    intro other
    simp [candidates]
  obtain ⟨best, is_best⟩ :
      ∃ best, candidates.argmin (fun peak => (peak - midBit).natAbs) = some best := by
    rw [← Option.isSome_iff_exists, Option.isSome_iff_ne_none]
    intro none_best
    rw [List.argmin_eq_none] at none_best
    have chosen := candidate.mpr ⟨there, near⟩
    simp [none_best] at chosen
  have taken : nearest p midBit = best := by
    show (candidates.argmin fun peak => (peak - midBit).natAbs).getD midBit = best
    rw [is_best]
    rfl
  obtain ⟨member, least, earliest⟩ := List.argmin_eq_some_iff.mp is_best
  obtain ⟨inCc, close⟩ := candidate.mp member
  rw [taken]
  refine ⟨inCc, close, fun other there => ?_, fun other there same => ?_⟩
  · by_cases otherNear : |other - midBit| < 5
    · have less := least other (candidate.mpr ⟨there, otherNear⟩)
      rw [Int.abs_eq_natAbs, Int.abs_eq_natAbs]
      exact Int.ofNat_le.mpr less
    · omega
  · have otherThere : other ∈ candidates := candidate.mpr ⟨there, by omega⟩
    rw [Int.abs_eq_natAbs, Int.abs_eq_natAbs] at same
    have before := earliest other otherThere (Int.ofNat_le.mp same.le)
    rcases Nat.lt_or_eq_of_le before with earlier | sameIndex
    · have ordered := List.pairwise_iff_getElem.mp increasing _ _
        (List.idxOf_lt_length_of_mem member) (List.idxOf_lt_length_of_mem otherThere) earlier
      rw [List.getElem_idxOf, List.getElem_idxOf] at ordered
      exact ordered.le
    · rw [(List.idxOf_inj member).mp sameIndex]

/-- The middles of the next bit are the same if and only if the first peak within five samples is
the nearest. -/
theorem snap_eq_nearest_iff (midBit : ℤ) :
    snap p midBit = nearest p midBit ↔ p.FirstIsNearest midBit := by
  constructor
  · intro same peak there near first
    rw [p.snap_first there near first] at same
    by_cases close : ∃ other ∈ p.cc, |other - midBit| < 5
    · obtain ⟨other, otherThere, otherNear⟩ := close
      obtain ⟨-, near, least, -⟩ := p.nearest_near otherThere otherNear
      rw [← same] at near least
      exact ⟨near, least⟩
    · push Not at close
      rw [p.nearest_far close] at same
      have := close peak there
      simp [same] at this
  · intro alike
    by_cases close : ∃ peak ∈ p.cc, |peak - midBit| ≤ 5
    · obtain ⟨peak, there, near⟩ := close
      obtain ⟨first, firstThere, firstNear, isFirst⟩ := p.exists_first there near
      obtain ⟨firstClose, least⟩ := alike first firstThere firstNear isFirst
      obtain ⟨bestThere, bestClose, best, earliest⟩ := p.nearest_near firstThere firstClose
      have same : |first - midBit| = |nearest p midBit - midBit| :=
        le_antisymm (least _ bestThere) (best _ firstThere)
      have upper := earliest first firstThere same
      have lower : ¬ nearest p midBit < first := by
        intro before
        have := isFirst _ bestThere before
        omega
      rw [p.snap_first firstThere firstNear isFirst]
      omega
    · push Not at close
      rw [p.snap_far close, p.nearest_far fun peak there => (close peak there).le]

end Peaks

/-! ## Whole runs -/

/-- The program comes to the script's result, where the script has one. -/
def ScriptResult.MatchedBy {α : Type} : ScriptResult α → Option α → Prop
  | .success values, result => result = some values
  | .failure, result => result = none
  | .stopped, _ => True

section Runs

variable {p : Peaks} (header : Header p)

/-- The bit at a middle is valid for the program, and is not the last. -/
def Continues (before : ℕ) (midBit : ℤ) : Prop :=
  validBit (bitHalf p (midBit - header.quarter)) (bitHalf p (midBit + header.quarter)) = true ∧
    before + 1 < bitsPerPkt

/-- The program agrees with the script in every state that it reaches, and in its result. -/
structure Agrees : Prop where
  /-- The halves of every bit have the same values. -/
  halves : ∀ estimate before midBit, LooksAt header estimate before midBit →
    p.SampleAgrees (midBit - header.quarter) ∧ p.SampleAgrees (midBit + header.quarter)
  /-- The middle of every further bit is the same. -/
  middles : ∀ estimate before midBit, LooksAt header estimate before midBit →
    Continues header before midBit → snap p (midBit + estimate) = nearest p (midBit + estimate)
  /-- The estimate and the 69 bits are the same, or the missing success. -/
  result : (Script.getPkt header).MatchedBy (getPkt header)

/-- In a state that the program reaches neither the shift of a sample nor the choice of a peak
makes a difference. -/
structure Harmless (estimate : ℤ) (before : ℕ) (midBit : ℤ) : Prop where
  firstHalf : p.ShiftHarmless (midBit - header.quarter)
  secondHalf : p.ShiftHarmless (midBit + header.quarter)
  next : Continues header before midBit → p.FirstIsNearest (midBit + estimate)

/-- A bit of two characters is valid if and only if the halves differ. -/
theorem validBit_hfChar (first second : Bool) :
    validBit (hfChar first) (hfChar second) = xor first second := by
  cases first <;> cases second <;> decide

/-- The characters give a bit the value that the classes give it. -/
theorem bitVal_hfChar (previous : Option Bool) (firstHalf : Bool) :
    bitVal (previous.map hfChar) (hfChar firstHalf) = bitVal previous firstHalf := by
  cases previous with
  | none => rfl
  | some second => cases second <;> cases firstHalf <;> decide

variable {header}

/-- The program has the script's value for a sample, if there is one. -/
theorem bitHalf_of_harmless {samp : ℤ} {hf : Bool} (harmless : p.ShiftHarmless samp)
    (value : hfAtSample p samp = some hf) : bitHalf p samp = hfChar hf := by
  have between : p.Between samp := p.hfAtSample_isSome.mp (by rw [value]; rfl)
  obtain ⟨other, same, char⟩ := (p.sampleAgrees_iff samp).mpr harmless between
  rw [value] at same
  rw [char, Option.some.inj same]

/-- From a bit on, the program and the script find the same bits. -/
theorem bitsFrom_matches (harmless : ∀ estimate before midBit,
    LooksAt header estimate before midBit → Harmless header estimate before midBit)
    {estimate midBit : ℤ} (rest before : ℕ) (previous : Option Bool)
    (reached : rest ≠ 0 → LooksAt header estimate before midBit)
    (all : before + rest = bitsPerPkt) :
    (Script.bitsFrom header estimate rest midBit previous).MatchedBy
      (bitsFrom header estimate rest midBit (previous.map hfChar)) := by
  induction rest generalizing before midBit previous with
  | zero => rfl
  | succ rest ih =>
    have here := reached (by omega)
    have alike := harmless estimate before midBit here
    rw [Script.bitsFrom, bitsFrom]
    cases first : hfAtSample p (midBit - header.quarter) with
    | none => trivial
    | some firstHalf =>
      cases second : hfAtSample p (midBit + header.quarter) with
      | none => trivial
      | some secondHalf =>
        have firstChar := bitHalf_of_harmless alike.firstHalf first
        have secondChar := bitHalf_of_harmless alike.secondHalf second
        simp only [firstChar, secondChar, validBit_hfChar, bitVal_hfChar]
        by_cases valid : xor firstHalf secondHalf = true
        · rw [if_pos valid, if_pos valid]
          have continues : rest ≠ 0 → Continues header before midBit := by
            intro more
            constructor
            · rw [firstChar, secondChar, validBit_hfChar, valid]
            · omega
          by_cases more : rest = 0
          · subst more
            rfl
          · have isNext := continues more
            have middle := (p.snap_eq_nearest_iff _).mpr (alike.next isNext)
            have reachedNext := LooksAt.next here isNext.1 isNext.2
            have later := ih (before + 1) (some secondHalf) (fun _ => reachedNext) (by omega)
            rw [middle, Option.map_some] at later
            rw [middle]
            cases found :
                Script.bitsFrom header estimate rest (nearest p (midBit + estimate))
                  (some secondHalf) with
            | success values =>
              rw [found] at later
              have later : bitsFrom header estimate rest (nearest p (midBit + estimate))
                (some (hfChar secondHalf)) = some values := later
              rw [later]
              rfl
            | failure =>
              rw [found] at later
              have later : bitsFrom header estimate rest (nearest p (midBit + estimate))
                (some (hfChar secondHalf)) = none := later
              rw [later]
              rfl
            | stopped => trivial
        · rw [if_neg valid, if_neg valid]
          rfl

/-- With every estimate that the program tries, it comes to the result of the script. -/
theorem pktFrom_matches (harmless : ∀ estimate before midBit,
    LooksAt header estimate before midBit → Harmless header estimate before midBit)
    {estimate : ℤ} (tries : 5 * estimate < 6 * header.origSamplesPerBit → Tries header estimate) :
    (Script.pktFrom header estimate).MatchedBy (pktFrom header estimate) := by
  have bits : ∀ {estimate}, Tries header estimate →
      (Script.pktBits header estimate).MatchedBy (pktBits header estimate) := fun tried =>
    bitsFrom_matches harmless bitsPerPkt 0 none (fun _ => LooksAt.first tried) (by omega)
  induction estimate using Script.pktFrom.induct header with
  | case1 estimate short bitVals found =>
    have same := bits (tries short)
    rw [found] at same
    have same : pktBits header estimate = some bitVals := same
    rw [Script.pktFrom, pktFrom, if_pos short, if_pos short, found, same]
    rfl
  | case2 estimate short found ih =>
    have same := bits (tries short)
    rw [found] at same
    have same : pktBits header estimate = none := same
    rw [Script.pktFrom, pktFrom, if_pos short, if_pos short, found, same]
    apply ih
    exact Tries.longer (tries short) same
  | case3 estimate short found =>
    rw [Script.pktFrom, if_pos short, found]
    trivial
  | case4 estimate long =>
    rw [Script.pktFrom, pktFrom, if_neg long, if_neg long]
    rfl

/-- The program agrees with the script if and only if no state that it reaches makes a
difference. -/
theorem getPkt_agrees_iff {p : Peaks} (header : Header p) :
    Agrees header ↔ ∀ estimate before midBit, LooksAt header estimate before midBit →
      Harmless header estimate before midBit := by
  constructor
  · intro agrees estimate before midBit reached
    obtain ⟨first, second⟩ := agrees.halves estimate before midBit reached
    constructor
    · exact (p.sampleAgrees_iff _).mp first
    · exact (p.sampleAgrees_iff _).mp second
    · intro continues
      have middle := agrees.middles estimate before midBit reached continues
      exact (p.snap_eq_nearest_iff _).mp middle
  · intro harmless
    constructor
    · intro estimate before midBit reached
      have here := harmless estimate before midBit reached
      exact ⟨(p.sampleAgrees_iff _).mpr here.firstHalf, (p.sampleAgrees_iff _).mpr here.secondHalf⟩
    · intro estimate before midBit reached continues
      have here := harmless estimate before midBit reached
      exact (p.snap_eq_nearest_iff _).mpr (here.next continues)
    · exact pktFrom_matches harmless Tries.first

end Runs

/-- A capture that starts with silence: its first peak is at sample 5000. -/
def lateCapture : Peaks :=
  .at [5000, 6000, 7000, 9000, 10000, 11000, 13000, 15000] (by decide) (by decide) (by decide)

/-- The header of that capture. -/
def lateHeader : Header lateCapture := ⟨3, 5, by decide, by decide⟩

/-- In the second half of the first bit the script sees high frequency. The program looks at the
interval 5000 samples later and sees low frequency. -/
theorem lateCapture_disagrees :
    findHeader lateCapture = some lateHeader ∧ hfAtSample lateCapture 9500 = some true ∧
      bitHalf lateCapture 9500 = '0' ∧ ¬ Agrees lateHeader := by
  have script : hfAtSample lateCapture 9500 = some true := by decide +kernel
  have program : bitHalf lateCapture 9500 = '0' := by decide +kernel
  refine ⟨rfl, script, program, fun agrees => ?_⟩
  have tried : Tries lateHeader lateHeader.origSamplesPerBit := Tries.first (by decide +kernel)
  have second := (agrees.halves _ 0 _ (LooksAt.first tried)).2
  have sample : lateHeader.apxMidBitBoundary + lateHeader.quarter = 9500 := by decide +kernel
  rw [sample] at second
  obtain ⟨hf, value, char⟩ := second (lateCapture.hfAtSample_isSome.mp (by rw [script]; rfl))
  rw [script] at value
  rw [program, ← Option.some.inj value] at char
  exact absurd char (by decide)

end FcTpms.Extractor

import FcTpms.Extractor.Segmentation
import FcTpms.Search.MaximalRuns
import Mathlib.Data.Rat.Defs
import Mathlib.Algebra.Order.Ring.Rat
import Mathlib.Tactic.Linarith

/-!
# The segments passed to `get_pkt`

The hysteresis counter is lowered by the first noise block itself, so the third noise block behind a
significant one is not kept. A segment is passed when the first block behind it is not kept, so the
one that reaches the last block is not passed at all.
-/

namespace FcTpms.Extractor

open Search (MaximalRun ListsRuns TracksRuns)

/-! ## What is promised -/

/-- The samples of the recording that lie in the blocks from one on up to another. -/
def segment (binfile : List UInt8) (run : ℕ × ℕ) : List ℚ :=
  ((binfile.drop (run.1 * (2 * blockSize))).take ((run.2 - run.1) * (2 * blockSize))).map iqToCplx

/-- A block was kept. -/
def Scan.Keeps (scan : Scan) (block : ℕ) : Prop := scan.kept[block]? = some true

/-- What the scan of a recording promises of the blocks it comes to: all of them, or those up to the
one at which `get_pkt` reports success. -/
structure Segmented (getPkt : List ℚ → Bool) (binfile : List UInt8) (spread : ℕ → BlockSpread)
    (scan : Scan) : Prop where
  ends : scan.kept.length = numBlocks binfile ∨
    ∃ contents, scan.passed.getLast? = some contents ∧ getPkt contents = true
  goesOn : ∀ contents ∈ scan.passed.dropLast, getPkt contents = false
  keeps : ∀ block further, block < scan.kept.length → significant (spread block) →
    further ≤ hysteresisTimeout.toNat → block + further < scan.kept.length →
      scan.Keeps (block + further)
  passes : ∀ runs, ListsRuns scan.Keeps scan.kept.length runs →
    scan.passed = runs.map (segment binfile)

/-! ## The hysteresis counter -/

/-- `hysteresis_count` before a block. -/
def hysteresis (spread : ℕ → BlockSpread) : ℕ → ℤ
  | 0 => 0
  | block + 1 => nextHysteresis (hysteresis spread block) (spread block)

/-- The program keeps a block. -/
def KeptBlock (spread : ℕ → BlockSpread) (block : ℕ) : Prop := 0 < hysteresis spread (block + 1)

instance (spread : ℕ → BlockSpread) (block : ℕ) : Decidable (KeptBlock spread block) :=
  inferInstanceAs (Decidable (_ < _))

/-- The noise blocks among so many behind a block. -/
def noisesBehind (spread : ℕ → BlockSpread) (block count : ℕ) : ℕ :=
  (List.range count).countP fun i => noise (spread (block + 1 + i))

/-- One more block behind a block. -/
theorem noisesBehind_succ (spread : ℕ → BlockSpread) (block count : ℕ) :
    noisesBehind spread block (count + 1) =
      noisesBehind spread block count + if noise (spread (block + 1 + count)) then 1 else 0 := by
  rw [noisesBehind, List.range_succ, List.countP_append, List.countP_singleton]
  rfl

/-- The counter is three less the noise blocks behind the last significant block, and a significant
block is one behind which there are few of them. -/
theorem le_hysteresis_iff (spread : ℕ → BlockSpread) (block least : ℕ) (some : 0 < least) :
    (least : ℤ) ≤ hysteresis spread block ↔ ∃ signal < block,
      significant (spread signal) ∧
        noisesBehind spread signal (block - 1 - signal) + least ≤ 3 := by
  induction block generalizing least with
  | zero =>
    apply iff_of_false
    · rw [hysteresis]
      omega
    · rintro ⟨_, below, _⟩
      omega
  | succ block ih =>
    have behind {earlier : ℕ} (below : earlier < block) :
        noisesBehind spread earlier (block + 1 - 1 - earlier) =
          noisesBehind spread earlier (block - 1 - earlier) +
            if noise (spread block) then 1 else 0 := by
      rw [show block + 1 - 1 - earlier = block - 1 - earlier + 1 by omega, noisesBehind_succ,
        show earlier + 1 + (block - 1 - earlier) = block by omega]
    have itself : noisesBehind spread block (block + 1 - 1 - block) = 0 := by
      rw [show block + 1 - 1 - block = 0 by omega]
      rfl
    rw [hysteresis, nextHysteresis]
    by_cases peak : significant (spread block) = true
    · rw [if_pos peak]
      constructor
      · intro few
        refine ⟨block, by omega, peak, ?_⟩
        rw [itself]
        have three : hysteresisTimeout = 3 := rfl
        omega
      · rintro ⟨_, _, _, few⟩
        have three : hysteresisTimeout = 3 := rfl
        omega
    · rw [if_neg peak]
      have earlier {signal : ℕ} (below : signal < block + 1)
          (isPeak : significant (spread signal) = true) : signal < block := by
        by_contra last
        rw [show signal = block by omega] at isPeak
        exact peak isPeak
      by_cases quiet : noise (spread block) = true
      · rw [if_pos quiet]
        have next := ih (least + 1) (by omega)
        constructor
        · intro few
          obtain ⟨signal, below, isPeak, count⟩ := next.mp (by omega)
          refine ⟨signal, by omega, isPeak, ?_⟩
          rw [behind below, if_pos quiet]
          omega
        · rintro ⟨signal, below, isPeak, count⟩
          have inside := earlier below isPeak
          rw [behind inside, if_pos quiet] at count
          have few := next.mpr ⟨signal, inside, isPeak, by omega⟩
          omega
      · rw [if_neg quiet, ih least some]
        constructor
        · rintro ⟨signal, below, isPeak, count⟩
          refine ⟨signal, by omega, isPeak, ?_⟩
          rw [behind below, if_neg quiet]
          omega
        · rintro ⟨signal, below, isPeak, count⟩
          have inside := earlier below isPeak
          rw [behind inside, if_neg quiet] at count
          exact ⟨signal, inside, isPeak, by omega⟩

/-- A block is kept if fewer than three of the blocks from a significant one up to it are noise. -/
theorem keptBlock_iff (spread : ℕ → BlockSpread) (block : ℕ) :
    KeptBlock spread block ↔ ∃ signal ≤ block,
      significant (spread signal) ∧ noisesBehind spread signal (block - signal) < 3 := by
  have counted := le_hysteresis_iff spread (block + 1) 1 (by omega)
  rw [KeptBlock, ← Int.add_one_le_iff, Int.zero_add, ← Nat.cast_one, counted]
  simp only [Nat.lt_add_one_iff, Nat.add_sub_cancel, Nat.add_one_le_iff]

/-! ## The samples of a block -/

section Samples

variable {binfile : List UInt8}

/-- All blocks but the last one are full. -/
theorem full_of_lt_numBlocks {block : ℕ} (before : block + 1 < numBlocks binfile) :
    (block + 1) * (2 * blockSize) ≤ binfile.length := by
  simp only [numBlocks, blockSize] at before ⊢
  omega

/-- What `returned_f` holds of a full block. -/
theorem getComplexblock_full {block : ℕ} (full : (block + 1) * (2 * blockSize) ≤ binfile.length)
    (returnedF : ℕ → ℚ) :
    (List.range (2 * blockSize)).map (getComplexblockFromIqfile binfile block returnedF) =
      segment binfile (block, block + 1) := by
  have width : (block + 1) * (2 * blockSize) = block * (2 * blockSize) + 2 * blockSize :=
    Nat.succ_mul block (2 * blockSize)
  apply List.ext_getElem
  · simp only [segment, List.length_map, List.length_range, List.length_take, List.length_drop]
    rw [show block + 1 - block = 1 by omega, Nat.one_mul]
    omega
  · intro i here there
    rw [List.length_map, List.length_range] at here
    have found : block * (2 * blockSize) + i < binfile.length := by omega
    simp only [segment, List.getElem_map, List.getElem_range, List.getElem_take, List.getElem_drop,
      getComplexblockFromIqfile, List.getElem?_eq_getElem found]

/-- A segment and the block behind it. -/
theorem segment_append {first block : ℕ} (ordered : first ≤ block) :
    segment binfile (first, block) ++ segment binfile (block, block + 1) =
      segment binfile (first, block + 1) := by
  have place : block * (2 * blockSize) =
      first * (2 * blockSize) + (block - first) * (2 * blockSize) := by
    rw [← Nat.add_mul, Nat.add_sub_cancel' ordered]
  have width : (block + 1 - first) * (2 * blockSize) =
      (block - first) * (2 * blockSize) + (block + 1 - block) * (2 * blockSize) := by
    rw [← Nat.add_mul]
    congr 1
    omega
  simp only [segment]
  rw [← List.map_append, width, List.take_add, List.drop_drop, ← place]

end Samples

/-! ## The scan -/

section Scan

variable {getPkt : List ℚ → Bool} {binfile : List UInt8} {spread : ℕ → BlockSpread}

/-- What the loop knows after a number of blocks, with the runs of kept blocks that have ended. -/
structure Scanned (binfile : List UInt8) (spread : ℕ → BlockSpread) (count : ℕ) (scan : Scan)
    (ended : List (ℕ × ℕ)) (openAt : Option ℕ) : Prop where
  tracks : TracksRuns (KeptBlock spread) count ended openAt
  hysteresisCount : scan.hysteresisCount = hysteresis spread count
  kept : scan.kept = (List.range count).map fun block => decide (KeptBlock spread block)
  passed : scan.passed = ended.map (segment binfile)
  isOpen : scan.cplxfile.isSome = openAt.isSome
  contents : count < numBlocks binfile →
    scan.cplxfile = openAt.map fun first => segment binfile (first, count)

/-- The loop starts with nothing. -/
theorem Scanned.initial (returnedF : ℕ → ℚ) :
    Scanned binfile spread 0 (Scan.initial returnedF) [] none := by
  constructor
  · exact TracksRuns.start
  · rfl
  · rfl
  · rfl
  · rfl
  · exact fun _ => rfl

/-- One more block was kept or not. -/
theorem kept_append (spread : ℕ → BlockSpread) (count : ℕ) :
    ((List.range count).map fun block => decide (KeptBlock spread block)) ++
      [decide (KeptBlock spread count)] =
      (List.range (count + 1)).map fun block => decide (KeptBlock spread block) := by
  rw [List.range_succ, List.map_append, List.map_singleton]

variable {count : ℕ} {scan : Scan} {ended : List (ℕ × ℕ)} {openAt : Option ℕ}

/-- The counter after one more block. -/
theorem Scanned.hysteresis_next (scanned : Scanned binfile spread count scan ended openAt) :
    nextHysteresis scan.hysteresisCount (spread count) = hysteresis spread (count + 1) := by
  rw [scanned.hysteresisCount]
  rfl

variable (getPkt) in
/-- A block that is kept is written to the file. -/
theorem Scanned.keep (scanned : Scanned binfile spread count scan ended openAt)
    (more : count < numBlocks binfile) (here : KeptBlock spread count) :
    Scanned binfile spread (count + 1) (scanBlock getPkt binfile spread count scan) ended
      (some (openAt.getD count)) ∧
      (scanBlock getPkt binfile spread count scan).success = scan.success := by
  have stepped : scanBlock getPkt binfile spread count scan =
      { scan with
        returnedF := getComplexblockFromIqfile binfile count scan.returnedF
        hysteresisCount := hysteresis spread (count + 1)
        cplxfile := some (scan.cplxfile.getD [] ++ (List.range (2 * blockSize)).map
          (getComplexblockFromIqfile binfile count scan.returnedF))
        kept := scan.kept ++ [true] } := by
    simp only [scanBlock, scanned.hysteresis_next]
    exact if_pos here
  rw [stepped]
  constructor
  · constructor
    · cases opened : openAt with
      | none => exact scanned.tracks.begin here opened
      | some first => exact scanned.tracks.extend here opened
    · rfl
    · show scan.kept ++ [true] = _
      rw [scanned.kept, ← kept_append, decide_eq_true here]
    · exact scanned.passed
    · rfl
    · intro further
      have contents := scanned.contents more
      simp only [Option.map_some, contents]
      rw [getComplexblock_full (full_of_lt_numBlocks further)]
      cases opened : openAt with
      | none => rfl
      | some first =>
        have within := (scanned.tracks.some_open first opened).some
        show some (segment binfile (first, count) ++ segment binfile (count, count + 1)) = _
        rw [segment_append within.le]
        rfl
  · rfl

variable (getPkt) in
/-- A block that is not kept, behind one that was, closes the file. -/
theorem Scanned.close {first : ℕ} (scanned : Scanned binfile spread count scan ended openAt)
    (more : count < numBlocks binfile) (not : ¬ KeptBlock spread count)
    (opened : openAt = some first) :
    Scanned binfile spread (count + 1) (scanBlock getPkt binfile spread count scan)
      (ended ++ [(first, count)]) none ∧
      (scanBlock getPkt binfile spread count scan).success =
        getPkt (segment binfile (first, count)) := by
  have contents : scan.cplxfile = some (segment binfile (first, count)) := by
    rw [scanned.contents more, opened]
    rfl
  have stepped : scanBlock getPkt binfile spread count scan =
      { scan with
        returnedF := getComplexblockFromIqfile binfile count scan.returnedF
        hysteresisCount := hysteresis spread (count + 1)
        cplxfile := none
        success := getPkt (segment binfile (first, count))
        passed := scan.passed ++ [segment binfile (first, count)]
        kept := scan.kept ++ [false] } := by
    simp only [scanBlock, scanned.hysteresis_next, contents]
    exact if_neg not
  rw [stepped]
  constructor
  · constructor
    · exact scanned.tracks.close not opened
    · rfl
    · show scan.kept ++ [false] = _
      rw [scanned.kept, ← kept_append, decide_eq_false not]
    · show scan.passed ++ [segment binfile (first, count)] = _
      rw [scanned.passed, List.map_append, List.map_singleton]
    · rfl
    · exact fun _ => rfl
  · rfl

variable (getPkt) in
/-- A block that is not kept, behind another one, is passed over. -/
theorem Scanned.skip (scanned : Scanned binfile spread count scan ended openAt)
    (more : count < numBlocks binfile) (not : ¬ KeptBlock spread count) (closed : openAt = none) :
    Scanned binfile spread (count + 1) (scanBlock getPkt binfile spread count scan) ended none ∧
      (scanBlock getPkt binfile spread count scan).success = scan.success := by
  have contents : scan.cplxfile = none := by
    rw [scanned.contents more, closed]
    rfl
  have stepped : scanBlock getPkt binfile spread count scan =
      { scan with
        returnedF := getComplexblockFromIqfile binfile count scan.returnedF
        hysteresisCount := hysteresis spread (count + 1)
        kept := scan.kept ++ [false] } := by
    simp only [scanBlock, scanned.hysteresis_next, contents]
    exact if_neg not
  rw [stepped]
  constructor
  · constructor
    · exact scanned.tracks.skip not closed
    · rfl
    · show scan.kept ++ [false] = _
      rw [scanned.kept, ← kept_append, decide_eq_false not]
    · exact scanned.passed
    · show scan.cplxfile.isSome = _
      rw [contents]
      rfl
    · intro _
      exact contents
  · rfl

/-- How the loop ends: with all blocks, or with the first run for which `get_pkt` succeeds. -/
inductive Finished (getPkt : List ℚ → Bool) (binfile : List UInt8) (spread : ℕ → BlockSpread)
    (scan : Scan) : Prop
  | all (ended : List (ℕ × ℕ)) (openAt : Option ℕ)
      (scanned : Scanned binfile spread (numBlocks binfile) scan ended openAt)
      (failed : ∀ run ∈ ended, getPkt (segment binfile run) = false)
  | found (earlier : List (ℕ × ℕ)) (run : ℕ × ℕ) (inside : run.2 < numBlocks binfile)
      (scanned : Scanned binfile spread (run.2 + 1) scan (earlier ++ [run]) none)
      (failed : ∀ run ∈ earlier, getPkt (segment binfile run) = false)
      (succeeded : getPkt (segment binfile run) = true)

/-- The loop ends in one of these ways. -/
theorem scanBlocks_finished {left : ℕ} (scanned : Scanned binfile spread count scan ended openAt)
    (all : count + left = numBlocks binfile) (running : scan.success = false)
    (failed : ∀ run ∈ ended, getPkt (segment binfile run) = false) :
    Finished getPkt binfile spread (scanBlocks getPkt binfile spread left count scan) := by
  induction left generalizing count scan ended openAt with
  | zero =>
    rw [Nat.add_zero] at all
    rw [all] at scanned
    exact Finished.all ended openAt scanned failed
  | succ left ih =>
    have more : count < numBlocks binfile := by omega
    rw [scanBlocks]
    by_cases here : KeptBlock spread count
    · obtain ⟨next, same⟩ := scanned.keep getPkt more here
      simp only [same, running, Bool.false_eq_true, if_false]
      exact ih next (by omega) (same.trans running) failed
    · cases opened : openAt with
      | none =>
        obtain ⟨next, same⟩ := scanned.skip getPkt more here opened
        simp only [same, running, Bool.false_eq_true, if_false]
        exact ih next (by omega) (same.trans running) failed
      | some first =>
        obtain ⟨next, success⟩ := scanned.close getPkt more here opened
        cases outcome : getPkt (segment binfile (first, count)) with
        | true =>
          simp only [success, outcome, if_true]
          exact Finished.found ended (first, count) more next failed outcome
        | false =>
          simp only [success, outcome, Bool.false_eq_true, if_false]
          apply ih next (by omega) (success.trans outcome)
          intro run member
          rcases List.mem_append.mp member with before | last
          · exact failed run before
          · rw [List.mem_singleton.mp last]
            exact outcome

/-! ## When the promise is kept -/

variable (getPkt binfile spread) in
/-- `get_pkt` does not succeed on a segment that ends in front of a block, so that the scan comes to
it. -/
def ComesTo (block : ℕ) : Prop :=
  ∀ run : ℕ × ℕ, MaximalRun (KeptBlock spread) block run.1 run.2 → run.2 < block →
    getPkt (segment binfile run) = false

variable (getPkt binfile spread) in
/-- No significant block that the scan comes to is followed at once by three noise blocks, and if it
comes to the end there are three of them somewhere behind every significant block. -/
structure Separated : Prop where
  gaps : ∀ block, block + 3 < numBlocks binfile → ComesTo getPkt binfile spread (block + 3) →
    significant (spread block) → noise (spread (block + 1)) → noise (spread (block + 2)) →
      ¬ noise (spread (block + 3))
  last : ComesTo getPkt binfile spread (numBlocks binfile) → ∀ block < numBlocks binfile,
    significant (spread block) → 3 ≤ noisesBehind spread block (numBlocks binfile - 1 - block)

/-- The blocks that the loop has kept. -/
theorem Scanned.keeps_iff (scanned : Scanned binfile spread count scan ended openAt) {block : ℕ}
    (inside : block < count) : scan.Keeps block ↔ KeptBlock spread block := by
  rw [Scan.Keeps, scanned.kept, List.getElem?_map, List.getElem?_range inside, Option.map_some,
    Option.some_inj, decide_eq_true_iff]

/-- The loop has come to so many blocks. -/
theorem Scanned.kept_length (scanned : Scanned binfile spread count scan ended openAt) :
    scan.kept.length = count := by
  rw [scanned.kept, List.length_map, List.length_range]

/-- Three noise blocks behind a significant one: the third is not kept. -/
theorem not_kept_of_noise {block : ℕ} (peak : significant (spread block) = true)
    (noises : noise (spread (block + 1)) = true ∧ noise (spread (block + 2)) = true ∧
      noise (spread (block + 3)) = true) : ¬ KeptBlock spread (block + 3) := by
  have lower {count : ℤ} {value : BlockSpread} (isNoise : noise value = true) :
      nextHysteresis count value = count - 1 := by
    have notPeak : ¬ significant value = true := by
      cases value with
      | none => exact Bool.false_ne_true
      | some ratio =>
        intro large
        have small : ratio < 5 := of_decide_eq_true isNoise
        have large : 8 ≤ ratio := of_decide_eq_true large
        linarith
    rw [nextHysteresis, if_neg notPeak, if_pos isNoise]
  rw [KeptBlock, hysteresis, hysteresis, hysteresis, lower noises.2.2, lower noises.2.1,
    lower noises.1, hysteresis, nextHysteresis, if_pos peak]
  decide

/-- The blocks behind significant ones are kept just when the three are not all noise. -/
theorem Scanned.keeps_gaps_iff (scanned : Scanned binfile spread count scan ended openAt) :
    (∀ block further, block < scan.kept.length → significant (spread block) →
      further ≤ hysteresisTimeout.toNat → block + further < scan.kept.length →
        scan.Keeps (block + further)) ↔
    ∀ block, block + 3 < count → significant (spread block) → noise (spread (block + 1)) →
      noise (spread (block + 2)) → ¬ noise (spread (block + 3)) := by
  have three : hysteresisTimeout.toNat = 3 := rfl
  rw [scanned.kept_length, three]
  constructor
  · intro keeps block inside peak first second third
    have kept := keeps block 3 (by omega) peak (le_refl 3) inside
    rw [scanned.keeps_iff inside] at kept
    exact not_kept_of_noise peak ⟨first, second, third⟩ kept
  · intro gaps block further _ peak few inside
    rw [scanned.keeps_iff inside, keptBlock_iff]
    refine ⟨block, by omega, peak, ?_⟩
    rw [Nat.add_sub_cancel_left]
    by_cases all : further = 3
    · have gap := gaps block (by omega) peak
      have sum : noisesBehind spread block 3 =
          (if noise (spread (block + 1)) then 1 else 0) +
            (if noise (spread (block + 2)) then 1 else 0) +
            if noise (spread (block + 3)) then 1 else 0 := by
        rw [noisesBehind_succ, noisesBehind_succ, noisesBehind_succ]
        exact congrArg (· + _ + _) (Nat.zero_add _)
      rw [all, sum]
      split <;> split <;> split <;> simp_all
    · have most := List.countP_le_length (p := fun i => noise (spread (block + 1 + i)))
        (l := List.range further)
      rw [List.length_range] at most
      rw [noisesBehind]
      omega

/-- The runs of the blocks that the loop has kept are those of the blocks that it keeps. -/
theorem Scanned.lists_unique (scanned : Scanned binfile spread count scan ended openAt)
    {runs : List (ℕ × ℕ)} :
    ListsRuns scan.Keeps scan.kept.length runs ↔ ListsRuns (KeptBlock spread) count runs := by
  rw [scanned.kept_length]
  constructor
  · intro lists
    exact lists.congr fun _ inside => scanned.keeps_iff inside
  · intro lists
    exact lists.congr fun _ inside => (scanned.keeps_iff inside).symm

/-- All runs have been passed if and only if none is open. -/
theorem Scanned.passes_iff (scanned : Scanned binfile spread count scan ended openAt) :
    (∀ runs, ListsRuns scan.Keeps scan.kept.length runs →
      scan.passed = runs.map (segment binfile)) ↔ openAt = none := by
  constructor
  · intro passes
    cases opened : openAt with
    | none => rfl
    | some first =>
      have lists := scanned.tracks.lists_of_some opened
      have lengths := congrArg List.length (passes _ (scanned.lists_unique.mpr lists))
      rw [scanned.passed, List.length_map, List.length_map, List.length_append] at lengths
      exact absurd lengths (by simp)
  · intro closed runs lists
    rw [scanned.passed,
      (scanned.tracks.lists_of_none closed).unique (scanned.lists_unique.mp lists)]

/-- No run is open at the end if and only if three noise blocks follow every significant one. -/
theorem Scanned.closed_iff (scanned : Scanned binfile spread count scan ended openAt) :
    openAt = none ↔ ∀ block < count, significant (spread block) →
      3 ≤ noisesBehind spread block (count - 1 - block) := by
  have last : openAt = none ↔ count = 0 ∨ ¬ KeptBlock spread (count - 1) := by
    constructor
    · exact scanned.tracks.none_open
    · intro outside
      cases opened : openAt with
      | none => rfl
      | some first =>
        have run := scanned.tracks.some_open first opened
        have some := run.some
        have kept := run.all (count - 1) (by omega) (by omega)
        rcases outside with zero | not
        · omega
        · exact absurd kept not
  rw [last, keptBlock_iff]
  constructor
  · rintro (zero | none) block inside peak
    · omega
    · by_contra few
      exact none ⟨block, by omega, peak, by omega⟩
  · intro enough
    by_cases zero : count = 0
    · exact Or.inl zero
    · right
      rintro ⟨block, inside, peak, few⟩
      have many := enough block (by omega) peak
      omega

/-- Every block that the loop has come to is one that the scan comes to, and no other. -/
theorem Finished.comesTo_iff_all
    (scanned : Scanned binfile spread (numBlocks binfile) scan ended openAt)
    (failed : ∀ run ∈ ended, getPkt (segment binfile run) = false) {block : ℕ}
    (inside : block ≤ numBlocks binfile) : ComesTo getPkt binfile spread block := by
  intro run maximal below
  have lower : run.2 < numBlocks binfile := by omega
  exact failed run ((scanned.tracks.mem_iff run).mpr ⟨maximal.rebound below lower, lower⟩)

/-- The loop comes to the blocks up to the one that ends the run of the packet. -/
theorem Finished.comesTo_iff_found {earlier : List (ℕ × ℕ)} {run : ℕ × ℕ}
    (scanned : Scanned binfile spread (run.2 + 1) scan (earlier ++ [run]) none)
    (failed : ∀ run ∈ earlier, getPkt (segment binfile run) = false)
    (succeeded : getPkt (segment binfile run) = true) {block : ℕ} :
    ComesTo getPkt binfile spread block ↔ block < run.2 + 1 := by
  have member : run ∈ earlier ++ [run] := List.mem_append_right _ (List.mem_singleton_self run)
  constructor
  · intro comes
    by_contra behind
    have maximal := ((scanned.tracks.mem_iff run).mp member).1
    have fails := comes run (maximal.rebound (by omega) (by omega)) (by omega)
    rw [succeeded] at fails
    cases fails
  · intro inside other maximal below
    have among := (scanned.tracks.mem_iff other).mpr
      ⟨maximal.rebound below (by omega), by omega⟩
    rcases List.mem_append.mp among with before | last
    · exact failed other before
    · rw [List.mem_singleton.mp last] at below
      omega

/-- What the loop ends with is what is promised if and only if the segments are separated. -/
theorem Finished.segmented_iff (finished : Finished getPkt binfile spread scan) :
    Segmented getPkt binfile spread scan ↔ Separated getPkt binfile spread := by
  cases finished with
  | all ended openAt scanned failed =>
    have comes {block : ℕ} (inside : block ≤ numBlocks binfile) :=
      Finished.comesTo_iff_all scanned failed inside
    constructor
    · intro promise
      constructor
      · intro block inside _
        exact scanned.keeps_gaps_iff.mp promise.keeps block inside
      · intro _
        exact scanned.closed_iff.mp (scanned.passes_iff.mp promise.passes)
    · intro separated
      constructor
      · exact Or.inl scanned.kept_length
      · intro contents member
        have among := List.dropLast_subset _ member
        rw [scanned.passed, List.mem_map] at among
        obtain ⟨run, listed, rfl⟩ := among
        exact failed run listed
      · exact scanned.keeps_gaps_iff.mpr fun block inside =>
          separated.gaps block inside (comes (by omega))
      · exact scanned.passes_iff.mpr
          (scanned.closed_iff.mpr (separated.last (comes (Nat.le_refl _))))
  | found earlier run inside scanned failed succeeded =>
    have comes {block : ℕ} : ComesTo getPkt binfile spread block ↔ block < run.2 + 1 :=
      Finished.comesTo_iff_found scanned failed succeeded
    constructor
    · intro promise
      constructor
      · intro block _ reached
        exact scanned.keeps_gaps_iff.mp promise.keeps block (comes.mp reached)
      · intro reached
        have below := comes.mp reached
        omega
    · intro separated
      have passed : scan.passed = earlier.map (segment binfile) ++ [segment binfile run] := by
        rw [scanned.passed, List.map_append, List.map_singleton]
      constructor
      · right
        exact ⟨segment binfile run, by rw [passed, List.getLast?_concat], succeeded⟩
      · intro contents member
        rw [passed, List.dropLast_concat, List.mem_map] at member
        obtain ⟨other, listed, rfl⟩ := member
        exact failed other listed
      · exact scanned.keeps_gaps_iff.mpr fun block below =>
          separated.gaps block (by omega) (comes.mpr below)
      · exact scanned.passes_iff.mpr rfl

end Scan

/-- A recording is segmented as promised if and only if no significant block is followed at once by
three noise blocks, and no segment reaches the end. -/
theorem findPktInBinfile_segmented_iff (getPkt : List ℚ → Bool) (binfile : List UInt8)
    (spread : ℕ → BlockSpread) (returnedF : ℕ → ℚ) :
    Segmented getPkt binfile spread (findPktInBinfile getPkt binfile spread returnedF) ↔
      Separated getPkt binfile spread := by
  apply Finished.segmented_iff
  apply scanBlocks_finished (Scanned.initial returnedF) (Nat.zero_add _) rfl
  intro run member
  cases member

/-- A recording of one block, which is significant, is not passed to `get_pkt`. -/
theorem findPktInBinfile_unsegmented :
    ¬ Segmented (fun _ => true) (List.replicate 512 0) (fun _ => some 128)
      (findPktInBinfile (fun _ => true) (List.replicate 512 0) (fun _ => some 128) fun _ => 0) := by
  intro promise
  have one : numBlocks (List.replicate 512 0) = 1 := by
    rw [numBlocks, List.length_replicate]
    rfl
  have peak : significant (some 128) = true := by decide
  have scan : (findPktInBinfile (fun _ => true) (List.replicate 512 0) (fun _ => some 128)
      fun _ => 0) = scanBlock (fun _ => true) (List.replicate 512 0) (fun _ => some 128) 0
        (Scan.initial fun _ => 0) := by
    rw [findPktInBinfile, one]
    simp only [scanBlocks, ite_self]
  have block : (scanBlock (fun _ => true) (List.replicate 512 0) (fun _ => some 128) 0
      (Scan.initial fun _ => 0)).kept = [true] ∧
      (scanBlock (fun _ => true) (List.replicate 512 0) (fun _ => some 128) 0
        (Scan.initial fun _ => 0)).passed = [] := by
    simp only [scanBlock, nextHysteresis, peak, if_true]
    exact ⟨rfl, rfl⟩
  rw [← scan] at block
  have keeps : (findPktInBinfile (fun _ => true) (List.replicate 512 0) (fun _ => some 128)
      fun _ => 0).Keeps = fun place => [true][place]? = some true := by
    funext place
    rw [Scan.Keeps, block.1]
  have start : TracksRuns (fun place => [true][place]? = some true) 0 [] none := TracksRuns.start
  have lists := (start.begin rfl rfl).lists_of_some rfl
  have passes := promise.passes [(0, 1)]
  rw [keeps, block.1, block.2] at passes
  exact absurd (passes lists).symm (List.cons_ne_nil _ _)

end FcTpms.Extractor

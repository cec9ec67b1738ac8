import FcTpms.Verif.BlockSpread

/-!
# Silence behind a packet

The ratio of a silent block is not a number, so the block is neither significant nor noise and does
not count against the hysteresis. A file that is open when silence begins is never closed, and
`get_pkt` does not see it.
-/

namespace FcTpms.Extractor

/-! ## The ratios of a recording -/

/-- `returned_f` after so many blocks. -/
def arrayAfter (binfile : List UInt8) (returnedF : ℕ → ℚ) : ℕ → ℕ → ℚ
  | 0 => returnedF
  | block + 1 => getComplexblockFromIqfile binfile block (arrayAfter binfile returnedF block)

theorem iqToCplx_eq_zero_iff (b : UInt8) : iqToCplx b = 0 ↔ b = 127 := by
  rw [iqToCplx, div_eq_zero_iff]
  constructor
  · intro cases
    rcases cases with zero | absurd
    · apply UInt8.toNat_inj.mp
      have same : ((b.toNat : ℤ) : ℚ) = 127 := by linarith
      have value : b.toNat = 127 := by exact_mod_cast same
      rw [value]
      rfl
    · norm_num at absurd
  · intro middle
    have value : b.toNat = 127 := by rw [middle]; rfl
    rw [value]
    exact Or.inl (by norm_num)

/-- A whole block is silent if its bytes between those of the first sample and the last one are all
in the middle of their range. -/
theorem silent_arrayAfter_iff (binfile : List UInt8) (returnedF : ℕ → ℚ) {block : ℕ}
    (full : (block + 1) * (2 * blockSize) ≤ binfile.length) :
    Silent (arrayAfter binfile returnedF (block + 1)) ↔ ∀ j, 0 < j → j < 255 →
      binfile[block * (2 * blockSize) + j * 2]? = some 127 ∧
        binfile[block * (2 * blockSize) + (j * 2 + 1)]? = some 127 := by
  have sample {k : ℕ} (inside : k < 2 * blockSize) :
      arrayAfter binfile returnedF (block + 1) k = 0 ↔
        binfile[block * (2 * blockSize) + k]? = some 127 := by
    have whole : (block + 1) * (2 * blockSize) = block * (2 * blockSize) + 2 * blockSize :=
      Nat.succ_mul _ _
    have present : block * (2 * blockSize) + k < binfile.length := by omega
    rw [arrayAfter, getComplexblockFromIqfile, List.getElem?_eq_getElem present]
    dsimp only
    rw [iqToCplx_eq_zero_iff, Option.some.injEq]
  have size : 2 * blockSize = 512 := rfl
  constructor
  · intro silent j first last
    rcases silent j first last with ⟨real, imag⟩
    exact ⟨(sample (by omega)).mp real, (sample (by omega)).mp imag⟩
  · intro bytes j first last
    rcases bytes j first last with ⟨real, imag⟩
    exact ⟨(sample (by omega)).mpr real, (sample (by omega)).mpr imag⟩

/-- The ratio of every whole block of a recording: it is at least 1 and at most 256, unless all
bytes between the first sample and the last one are 127. Then it is not a number. -/
theorem blockSpread_bounds (binfile : List UInt8) (returnedF : ℕ → ℚ) {block : ℕ}
    (full : (block + 1) * (2 * blockSize) ≤ binfile.length) :
    ∃ spread : Option ℝ, blockSpread (arrayAfter binfile returnedF (block + 1)) = some spread ∧
      (spread = none ↔ ∀ j, 0 < j → j < 255 →
        binfile[block * (2 * blockSize) + j * 2]? = some 127 ∧
          binfile[block * (2 * blockSize) + (j * 2 + 1)]? = some 127) ∧
      ∀ value, spread = some value → 1 ≤ value ∧ value ≤ 256 := by
  rcases exists_blockSpread (arrayAfter binfile returnedF (block + 1)) with
    ⟨spread, ratio, silent, bounds⟩
  rw [silent_arrayAfter_iff binfile returnedF full] at silent
  exact ⟨spread, ratio, silent, bounds⟩

/-- A recording of one block of zeros. -/
theorem blockSpread_bounds_zeros :
    (0 + 1) * (2 * blockSize) ≤ (List.replicate 512 (0 : UInt8)).length ∧
      ∃ spread : Option ℝ,
        blockSpread (arrayAfter (List.replicate 512 0) (fun _ => 0) (0 + 1)) = some spread ∧
        (spread = none ↔ ∀ j, 0 < j → j < 255 →
          (List.replicate 512 (0 : UInt8))[0 * (2 * blockSize) + j * 2]? = some 127 ∧
            (List.replicate 512 (0 : UInt8))[0 * (2 * blockSize) + (j * 2 + 1)]? = some 127) ∧
        ∀ value, spread = some value → 1 ≤ value ∧ value ≤ 256 := by
  have full : (0 + 1) * (2 * blockSize) ≤ (List.replicate 512 (0 : UInt8)).length := by
    rw [List.length_replicate]
    decide
  exact ⟨full, blockSpread_bounds _ _ full⟩

/-- A ratio as the loop compares it with its two thresholds. -/
noncomputable def asBlockSpread (spread : Option ℝ) : BlockSpread :=
  spread.map fun value => if 8 ≤ value then 8 else if value < 5 then 0 else 5

/-- The thresholds are met alike. -/
theorem asBlockSpread_thresholds (value : ℝ) :
    (significant (asBlockSpread (some value)) = true ↔ 8 ≤ value) ∧
      (noise (asBlockSpread (some value)) = true ↔ value < 5) := by
  by_cases peak : 8 ≤ value
  · have high : asBlockSpread (some value) = some 8 := by
      rw [asBlockSpread, Option.map_some, if_pos peak]
    have above : significant (some 8) = true ∧ noise (some 8) = false := by decide
    rw [high, above.1, above.2]
    simp only [peak, Bool.false_eq_true, false_iff, not_lt, true_and]
    linarith
  · by_cases low : value < 5
    · have none : asBlockSpread (some value) = some 0 := by
        rw [asBlockSpread, Option.map_some, if_neg peak, if_pos low]
      have below : significant (some 0) = false ∧ noise (some 0) = true := by decide
      rw [none, below.1, below.2]
      simp only [low, Bool.false_eq_true, false_iff, not_le, and_true]
      linarith
    · have middle : asBlockSpread (some value) = some 5 := by
        rw [asBlockSpread, Option.map_some, if_neg peak, if_neg low]
      have between : significant (some 5) = false ∧ noise (some 5) = false := by decide
      rw [middle, between.1, between.2]
      simp only [peak, low]
      decide

/-- The ratio of a block of a recording. -/
noncomputable def spreadOf (binfile : List UInt8) (returnedF : ℕ → ℚ) (block : ℕ) : BlockSpread :=
  asBlockSpread ((blockSpread (arrayAfter binfile returnedF (block + 1))).getD none)

/-- The ratio of a silent block is not a number. -/
theorem blockSpread_silent {returnedF : ℕ → ℚ} (silent : Silent returnedF) :
    blockSpread returnedF = some (none : Option ℝ) := by
  rcases exists_blockSpread returnedF with ⟨spread, ratio, holds, _⟩
  rw [ratio, holds.mpr silent]

theorem spreadOf_silent {binfile : List UInt8} {returnedF : ℕ → ℚ} {block : ℕ}
    (nothing : blockSpread (arrayAfter binfile returnedF (block + 1)) = some (none : Option ℝ)) :
    spreadOf binfile returnedF block = none := by
  rw [spreadOf, nothing]
  rfl

/-- Every block of a constant signal is significant. -/
theorem significant_constant {binfile : List UInt8} {returnedF : ℕ → ℚ} {block : ℕ} {real imag : ℚ}
    (loud : real ≠ 0 ∨ imag ≠ 0)
    (constant : ∀ j < 256, arrayAfter binfile returnedF (block + 1) (j * 2) = real ∧
      arrayAfter binfile returnedF (block + 1) (j * 2 + 1) = imag) :
    significant (spreadOf binfile returnedF block) = true := by
  rcases blockSpread_constant loud constant with ⟨value, ratio, peak⟩
  rw [spreadOf, ratio, Option.getD_some]
  exact (asBlockSpread_thresholds value).1.mpr peak

/-! ## The loop -/

section Loop

variable (getPkt : List ℚ → Bool) (binfile : List UInt8) (spread : ℕ → BlockSpread)

/-- The file is open while the hysteresis lasts. -/
def Scan.Open (scan : Scan) : Prop := scan.cplxfile.isSome = true ↔ 0 < scan.hysteresisCount

/-- Every block opens or closes the file accordingly. -/
theorem open_scanBlock (block : ℕ) (scan : Scan) :
    (scanBlock getPkt binfile spread block scan).Open := by
  unfold scanBlock Scan.Open
  by_cases lasts : nextHysteresis scan.hysteresisCount (spread block) > 0
  · simp only [lasts, if_true, Option.isSome_some]
  · simp only [lasts, if_false]
    split
    · simp only [Option.isSome_none, Bool.false_eq_true, false_iff]
      exact lasts
    · rename_i closed
      simp only [closed, Option.isSome_none, Bool.false_eq_true, false_iff]
      exact lasts

theorem open_scanBlocks (left block : ℕ) {scan : Scan} (opened : scan.Open) :
    (scanBlocks getPkt binfile spread left block scan).Open := by
  induction left generalizing block scan with
  | zero => exact opened
  | succ left ih =>
    have next := open_scanBlock getPkt binfile spread block scan
    rw [scanBlocks]
    split
    · exact next
    · exact ih (block + 1) next

/-- The loop over some blocks and then over others. -/
theorem scanBlocks_add (first rest block : ℕ) {scan : Scan} (running : scan.success = false) :
    scanBlocks getPkt binfile spread (first + rest) block scan =
      if (scanBlocks getPkt binfile spread first block scan).success
      then scanBlocks getPkt binfile spread first block scan
      else scanBlocks getPkt binfile spread rest (block + first)
        (scanBlocks getPkt binfile spread first block scan) := by
  induction first generalizing block scan with
  | zero => simp [scanBlocks, running]
  | succ first ih =>
    have count : first + 1 + rest = first + rest + 1 := by omega
    have place : block + (first + 1) = block + 1 + first := by omega
    rw [count, place, scanBlocks, scanBlocks]
    by_cases found : (scanBlock getPkt binfile spread block scan).success = true
    · simp only [found, if_true]
    · simp only [found, Bool.false_eq_true, if_false]
      exact ih (block + 1) (Bool.not_eq_true _ ▸ found)

/-- A block without a ratio changes nothing but the array and what is written. -/
theorem scanBlock_silent {block : ℕ} {scan : Scan} (opened : scan.Open)
    (silent : spread block = none) :
    (scanBlock getPkt binfile spread block scan).hysteresisCount = scan.hysteresisCount ∧
      (scanBlock getPkt binfile spread block scan).passed = scan.passed ∧
      (scanBlock getPkt binfile spread block scan).success = scan.success ∧
      (scanBlock getPkt binfile spread block scan).cplxfile.isSome = scan.cplxfile.isSome := by
  have same : nextHysteresis scan.hysteresisCount (spread block) = scan.hysteresisCount := by
    rw [silent]
    rfl
  unfold scanBlock
  rw [same]
  by_cases lasts : scan.hysteresisCount > 0
  · have already := opened.mpr lasts
    simp only [lasts, if_true, Option.isSome_some, already, and_self]
  · have closed : scan.cplxfile = none := by
      rw [← Option.not_isSome_iff_eq_none]
      exact fun already => lasts (opened.mp already)
    simp only [lasts, if_false, closed, and_self]

theorem scanBlocks_silent {left block : ℕ} {scan : Scan} (opened : scan.Open)
    (silent : ∀ later, block ≤ later → later < block + left → spread later = none) :
    (scanBlocks getPkt binfile spread left block scan).hysteresisCount = scan.hysteresisCount ∧
      (scanBlocks getPkt binfile spread left block scan).passed = scan.passed ∧
      (scanBlocks getPkt binfile spread left block scan).success = scan.success ∧
      (scanBlocks getPkt binfile spread left block scan).cplxfile.isSome =
        scan.cplxfile.isSome := by
  induction left generalizing block scan with
  | zero => exact ⟨rfl, rfl, rfl, rfl⟩
  | succ left ih =>
    have step := scanBlock_silent getPkt binfile spread opened (silent block (le_refl _) (by omega))
    have next := open_scanBlock getPkt binfile spread block scan
    rw [scanBlocks]
    split
    · exact step
    · have rest : ∀ later, block + 1 ≤ later → later < block + 1 + left → spread later = none :=
        fun later after before => silent later (by omega) (by omega)
      rcases ih next rest with ⟨count, passed, success, still⟩
      rw [count, passed, success, still]
      exact step

end Loop

/-- When all blocks from one on are silent, their ratio is not a number and the hysteresis stays as
it is, no file is passed to `get_pkt` any more, and a file that is open then is still open at the
end. -/
theorem silent_rest (getPkt : List ℚ → Bool) (binfile : List UInt8) (returnedF : ℕ → ℚ) {first : ℕ}
    (inside : first ≤ numBlocks binfile)
    (silent : ∀ block, first ≤ block → block < numBlocks binfile →
      Silent (arrayAfter binfile returnedF (block + 1))) :
    let scan := scanBlocks getPkt binfile (spreadOf binfile returnedF) first 0
      (Scan.initial returnedF)
    let final := findPktInBinfile getPkt binfile (spreadOf binfile returnedF) returnedF
    (∀ block, first ≤ block → block < numBlocks binfile →
      blockSpread (arrayAfter binfile returnedF (block + 1)) = some (none : Option ℝ) ∧
        spreadOf binfile returnedF block = none) ∧
      final.hysteresisCount = scan.hysteresisCount ∧ final.passed = scan.passed ∧
      final.success = scan.success ∧ final.cplxfile.isSome = scan.cplxfile.isSome := by
  obtain ⟨rest, all⟩ : ∃ rest, numBlocks binfile = first + rest :=
    ⟨_, (Nat.add_sub_of_le inside).symm⟩
  have start : (Scan.initial returnedF).Open := by
    constructor
    · intro opened
      cases opened
    · intro lasts
      cases lasts
  have opened := open_scanBlocks getPkt binfile (spreadOf binfile returnedF) first 0 start
  constructor
  · intro block after before
    have nothing := blockSpread_silent (silent block after before)
    exact ⟨nothing, spreadOf_silent nothing⟩
  · rw [findPktInBinfile, all, scanBlocks_add _ _ _ _ _ _ rfl]
    split
    · exact ⟨rfl, rfl, rfl, rfl⟩
    · apply scanBlocks_silent _ _ _ opened
      intro later after before
      exact spreadOf_silent (blockSpread_silent (silent later (by omega) (by omega)))

/-- A recording of a constant signal and a silent block, both 256 samples long. -/
def signalAndSilence : List UInt8 := List.replicate 512 0 ++ List.replicate 512 127

/-- The file with the constant signal is open when the silence begins, and never passed. -/
theorem silent_rest_signal :
    (scanBlocks (fun _ => true) signalAndSilence (spreadOf signalAndSilence fun _ => 0) 1 0
        (Scan.initial fun _ => 0)).cplxfile.isSome = true ∧
      (findPktInBinfile (fun _ => true) signalAndSilence (spreadOf signalAndSilence fun _ => 0)
        fun _ => 0).cplxfile.isSome = true ∧
      (findPktInBinfile (fun _ => true) signalAndSilence (spreadOf signalAndSilence fun _ => 0)
        fun _ => 0).passed = [] := by
  have total : signalAndSilence.length = 1024 := by
    rw [signalAndSilence, List.length_append, List.length_replicate, List.length_replicate]
  have blocks : numBlocks signalAndSilence = 2 := by
    rw [numBlocks, total]
    rfl
  have size : 2 * blockSize = 512 := rfl
  have silent : ∀ block, 1 ≤ block → block < numBlocks signalAndSilence →
      Silent (arrayAfter signalAndSilence (fun _ => 0) (block + 1)) := by
    intro block least most
    have second : block = 1 := by omega
    rw [second, silent_arrayAfter_iff _ _ (by rw [total]; decide)]
    have behind {k : ℕ} (within : k < 512) :
        signalAndSilence[1 * (2 * blockSize) + k]? = some 127 := by
      rw [signalAndSilence, List.getElem?_append_right (by rw [List.length_replicate]; omega),
        List.length_replicate, List.getElem?_replicate_of_lt (by omega)]
    intro j first last
    exact ⟨behind (by omega), behind (by omega)⟩
  have signal : significant (spreadOf signalAndSilence (fun _ => 0) 0) = true := by
    have low : iqToCplx 0 ≠ 0 := by
      rw [Ne, iqToCplx_eq_zero_iff]
      decide
    have samples {k : ℕ} (within : k < 512) :
        arrayAfter signalAndSilence (fun _ => 0) 1 k = iqToCplx 0 := by
      have byte : signalAndSilence[0 * (2 * blockSize) + k]? = some 0 := by
        rw [signalAndSilence, List.getElem?_append_left (by rw [List.length_replicate]; omega),
          List.getElem?_replicate_of_lt (by omega)]
      rw [arrayAfter, getComplexblockFromIqfile, byte]
    apply significant_constant (Or.inl low)
    intro j inside
    exact ⟨samples (by omega), samples (by omega)⟩
  have first : scanBlocks (fun _ => true) signalAndSilence
      (spreadOf signalAndSilence fun _ => 0) 1 0 (Scan.initial fun _ => 0) =
        scanBlock (fun _ => true) signalAndSilence (spreadOf signalAndSilence fun _ => 0) 0
          (Scan.initial fun _ => 0) := by
    rw [scanBlocks]
    split
    · rfl
    · rfl
  have kept : nextHysteresis (Scan.initial fun _ => 0).hysteresisCount
      (spreadOf signalAndSilence (fun _ => 0) 0) > 0 := by
    rw [nextHysteresis, if_pos signal]
    decide
  rcases silent_rest (fun _ => true) signalAndSilence (fun _ => 0) (by rw [blocks]; decide)
    silent with ⟨_, _, passed, _, still⟩
  rw [passed, still, first, scanBlock, if_pos kept]
  exact ⟨rfl, rfl, rfl⟩

end FcTpms.Extractor

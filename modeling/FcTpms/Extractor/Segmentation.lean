import Mathlib.Data.Rat.Init
import Mathlib.Data.Int.Notation
import Mathlib.Data.Nat.Notation

/-!
# Segments of a recording

`find_pkt_in_binfile` goes through the blocks of a recording. Blocks with a high ratio of peak power
to mean power are significant; these and some that follow are written to a file. When a block is not
kept the file is closed and given to `get_pkt`. The ratio of a block, which comes out of a Fourier
transform, and the success of `get_pkt` on a file are parameters.
-/

namespace FcTpms.Extractor

/-- `block_size`, the `IQ_SAMPLES_PER_BLOCK` of `universal_defines.h`. -/
def blockSize : ℕ := 256

/-- `hysteresis_timeout`. -/
def hysteresisTimeout : ℤ := 3

/-- `block_spread`. It is not a number for a block without power. -/
abbrev BlockSpread := Option ℚ

/-- `block_spread >= def_signal_threshold`. -/
def significant (spread : BlockSpread) : Bool :=
  match spread with
  | some value => 8 ≤ value
  | none => false

/-- `block_spread < def_noise_threshold`. -/
def noise (spread : BlockSpread) : Bool :=
  match spread with
  | some value => value < 5
  | none => false

/-- `(float)(b-127)/(float)128.0`. -/
def iqToCplx (b : UInt8) : ℚ := ((b.toNat : ℤ) - 127) / 128

/-- `num_blocks`. -/
def numBlocks (binfile : List UInt8) : ℕ := (binfile.length + 2 * blockSize - 1) / (2 * blockSize)

/-- `get_complexblock_from_iqfile`, which leaves the rest of `returned_f` when the file ends. -/
def getComplexblockFromIqfile (binfile : List UInt8) (blockNum : ℕ) (returnedF : ℕ → ℚ) : ℕ → ℚ :=
  fun j =>
    match binfile[blockNum * (2 * blockSize) + j]? with
    | some b => iqToCplx b
    | none => returnedF j

/-- The variables of the loop, the files passed to `get_pkt`, and the blocks that were kept. -/
structure Scan where
  /-- `returned_f`. -/
  returnedF : ℕ → ℚ
  /-- `hysteresis_count`. -/
  hysteresisCount : ℤ
  /-- The contents of `cplxfile`, while it is open. -/
  cplxfile : Option (List ℚ)
  /-- `success`. -/
  success : Bool
  passed : List (List ℚ)
  kept : List Bool

/-- The variables before the loop. The array is not initialized. -/
def Scan.initial (returnedF : ℕ → ℚ) : Scan where
  returnedF
  hysteresisCount := 0
  cplxfile := none
  success := false
  passed := []
  kept := []

section Loop

variable (getPkt : List ℚ → Bool) (binfile : List UInt8) (spread : ℕ → BlockSpread)

/-- `hysteresis_count` after a block with this ratio. -/
def nextHysteresis (count : ℤ) (spread : BlockSpread) : ℤ :=
  if significant spread then hysteresisTimeout
  else if noise spread then count - 1
  else count

/-- The body of the loop. -/
def scanBlock (currBlock : ℕ) (scan : Scan) : Scan :=
  let returnedF := getComplexblockFromIqfile binfile currBlock scan.returnedF
  let hysteresisCount := nextHysteresis scan.hysteresisCount (spread currBlock)
  if hysteresisCount > 0 then
    { scan with
      returnedF, hysteresisCount
      cplxfile := some (scan.cplxfile.getD [] ++ (List.range (2 * blockSize)).map returnedF)
      kept := scan.kept ++ [true] }
  else
    match scan.cplxfile with
    | some contents =>
      { scan with
        returnedF, hysteresisCount
        cplxfile := none
        success := getPkt contents
        passed := scan.passed ++ [contents]
        kept := scan.kept ++ [false] }
    | none => { scan with returnedF, hysteresisCount, kept := scan.kept ++ [false] }

/-- The loop over so many blocks from one on: `if (success) return;`. -/
def scanBlocks : ℕ → ℕ → Scan → Scan
  | 0, _, scan => scan
  | left + 1, currBlock, scan =>
    let scan := scanBlock getPkt binfile spread currBlock scan
    if scan.success then scan else scanBlocks left (currBlock + 1) scan

/-- `find_pkt_in_binfile`. -/
def findPktInBinfile (returnedF : ℕ → ℚ) : Scan :=
  scanBlocks getPkt binfile spread (numBlocks binfile) 0 (Scan.initial returnedF)

end Loop

end FcTpms.Extractor

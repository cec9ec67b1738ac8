import FcTpms.Extractor.CplxToPkt
import Mathlib.Data.Rat.Init

/-!
# The peaks of a capture

The beginning of `get_pkt`: a first pass over the file counts the peaks, a second one stores their
positions in an array of that length, and a table of the distances between them gives the nominal
period. Arrays are of fixed length; an access outside of one, or to an entry that has not been
written, has no result.
-/

namespace FcTpms.Extractor

/-- A `float`, as the comparisons of `double` see it. -/
inductive FloatValue where
  | nan
  | infinite (negative : Bool)
  | finite (value : ℚ)
deriving DecidableEq

/-- `>` a threshold. -/
def FloatValue.above (threshold : ℚ) : FloatValue → Bool
  | .nan => false
  | .infinite negative => !negative
  | .finite value => decide (threshold < value)

/-- `<` a threshold. -/
def FloatValue.below (threshold : ℚ) : FloatValue → Bool
  | .nan => false
  | .infinite negative => negative
  | .finite value => decide (value < threshold)

/-- An array. -/
structure CArray (α : Type) where
  entries : List (Option α)

namespace CArray

variable {α : Type}

/-- An array as it is declared. -/
def new (length : ℕ) : CArray α := ⟨List.replicate length none⟩

/-- The value of an entry. -/
def read (array : CArray α) (index : ℕ) : Option α := array.entries[index]?.join

/-- The array with an entry written. -/
def write (array : CArray α) (index : ℕ) (value : α) : Option (CArray α) :=
  if index < array.entries.length then some ⟨array.entries.set index (some value)⟩ else none

end CArray

/-! ## The two passes -/

variable {σ : Type}

/-- `all_freqs`, `freq_freqs`, `freq_count` and `most_freq_index`. -/
structure DistanceTable where
  allFreqs : CArray ℤ
  freqFreqs : CArray ℕ
  freqCount : ℕ
  mostFreqIndex : ℕ

/-- The loop for `interesting_freq_index`, over the indices that are left. -/
def searchFreq (allFreqs : CArray ℤ) (distance : ℤ) : List ℕ → ℕ → Option ℕ
  | [], interesting => some interesting
  | ii :: rest, interesting => do
    let freq ← allFreqs.read ii
    searchFreq allFreqs distance rest (if freq = distance then ii else interesting)

/-- Count one more distance. -/
def DistanceTable.count (table : DistanceTable) (distance : ℤ) : Option DistanceTable := do
  let interesting ← searchFreq table.allFreqs distance (List.range table.freqCount) table.freqCount
  let isNew := decide (interesting = table.freqCount)
  let allFreqs ← if isNew then table.allFreqs.write interesting distance else some table.allFreqs
  let freqFreqs ← if isNew then table.freqFreqs.write interesting 0 else some table.freqFreqs
  let freqCount := if isNew then table.freqCount + 1 else table.freqCount
  let freqFreqs ← freqFreqs.write interesting ((← freqFreqs.read interesting) + 1)
  let occurrences ← freqFreqs.read interesting
  let most ← freqFreqs.read table.mostFreqIndex
  some
    { allFreqs, freqFreqs, freqCount,
      mostFreqIndex := if most < occurrences then interesting else table.mostFreqIndex }

end FcTpms.Extractor

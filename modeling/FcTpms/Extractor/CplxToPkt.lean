import Mathlib.Data.List.MinMax
import Mathlib.Algebra.Order.Group.Int
import Mathlib.Algebra.Order.Group.Unbundled.Abs

/-!
# Extracting a packet from the peaks of a capture

`rtlsdr_cplx-to-pkt.c` was written after the script `rtlsdr_cplx-to-pkt.R`. Both find the peaks of
a capture, take the intervals between them for high or low frequency, find the header of the
packet, and then try longer and longer estimates of the samples per bit until all 69 bits are valid
differential Manchester code. They index the intervals differently: the program searches for a peak
relative to the first one, the script counts the peaks up to a sample.
-/

namespace FcTpms.Extractor

/-- `bits_per_pkt`, the `BITS_PER_FREESCALE_MSG` of `universal_defines.h`. -/
def bitsPerPkt : ℕ := 69

/-! ## Intervals between peaks -/

/-- `pd`: the samples from each peak to the next, both counted. -/
def intervals (cc : List ℤ) : List ℤ := List.zipWith (fun peak next => next - peak + 1) cc cc.tail

/-- `all_freqs` with `freq_freqs`, and `most_freq_index`. -/
structure Tally where
  freqs : List (ℤ × ℕ)
  mostFreqIndex : ℕ

/-- Count one more interval; only a strictly larger count replaces `most_freq_index`. -/
def Tally.count (tally : Tally) (interval : ℤ) : Tally :=
  let index := tally.freqs.findIdx fun freq => freq.1 == interval
  let known := if index = tally.freqs.length then tally.freqs ++ [(interval, 0)] else tally.freqs
  let freqs := known.modify index fun freq => (freq.1, freq.2 + 1)
  let occurrences := fun place => (freqs[place]?.map Prod.snd).getD 0
  { freqs,
    mostFreqIndex :=
      if occurrences tally.mostFreqIndex < occurrences index then index else tally.mostFreqIndex }

/-- `nom_hfreq`: the most frequent interval, of equally frequent ones the first to be so. -/
def nomHfreq (cc : List ℤ) : ℤ :=
  let tally := (intervals cc).foldl Tally.count ⟨[], 0⟩
  (tally.freqs[tally.mostFreqIndex]?.map Prod.fst).getD 0

/-- `hfreqs_lo`, which is `(long)(0.85 * nom_hfreq)`. -/
def hfreqsLo (cc : List ℤ) : ℤ := 85 * nomHfreq cc / 100

/-- `hfreqs_hi`, which is `(long)ceil(1.15 * nom_hfreq)`. -/
def hfreqsHi (cc : List ℤ) : ℤ := (115 * nomHfreq cc + 99) / 100

/-- `in_hf`: the intervals in the band around the most frequent one. -/
def classify (cc : List ℤ) : List Bool :=
  (intervals cc).map fun interval => decide (hfreqsLo cc ≤ interval ∧ interval ≤ hfreqsHi cc)

/-- The peaks of a capture, `cc`, with the classification `in_hf` of the intervals between them. -/
structure Peaks where
  cc : List ℤ
  inHf : List Bool
  counted : ∀ peak ∈ cc, 0 ≤ peak
  increasing : cc.Pairwise (· < ·)
  several : 2 ≤ cc.length
  classified : inHf.length + 1 = cc.length

theorem intervals_length (cc : List ℤ) : (intervals cc).length = cc.length - 1 := by
  simp [intervals]

/-- The peaks at given positions, with the classification that is computed from them. -/
def Peaks.at (cc : List ℤ) (counted : ∀ peak ∈ cc, 0 ≤ peak) (increasing : cc.Pairwise (· < ·))
    (several : 2 ≤ cc.length) : Peaks where
  cc
  inHf := classify cc
  counted
  increasing
  several
  classified := by
    rw [classify, List.length_map, intervals_length]
    omega

/-! ## The header -/

/-- The place of the first interval of a class in `in_hf`, from a place on. -/
def firstFrom (inHf : List Bool) (hf : Bool) (start : ℕ) : Option ℕ :=
  ((inHf.drop start).findIdx? (· == hf)).map (start + ·)

/-- The search finds a place from the start on, in the list. -/
theorem firstFrom_bounds {inHf : List Bool} {hf : Bool} {start place : ℕ}
    (found : firstFrom inHf hf start = some place) : start ≤ place ∧ place < inHf.length := by
  obtain ⟨offset, there, rfl⟩ := Option.map_eq_some_iff.mp found
  have inside := (List.findIdx?_eq_some_iff_findIdx_eq.mp there).1
  rw [List.length_drop] at inside
  omega

/-- `num_consec_hf`: high-frequency intervals that fill 1000 samples. -/
def numConsecHf (cc : List ℤ) : ℕ := ((1000 + hfreqsHi cc - 1) / hfreqsHi cc).toNat

/-- `cc_index_first_peak_of_hf_prelude`, by `strstr(in_hf_s, target_hf)`, where `target_hf` is a
`1` so many times. The source writes the zero that ends the string behind its array of
`num_consec_hf` characters. What lies there is not modelled: where it is overwritten, as has been
seen for 32 characters, the source looks for a longer string and finds no header. -/
def hfPrelude (p : Peaks) : Option ℕ :=
  (List.range p.inHf.length).find? fun place =>
    (p.inHf.drop place).take (numConsecHf p.cc) == List.replicate (numConsecHf p.cc) true

/-- The peaks between which the high frequency of the header lies. -/
structure Header (p : Peaks) where
  firstPeak : ℕ
  lastPeak : ℕ
  ordered : firstPeak < lastPeak
  within : lastPeak < p.cc.length

/-- `cc_index_first_peak_of_hf_header` and `cc_index_last_peak_of_hf_header`: after the prelude in
high frequency and the one in low frequency. Without them `get_pkt` returns. -/
def findHeader (p : Peaks) : Option (Header p) := do
  let hfPeak ← hfPrelude p
  let lfPeak ← firstFrom p.inHf false (hfPeak + 1)
  match firstFrom p.inHf true (lfPeak + 1) with
  | none => none
  | some firstPeak =>
    match found : firstFrom p.inHf false (firstPeak + 1) with
    | none => none
    | some lastPeak =>
      some
        { firstPeak, lastPeak,
          ordered := (firstFrom_bounds found).1,
          within := by
            have := (firstFrom_bounds found).2
            have := p.classified
            omega }

namespace Header

variable {p : Peaks} (header : Header p)

/-- `apx_mid_bit_boundary`. -/
def apxMidBitBoundary : ℤ := p.cc.getD header.firstPeak 0

/-- `orig_samples_per_bit`. -/
def origSamplesPerBit : ℤ := p.cc.getD header.lastPeak 0 - p.cc.getD header.firstPeak 0

/-- `apx_samples_per_qrtr_bit`, which does not follow the estimate. -/
def quarter : ℤ := header.origSamplesPerBit / 4

end Header

/-! ## The program -/

/-- `compute_ccindex_contain_sample`, which gives `cc_length` if no peak is late enough. -/
def computeCcindexContainSample (samp : ℤ) (cc : List ℤ) : ℕ :=
  (cc.tail.findIdx fun peak => decide (samp < peak - cc.headD 0)) + 1

/-- A character of `in_hf_s`. -/
def hfChar (hf : Bool) : Char := if hf then '1' else '0'

/-- The character that ends a string. -/
def nul : Char := Char.ofNat 0

/-- `in_hf_s`, with the character that ends it. -/
def inHfS (p : Peaks) : List Char := p.inHf.map hfChar ++ [nul]

/-- `in_hf_s[compute_ccindex_contain_sample(samp, cc, cc_length) - 1]`. -/
def bitHalf (p : Peaks) (samp : ℤ) : Char :=
  (inHfS p).getD (computeCcindexContainSample samp p.cc - 1) nul

/-- `success &= first_bit_half[j] ^ second_bit_half[j]` keeps the lowest bit, as `true` is 1. -/
def validBit (first second : Char) : Bool := (first.toNat ^^^ second.toNat) % 2 == 1

/-- The middle of the next bit: the first peak that is not more than five samples away. -/
def snap (p : Peaks) (midBit : ℤ) : ℤ :=
  (p.cc.find? fun peak => !decide (5 < |peak - midBit|)).getD midBit

/-- `bit_vals[j]`, for the first half of the bit and the second half of the bit before. -/
def bitVal {α : Type} [DecidableEq α] (previous : Option α) (firstHalf : α) : Char :=
  match previous with
  | none => '1'
  | some second => if firstHalf = second then '1' else '0'

section Program

variable {p : Peaks} (header : Header p)

/-- The bits still to come, from one whose middle is known, if all of them are valid. -/
def bitsFrom (estimate : ℤ) : ℕ → ℤ → Option Char → Option (List Char)
  | 0, _, _ => some []
  | rest + 1, midBit, previous =>
    let firstHalf := bitHalf p (midBit - header.quarter)
    let secondHalf := bitHalf p (midBit + header.quarter)
    if validBit firstHalf secondHalf then
      (bitsFrom estimate rest (snap p (midBit + estimate)) (some secondHalf)).map
        (bitVal previous firstHalf :: ·)
    else none

/-- The loop over the bits of a packet, for one estimate of `apx_samples_per_bit`. -/
def pktBits (estimate : ℤ) : Option (List Char) :=
  bitsFrom header estimate bitsPerPkt header.apxMidBitBoundary none

/-- The loop over the estimates, as long as one is less than 1.2 times the first. -/
def pktFrom (estimate : ℤ) : Option (ℤ × List Char) :=
  if 5 * estimate < 6 * header.origSamplesPerBit then
    match pktBits header estimate with
    | some bitVals => some (estimate, bitVals)
    | none => pktFrom (estimate + 1)
  else none
termination_by (6 * header.origSamplesPerBit - 5 * estimate).toNat

/-- `get_pkt` from the header on: the estimate that gave valid bits, with these. -/
def getPkt : Option (ℤ × List Char) := pktFrom header header.origSamplesPerBit

/-- `get_pkt` tries an estimate. -/
inductive Tries : ℤ → Prop
  | first : 5 * header.origSamplesPerBit < 6 * header.origSamplesPerBit →
      Tries header.origSamplesPerBit
  | longer {estimate : ℤ} : Tries estimate → pktBits header estimate = none →
      5 * (estimate + 1) < 6 * header.origSamplesPerBit → Tries (estimate + 1)

/-- With an estimate that it tries, `get_pkt` looks at a bit with so many others before it. -/
inductive LooksAt (estimate : ℤ) : ℕ → ℤ → Prop
  | first : Tries header estimate → LooksAt estimate 0 header.apxMidBitBoundary
  | next {before : ℕ} {midBit : ℤ} : LooksAt estimate before midBit →
      validBit (bitHalf p (midBit - header.quarter)) (bitHalf p (midBit + header.quarter)) →
      before + 1 < bitsPerPkt → LooksAt estimate (before + 1) (snap p (midBit + estimate))

end Program

/-! ## The script -/

/-- `hf_at_sample`: `in_hf` at the number of peaks up to the sample. Before the first peak the value
has no element, and from the last peak on it is not available. -/
def hfAtSample (p : Peaks) (samp : ℤ) : Option Bool :=
  match p.cc.countP fun peak => decide (peak ≤ samp) with
  | 0 => none
  | place + 1 => p.inHf[place]?

/-- The middle of the next bit: of the peaks less than five samples away the nearest, and of two
equally near ones the first. -/
def nearest (p : Peaks) (midBit : ℤ) : ℤ :=
  ((p.cc.filter fun peak => decide (|peak - midBit| < 5)).argmin
    fun peak => (peak - midBit).natAbs).getD midBit

/-- How the script comes out. -/
inductive ScriptResult (α : Type) where
  /-- All bits are valid. -/
  | success (values : α)
  /-- A bit is not valid, or all estimates are used up. -/
  | failure
  /-- A value that is needed is not available: the script stops with an error. -/
  | stopped

namespace Script

variable {p : Peaks} (header : Header p)

/-- The bits still to come in the script. -/
def bitsFrom (estimate : ℤ) : ℕ → ℤ → Option Bool → ScriptResult (List Char)
  | 0, _, _ => .success []
  | rest + 1, midBit, previous =>
    match hfAtSample p (midBit - header.quarter), hfAtSample p (midBit + header.quarter) with
    | some firstHalf, some secondHalf =>
      if xor firstHalf secondHalf then
        match bitsFrom estimate rest (nearest p (midBit + estimate)) (some secondHalf) with
        | .success values => .success (bitVal previous firstHalf :: values)
        | .failure => .failure
        | .stopped => .stopped
      else .failure
    | _, _ => .stopped

/-- The script's loop over the bits of a packet, for one estimate. -/
def pktBits (estimate : ℤ) : ScriptResult (List Char) :=
  bitsFrom header estimate bitsPerPkt header.apxMidBitBoundary none

/-- The script's loop over the estimates. -/
def pktFrom (estimate : ℤ) : ScriptResult (ℤ × List Char) :=
  if 5 * estimate < 6 * header.origSamplesPerBit then
    match pktBits header estimate with
    | .success bitVals => .success (estimate, bitVals)
    | .failure => pktFrom (estimate + 1)
    | .stopped => .stopped
  else .failure
termination_by (6 * header.origSamplesPerBit - 5 * estimate).toNat

/-- The script from the header on. -/
def getPkt : ScriptResult (ℤ × List Char) := pktFrom header header.origSamplesPerBit

end Script

end FcTpms.Extractor

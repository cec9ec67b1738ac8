import FcTpms.Verif.Extractor

/-!
# Packets that `get_pkt` accepts

A bit is valid if the lowest bits of its two half characters differ. The character that ends the
string of the classes has the lowest bit of a '0', so a first half in high frequency with a second
half behind the last interval is valid, too.
-/

namespace FcTpms.Extractor

variable {p : Peaks} (header : Header p)

/-- `mid_bits[j]`. -/
def midBits (estimate : ℤ) : ℕ → ℤ
  | 0 => header.apxMidBitBoundary
  | j + 1 => snap p (midBits estimate j + estimate)

/-- `first_half_sample[j]`. -/
def firstHalfSample (estimate : ℤ) (j : ℕ) : ℤ := midBits header estimate j - header.quarter

/-- `second_half_sample[j]`. -/
def secondHalfSample (estimate : ℤ) (j : ℕ) : ℤ := midBits header estimate j + header.quarter

/-- `first_bit_half[j]`. -/
def firstBitHalf (estimate : ℤ) (j : ℕ) : Char := bitHalf p (firstHalfSample header estimate j)

/-- `second_bit_half[j]`. -/
def secondBitHalf (estimate : ℤ) (j : ℕ) : Char := bitHalf p (secondHalfSample header estimate j)

/-- The second half of the bit before. -/
def previousHalf (estimate : ℤ) : ℕ → Option Char
  | 0 => none
  | j + 1 => some (secondBitHalf header estimate j)

/-- All bits of an estimate are valid. -/
def AllValid (estimate : ℤ) : Prop :=
  ∀ j < bitsPerPkt, validBit (firstBitHalf header estimate j) (secondBitHalf header estimate j)

instance (estimate : ℤ) : Decidable (AllValid header estimate) :=
  inferInstanceAs (Decidable (∀ j < bitsPerPkt, _))

/-- An estimate is one that `get_pkt` may try. -/
def InRange (estimate : ℤ) : Prop :=
  header.origSamplesPerBit ≤ estimate ∧ 5 * estimate < 6 * header.origSamplesPerBit

/-- An accepted packet is valid differential Manchester code inside of the capture. -/
structure Biphase (estimate : ℤ) (bitVals : List Char) : Prop where
  count : bitVals.length = bitsPerPkt
  first_inside : ∀ j < bitsPerPkt, p.firstPeak ≤ firstHalfSample header estimate j ∧
    firstHalfSample header estimate j ≤ p.lastPeak
  second_inside : ∀ j < bitsPerPkt, p.firstPeak ≤ secondHalfSample header estimate j ∧
    secondHalfSample header estimate j ≤ p.lastPeak
  halves : ∀ j < bitsPerPkt,
    (firstBitHalf header estimate j = '1' ∧ secondBitHalf header estimate j = '0') ∨
      (firstBitHalf header estimate j = '0' ∧ secondBitHalf header estimate j = '1')
  first : bitVals[0]? = some '1'
  repeats : ∀ j, j + 1 < bitsPerPkt → bitVals[j + 1]? = some
    (if firstBitHalf header estimate (j + 1) = secondBitHalf header estimate j then '1' else '0')

/-- What `get_pkt` promises: of the estimates up to 1.2 times the first it finds the least one with
valid bits, and these are biphase code in the capture. -/
structure Sound : Prop where
  accepted : ∀ estimate bitVals, getPkt header = some (estimate, bitVals) →
    Biphase header estimate bitVals
  least : ∀ estimate bitVals, getPkt header = some (estimate, bitVals) →
    InRange header estimate ∧ AllValid header estimate ∧
      ∀ smaller, header.origSamplesPerBit ≤ smaller → smaller < estimate →
        ¬ AllValid header smaller
  rejected : getPkt header = none → ∀ estimate, InRange header estimate →
    ¬ AllValid header estimate

/-- If an estimate is the least one in the range whose bits are all valid, its samples lie behind
the first peak, and less than the distance of the peaks from the start of the recording. -/
def Within : Prop :=
  ∀ estimate, InRange header estimate → AllValid header estimate →
    (∀ smaller, header.origSamplesPerBit ≤ smaller → smaller < estimate →
      ¬ AllValid header smaller) →
    ∀ j < bitsPerPkt, p.firstPeak ≤ firstHalfSample header estimate j ∧
      secondHalfSample header estimate j < p.lastPeak - p.firstPeak

/-! ## Characters of the samples -/

/-- The last peak is not the first one. -/
theorem Peaks.lastPeak_mem_tail (p : Peaks) : p.lastPeak ∈ p.cc.tail := by
  have member := p.lastPeak_mem
  have increasing := p.increasing
  have several := p.several
  rw [p.cc_eq] at member increasing several
  rcases List.mem_cons.mp member with same | later
  · cases tail : p.cc.tail with
    | nil =>
      rw [tail, List.length_singleton] at several
      omega
    | cons peak rest =>
      have there : peak ∈ p.cc.tail := by rw [tail]; exact List.mem_cons_self
      have above := List.rel_of_pairwise_cons increasing there
      have below := p.le_lastPeak (List.mem_of_mem_tail there)
      omega
  · exact later

/-- The character of a sample is that of the interval in front of the first peak behind it. -/
theorem bitHalf_eq_getD (samp : ℤ) : bitHalf p samp =
    (inHfS p).getD (p.cc.tail.findIdx fun peak => decide (samp < peak - p.firstPeak)) nul := rfl

/-- There are as many intervals as peaks behind the first one. -/
theorem inHf_length (p : Peaks) : p.inHf.length = p.cc.tail.length := by
  have classified := p.classified
  rw [List.length_tail]
  omega

/-- In front of the distance between the first and the last peak, a sample has a class. -/
theorem bitHalf_of_lt {samp : ℤ} (before : samp < p.lastPeak - p.firstPeak) :
    ∃ hf, bitHalf p samp = hfChar hf := by
  have found : (p.cc.tail.findIdx fun peak => decide (samp < peak - p.firstPeak)) <
      p.cc.tail.length :=
    List.findIdx_lt_length_of_exists ⟨p.lastPeak, p.lastPeak_mem_tail, decide_eq_true before⟩
  rw [← inHf_length] at found
  rw [bitHalf_eq_getD, List.getD_eq_getElem?_getD, inHfS,
    List.getElem?_append_left (by simpa using found), List.getElem?_map,
    List.getElem?_eq_getElem found]
  exact ⟨_, rfl⟩

/-- From this distance on, a sample has the character that ends the string. -/
theorem bitHalf_of_ge {samp : ℤ} (behind : p.lastPeak - p.firstPeak ≤ samp) :
    bitHalf p samp = nul := by
  have none : (p.cc.tail.findIdx fun peak => decide (samp < peak - p.firstPeak)) =
      p.cc.tail.length := by
    apply List.findIdx_eq_length_of_false
    intro peak there
    have below := p.le_lastPeak (List.mem_of_mem_tail there)
    rw [decide_eq_false_iff_not]
    omega
  rw [bitHalf_eq_getD, none, ← inHf_length, List.getD_eq_getElem?_getD, inHfS,
    List.getElem?_append_right (by simp), List.length_map, Nat.sub_self]
  rfl

/-- A sample has a class if and only if it is in front of this distance. -/
theorem bitHalf_ne_nul_iff {samp : ℤ} :
    bitHalf p samp ≠ nul ↔ samp < p.lastPeak - p.firstPeak := by
  constructor
  · intro proper
    by_contra behind
    exact proper (bitHalf_of_ge (not_lt.mp behind))
  · intro before
    obtain ⟨hf, char⟩ := bitHalf_of_lt before
    rw [char]
    cases hf <;> decide

/-- A valid bit has one half of each class, if both halves have a class. -/
theorem halves_of_validBit {samp other : ℤ} (before : samp < p.lastPeak - p.firstPeak)
    (otherBefore : other < p.lastPeak - p.firstPeak)
    (valid : validBit (bitHalf p samp) (bitHalf p other)) :
    (bitHalf p samp = '1' ∧ bitHalf p other = '0') ∨
      (bitHalf p samp = '0' ∧ bitHalf p other = '1') := by
  obtain ⟨first, firstChar⟩ := bitHalf_of_lt before
  obtain ⟨second, secondChar⟩ := bitHalf_of_lt otherBefore
  rw [firstChar, secondChar, validBit_hfChar] at valid
  rw [firstChar, secondChar]
  cases first with
  | true =>
    cases second with
    | true => exact absurd valid (by decide)
    | false => exact Or.inl ⟨rfl, rfl⟩
  | false =>
    cases second with
    | true => exact Or.inr ⟨rfl, rfl⟩
    | false => exact absurd valid (by decide)

/-! ## The two loops -/

section Loops

variable {header : Header p} {estimate : ℤ}

/-- The loop over the bits from one on gives their values if all of them are valid. -/
theorem bitsFrom_eq (header : Header p) (estimate : ℤ) (rest j : ℕ) :
    bitsFrom header estimate rest (midBits header estimate j) (previousHalf header estimate j) =
      if ∀ i < rest, validBit (firstBitHalf header estimate (j + i))
          (secondBitHalf header estimate (j + i)) then
        some ((List.range rest).map fun i =>
          bitVal (previousHalf header estimate (j + i)) (firstBitHalf header estimate (j + i)))
      else none := by
  induction rest generalizing j with
  | zero => simp [bitsFrom]
  | succ rest ih =>
    rw [bitsFrom]
    show (if validBit (firstBitHalf header estimate j) (secondBitHalf header estimate j) then
      (bitsFrom header estimate rest (midBits header estimate (j + 1))
        (previousHalf header estimate (j + 1))).map
        (bitVal (previousHalf header estimate j) (firstBitHalf header estimate j) :: ·)
      else none) = _
    rw [ih (j + 1)]
    have shift (i : ℕ) : j + 1 + i = j + (i + 1) := by omega
    have all : (∀ i < rest + 1, validBit (firstBitHalf header estimate (j + i))
        (secondBitHalf header estimate (j + i))) ↔
        validBit (firstBitHalf header estimate j) (secondBitHalf header estimate j) ∧
        ∀ i < rest, validBit (firstBitHalf header estimate (j + 1 + i))
          (secondBitHalf header estimate (j + 1 + i)) := by
      constructor
      · intro valid
        constructor
        · exact valid 0 (by omega)
        · intro i below
          rw [shift]
          exact valid (i + 1) (by omega)
      · rintro ⟨here, later⟩ i below
        cases i with
        | zero => exact here
        | succ i =>
          rw [← shift]
          exact later i (by omega)
    by_cases here : validBit (firstBitHalf header estimate j) (secondBitHalf header estimate j)
    · rw [if_pos here]
      by_cases later : ∀ i < rest, validBit (firstBitHalf header estimate (j + 1 + i))
          (secondBitHalf header estimate (j + 1 + i))
      · rw [if_pos later, if_pos (all.mpr ⟨here, later⟩), Option.map_some,
          List.range_succ_eq_map, List.map_cons, List.map_map]
        simp only [shift]
        rfl
      · rw [if_neg later, if_neg fun valid => later (all.mp valid).2]
        rfl
    · rw [if_neg here, if_neg fun valid => here (all.mp valid).1]

/-- The bits of an estimate are found if all of them are valid. -/
theorem pktBits_eq : pktBits header estimate =
    if AllValid header estimate then
      some ((List.range bitsPerPkt).map fun j =>
        bitVal (previousHalf header estimate j) (firstBitHalf header estimate j))
    else none := by
  have bits := bitsFrom_eq header estimate bitsPerPkt 0
  simp only [Nat.zero_add] at bits
  exact bits

/-- The loop over the estimates finds the least one whose bits are all valid. -/
theorem pktFrom_spec (header : Header p) (estimate : ℤ) :
    match pktFrom header estimate with
    | some (found, bitVals) => estimate ≤ found ∧ 5 * found < 6 * header.origSamplesPerBit ∧
        pktBits header found = some bitVals ∧
        ∀ smaller, estimate ≤ smaller → smaller < found → pktBits header smaller = none
    | none => ∀ later, estimate ≤ later → 5 * later < 6 * header.origSamplesPerBit →
        pktBits header later = none := by
  induction estimate using pktFrom.induct header with
  | case1 estimate short bitVals found =>
    rw [pktFrom, if_pos short, found]
    refine ⟨le_refl _, short, found, ?_⟩
    intro smaller above below
    omega
  | case2 estimate short failed ih =>
    rw [pktFrom, if_pos short, failed]
    have further {later : ℤ} (above : estimate ≤ later)
        (others : estimate + 1 ≤ later → pktBits header later = none) :
        pktBits header later = none := by
      by_cases same : later = estimate
      · rw [same]
        exact failed
      · exact others (by omega)
    simp only
    cases result : pktFrom header (estimate + 1) with
    | none =>
      rw [result] at ih
      intro later above inside
      exact further above fun past => ih later past inside
    | some packet =>
      rw [result] at ih
      obtain ⟨above, inside, found, least⟩ := ih
      refine ⟨by omega, inside, found, ?_⟩
      intro smaller from_estimate below
      exact further from_estimate fun past => least smaller past below
  | case3 estimate long =>
    rw [pktFrom, if_neg long]
    intro later above inside
    omega

/-- No bits are found if and only if one of them is not valid. -/
theorem pktBits_eq_none_iff : pktBits header estimate = none ↔ ¬ AllValid header estimate := by
  rw [pktBits_eq]
  by_cases valid : AllValid header estimate
  · rw [if_pos valid]
    exact iff_of_false (Option.some_ne_none _) (not_not.mpr valid)
  · rw [if_neg valid]
    exact iff_of_true rfl valid

/-- What `get_pkt` accepts is the least estimate in the range whose bits are all valid. -/
theorem getPkt_eq_some {bitVals : List Char} (accepts : getPkt header = some (estimate, bitVals)) :
    InRange header estimate ∧ AllValid header estimate ∧
      (∀ smaller, header.origSamplesPerBit ≤ smaller → smaller < estimate →
        ¬ AllValid header smaller) ∧
      bitVals = (List.range bitsPerPkt).map fun j =>
        bitVal (previousHalf header estimate j) (firstBitHalf header estimate j) := by
  have spec := pktFrom_spec header header.origSamplesPerBit
  rw [getPkt] at accepts
  rw [accepts] at spec
  obtain ⟨above, inside, found, least⟩ := spec
  have valid : AllValid header estimate := by
    by_contra invalid
    rw [pktBits_eq_none_iff.mpr invalid] at found
    cases found
  rw [pktBits_eq, if_pos valid] at found
  refine ⟨⟨above, inside⟩, valid, ?_, (Option.some.inj found).symm⟩
  intro smaller from_first below
  exact pktBits_eq_none_iff.mp (least smaller from_first below)

/-- `get_pkt` accepts no estimate only if none in the range has valid bits. -/
theorem getPkt_eq_none (rejects : getPkt header = none) (inside : InRange header estimate) :
    ¬ AllValid header estimate := by
  have spec := pktFrom_spec header header.origSamplesPerBit
  rw [getPkt] at rejects
  rw [rejects] at spec
  exact pktBits_eq_none_iff.mp (spec estimate inside.1 inside.2)

/-- `get_pkt` accepts the least estimate in the range whose bits are all valid. -/
theorem getPkt_of_least (inside : InRange header estimate) (valid : AllValid header estimate)
    (least : ∀ smaller, header.origSamplesPerBit ≤ smaller → smaller < estimate →
      ¬ AllValid header smaller) : ∃ bitVals, getPkt header = some (estimate, bitVals) := by
  cases result : getPkt header with
  | none => exact absurd valid (getPkt_eq_none result inside)
  | some packet =>
    obtain ⟨foundInside, foundValid, foundLeast, _⟩ := getPkt_eq_some result
    have notBelow : ¬ packet.1 < estimate := fun below =>
      least packet.1 foundInside.1 below foundValid
    have notAbove : ¬ estimate < packet.1 := fun above =>
      foundLeast estimate inside.1 above valid
    have same : packet.1 = estimate := by omega
    exact ⟨packet.2, by rw [← same]⟩

end Loops

/-- The first estimate is positive. -/
theorem Header.origSamplesPerBit_pos (header : Header p) : 0 < header.origSamplesPerBit := by
  have within := header.within
  have ordered := header.ordered
  have above := List.pairwise_iff_getElem.mp p.increasing header.firstPeak header.lastPeak
    (by omega) within ordered
  rw [Header.origSamplesPerBit, List.getD_eq_getElem?_getD, List.getD_eq_getElem?_getD,
    List.getElem?_eq_getElem within,
    List.getElem?_eq_getElem (show header.firstPeak < p.cc.length by omega), Option.getD_some,
    Option.getD_some]
  omega

/-- The first half of a bit is not behind the second one. -/
theorem firstHalfSample_le (header : Header p) (estimate : ℤ) (j : ℕ) :
    firstHalfSample header estimate j ≤ secondHalfSample header estimate j := by
  have positive := header.origSamplesPerBit_pos
  have quarter : 0 ≤ header.quarter := Int.ediv_nonneg positive.le (by decide)
  rw [firstHalfSample, secondHalfSample]
  omega

/-- A packet whose samples are all within the peaks is valid code. -/
theorem Within.biphase {header : Header p} {estimate : ℤ} {bitVals : List Char}
    (within : Within header) (accepts : getPkt header = some (estimate, bitVals)) :
    Biphase header estimate bitVals := by
  obtain ⟨inside, valid, least, bits⟩ := getPkt_eq_some accepts
  have samples := within estimate inside valid least
  have counted : 0 ≤ p.firstPeak := by
    apply p.counted
    rw [p.cc_eq]
    exact List.mem_cons_self
  rw [bits]
  constructor
  · rw [List.length_map, List.length_range]
  · intro j few
    have ordered := firstHalfSample_le header estimate j
    obtain ⟨above, below⟩ := samples j few
    omega
  · intro j few
    have ordered := firstHalfSample_le header estimate j
    obtain ⟨above, below⟩ := samples j few
    omega
  · intro j few
    have ordered := firstHalfSample_le header estimate j
    have below := (samples j few).2
    exact halves_of_validBit (lt_of_le_of_lt ordered below) below (valid j few)
  · rfl
  · intro j few
    rw [List.getElem?_map, List.getElem?_range few, Option.map_some]
    rfl

/-- What `get_pkt` accepts is valid code inside of the capture if and only if the samples of the
least estimate with valid bits are within the peaks. -/
theorem getPkt_sound_iff (header : Header p) : Sound header ↔ Within header := by
  constructor
  · intro sound estimate inside valid least j few
    obtain ⟨bitVals, accepts⟩ := getPkt_of_least inside valid least
    have biphase := sound.accepted estimate bitVals accepts
    have proper : secondBitHalf header estimate j ≠ nul := by
      rcases biphase.halves j few with ⟨_, second⟩ | ⟨_, second⟩
      · rw [second]
        decide
      · rw [second]
        decide
    exact ⟨(biphase.first_inside j few).1, bitHalf_ne_nul_iff.mp proper⟩
  · intro within
    constructor
    · exact fun _ _ accepts => within.biphase accepts
    · intro estimate bitVals accepts
      obtain ⟨inside, valid, least, _⟩ := getPkt_eq_some accepts
      exact ⟨inside, valid, least⟩
    · exact fun rejects _ inside => getPkt_eq_none rejects inside

/-- The peaks of a capture that ends in the middle of the last bit. From peak 1201 on, bits of 200
samples follow, whose halves are in high frequency and in low frequency by turns. -/
def cutPeaks : List ℤ :=
  (List.range 11).map (fun i : ℕ => (1 + 100 * i : ℤ)) ++
    (List.range 34).flatMap (fun i : ℕ => [(1201 + 400 * i : ℤ), 1301 + 400 * i, 1401 + 400 * i]) ++
    [14721, 14821]

/-- The capture with these peaks. Those 100 samples apart are in high frequency. -/
def cutCapture : Peaks where
  cc := cutPeaks
  inHf := (intervals cutPeaks).map (· == 101)
  counted := by decide +kernel
  increasing := List.isChain_iff_pairwise.mp (by decide +kernel)
  several := by decide +kernel
  classified := by decide +kernel

/-- The header of that capture. -/
def cutHeader : Header cutCapture := ⟨11, 13, by decide, by decide +kernel⟩

/-- The last bit of that packet has no second half, but is accepted. -/
theorem cutCapture_accepted :
    cutCapture.inHf = classify cutCapture.cc ∧ findHeader cutCapture = some cutHeader ∧
      ¬ Sound cutHeader := by
  have found : (pktBits cutHeader 200).isSome := by decide +kernel
  have valid : AllValid cutHeader 200 := by
    by_contra invalid
    rw [pktBits_eq_none_iff.mpr invalid] at found
    cases found
  have first : cutHeader.origSamplesPerBit = 200 := by decide +kernel
  have ended : secondBitHalf cutHeader 200 68 = nul := by decide +kernel
  have places : (findHeader cutCapture).map (fun header => (header.firstPeak, header.lastPeak)) =
      some (11, 13) := by decide +kernel
  have classes : cutCapture.inHf = classify cutCapture.cc := by decide +kernel
  constructor
  · exact classes
  constructor
  · obtain ⟨⟨firstPeak, lastPeak, _, _⟩, header, same⟩ := Option.map_eq_some_iff.mp places
    obtain ⟨rfl, rfl⟩ := Prod.mk.inj same
    exact header
  · intro sound
    obtain ⟨bitVals, accepts⟩ := @getPkt_of_least _ cutHeader _
      ⟨by omega, by omega⟩ valid (by intro smaller above below; omega)
    rcases (sound.accepted 200 bitVals accepts).halves 68 (by decide) with ⟨_, second⟩ | ⟨_, second⟩
    · rw [ended] at second
      exact absurd second (by decide)
    · rw [ended] at second
      exact absurd second (by decide)

end FcTpms.Extractor

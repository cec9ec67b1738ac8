import FcTpms.Legacy.Buffering
import FcTpms.Verif.SampleNumbers
import Mathlib.Data.List.Induction

/-!
# Buffers and positions

The bits that reach the decoder do not depend on the buffers; only the numbers that come with them
do. An analysis is therefore a run of the decoder over the bits of the stream, each with its
position, and a numbering of the positions: the position itself if the stream is one buffer, the
position in its buffer otherwise.
-/

namespace FcTpms.Liquid

open Machine Legacy Decoder

/-! ## The calls of a stream -/

/-- Those of the results of one sample that are bits for the decoder. -/
def clockedBits : ℕ → List Bool → List Bool
  | _, [] => []
  | out, bitVal :: rest =>
    if out % samplesPerBit = 0 then bitVal :: clockedBits (countOut out) rest
    else clockedBits (countOut out) rest

/-- `total_samples_out` after the results of one sample. -/
def countOuts : ℕ → List Bool → ℕ
  | out, [] => out
  | out, _ :: rest => countOuts (countOut out) rest

/-- Calls of `update_state` with the positions of their samples, where `number` is the number
that is passed for a position. -/
def runCalls (number : ℕ → ℕ) : State → List (ℕ × Bool) → Status State Decoded
  | state, [] => .active state
  | state, (position, b) :: rest =>
    match updateState state b (number position) with
    | none => .halted .overflowed
    | some (later, true) => .halted (.found (position + 1) later.symbols)
    | some (later, false) => runCalls number later rest

/-- The front end between two samples: its objects and `total_samples_out`. -/
structure Line (φ : Type) where
  /-- The filter objects. -/
  objects : φ
  /-- `total_samples_out`. -/
  out : ℕ

section Front

variable {φ : Type} (frontEnd : FrontEnd φ)

/-- The front end after one sample, and the bits it hands to the decoder. -/
def Line.sample (line : Line φ) (position : ℕ) (xi xq : UInt8) : Line φ × List Bool :=
  if position + 1 < startingSample then (line, [])
  else
    let (objects, bits) := frontEnd.execute line.objects xi xq
    (⟨objects, countOuts line.out bits⟩, clockedBits line.out bits)

/-- The front end after the bytes that begin at a position. -/
def Line.after : Line φ → ℕ → List UInt8 → Line φ
  | line, position, xi :: xq :: rest =>
    Line.after (line.sample frontEnd position xi xq).1 (position + 1) rest
  | line, _, _ => line

/-- The calls that come of the bytes that begin at a position. -/
def Line.calls : Line φ → ℕ → List UInt8 → List (ℕ × Bool)
  | line, position, xi :: xq :: rest =>
    (line.sample frontEnd position xi xq).2.map (position, ·) ++
      Line.calls (line.sample frontEnd position xi xq).1 (position + 1) rest
  | _, _, _ => []

end Front

/-- The variables of a process in which the front end and the decoder stand like this. -/
def Line.process {φ : Type} (line : Line φ) (position : ℕ) (decoder : State) : Process φ :=
  ⟨decoder, position, line.out, line.objects⟩

/-- An analysis does what a run of the decoder does. -/
def Follows {φ : Type} (line : Line φ) (position : ℕ) (analysis : Analysis φ) :
    Status State Decoded → Prop
  | .active decoder => analysis = .active (line.process position decoder)
  | .halted result => ∃ stopped, analysis = .halted stopped ∧ decoded (.halted stopped) = result

/-- What follows an analysis that goes on follows what follows the run. -/
theorem Follows.andThen {φ : Type} {line after : Line φ} {position beyond : ℕ}
    {analysis : Analysis φ} {run : Status State Decoded}
    (first : Follows line position analysis run)
    {next : Process φ → Analysis φ} {later : State → Status State Decoded}
    (rest : ∀ decoder, Follows after beyond (next (line.process position decoder))
      (later decoder)) :
    Follows after beyond (analysis.andThen next) (run.andThen later) := by
  cases run with
  | active decoder =>
    have going : analysis = .active (line.process position decoder) := first
    rw [going]
    exact rest decoder
  | halted result =>
    obtain ⟨stopped, ended, seen⟩ := first
    rw [ended]
    exact ⟨stopped, rfl, seen⟩

/-- Calls after each other. -/
theorem runCalls_append (number : ℕ → ℕ) (state : State) (calls more : List (ℕ × Bool)) :
    runCalls number state (calls ++ more) =
      (runCalls number state calls).andThen fun later => runCalls number later more := by
  induction calls generalizing state with
  | nil => rfl
  | cons call rest ih =>
    obtain ⟨position, b⟩ := call
    rw [List.cons_append, runCalls, runCalls]
    cases updateState state b (number position) with
    | none => rfl
    | some reply =>
      obtain ⟨later, found⟩ := reply
      cases found with
      | true => rfl
      | false => exact ih later

/-- The loop over the results of one sample. -/
theorem takeBits_follows {φ : Type} {number : ℕ → ℕ} {position b : ℕ} (here : number position = b)
    (objects : φ) (out : ℕ) (decoder : State) (bits : List Bool) :
    Follows ⟨objects, countOuts out bits⟩ (position + 1)
      (takeBits b (Line.process ⟨objects, out⟩ (position + 1) decoder) bits)
      (runCalls number decoder ((clockedBits out bits).map (position, ·))) := by
  induction bits generalizing out decoder with
  | nil => rfl
  | cons bitVal rest ih =>
    rw [takeBits, clockedBits, countOuts]
    by_cases slot : out % samplesPerBit = 0
    · simp only [Line.process, slot, if_true, List.map_cons, runCalls, here]
      cases updateState decoder bitVal b with
      | none => exact ⟨none, rfl, rfl⟩
      | some reply =>
        obtain ⟨later, found⟩ := reply
        cases found with
        | true => exact ⟨_, rfl, rfl⟩
        | false => exact ih (countOut out) later
    · simp only [Line.process, slot, if_false]
      exact ih (countOut out) decoder

section Analysis

variable {φ : Type} {frontEnd : FrontEnd φ} {number : ℕ → ℕ}

/-- One round of the loop over the samples. -/
theorem analyzeSample_follows (line : Line φ) {position b : ℕ} (here : number position = b)
    (decoder : State) (xi xq : UInt8) :
    Follows (line.sample frontEnd position xi xq).1 (position + 1)
      (analyzeSample frontEnd (line.process position decoder) b xi xq)
      (runCalls number decoder ((line.sample frontEnd position xi xq).2.map (position, ·))) := by
  unfold analyzeSample Line.sample
  dsimp only [Line.process]
  by_cases skipped : position + 1 < startingSample
  · rw [if_pos skipped, if_pos skipped]
    rfl
  · rw [if_neg skipped, if_neg skipped]
    exact takeBits_follows here _ _ _ _

/-- The samples of one buffer. -/
theorem analyzeIqPairs_follows (line : Line φ) (position b : ℕ) (decoder : State)
    (bytes : List UInt8)
    (here : ∀ index, index < bytes.length / 2 → number (position + index) = b + index) :
    Follows (line.after frontEnd position bytes) (position + bytes.length / 2)
      (analyzeIqPairs frontEnd b (line.process position decoder) bytes)
      (runCalls number decoder (line.calls frontEnd position bytes)) := by
  induction bytes using List.twoStepInduction generalizing line position b decoder with
  | nil => rfl
  | singleton byte =>
    have nothing : position + [byte].length / 2 = position := by
      rw [List.length_singleton]
      rfl
    rw [nothing]
    rfl
  | cons_cons xi xq rest ih _ =>
    have half : (xi :: xq :: rest).length / 2 = rest.length / 2 + 1 := by
      rw [List.length_cons, List.length_cons]
      omega
    have beyond : position + (rest.length / 2 + 1) = position + 1 + rest.length / 2 := by omega
    have first : Follows _ _ (analyzeSample frontEnd _ b xi xq) _ :=
      analyzeSample_follows line (here 0 (by omega)) decoder xi xq
    rw [Nat.add_zero] at first
    rw [analyzeIqPairs, Line.calls, runCalls_append, Line.after, half, beyond]
    refine first.andThen fun later => ?_
    have rest := ih (line.sample frontEnd position xi xq).1 (position + 1) (b + 1) later
      fun index inside => by
        have next := here (index + 1) (by omega)
        rw [Nat.add_assoc, Nat.add_comm 1, next]
        omega
    exact rest

/-- The front end after bytes that end with a whole sample. -/
theorem Line.after_append (line : Line φ) (position : ℕ) (bytes more : List UInt8)
    (even : bytes.length % 2 = 0) :
    line.after frontEnd position (bytes ++ more) =
      (line.after frontEnd position bytes).after frontEnd (position + bytes.length / 2) more := by
  induction bytes using List.twoStepInduction generalizing line position with
  | nil => rfl
  | singleton byte =>
    rw [List.length_singleton] at even
    omega
  | cons_cons xi xq rest ih _ =>
    have half : position + (xi :: xq :: rest).length / 2 = position + 1 + rest.length / 2 := by
      rw [List.length_cons, List.length_cons]
      omega
    rw [half, List.cons_append, List.cons_append, Line.after, Line.after]
    refine ih _ _ ?_
    rw [List.length_cons, List.length_cons] at even
    omega

/-- The calls of bytes that end with a whole sample come before those of the rest. -/
theorem Line.calls_append (line : Line φ) (position : ℕ) (bytes more : List UInt8)
    (even : bytes.length % 2 = 0) :
    line.calls frontEnd position (bytes ++ more) = line.calls frontEnd position bytes ++
      (line.after frontEnd position bytes).calls frontEnd (position + bytes.length / 2) more := by
  induction bytes using List.twoStepInduction generalizing line position with
  | nil => rfl
  | singleton byte =>
    rw [List.length_singleton] at even
    omega
  | cons_cons xi xq rest ih _ =>
    have half : position + (xi :: xq :: rest).length / 2 = position + 1 + rest.length / 2 := by
      rw [List.length_cons, List.length_cons]
      omega
    have later := ih (line.sample frontEnd position xi xq).1 (position + 1) (by
      rw [List.length_cons, List.length_cons] at even
      omega)
    rw [half, List.cons_append, List.cons_append, Line.calls, Line.calls, Line.after, later,
      List.append_assoc]

/-- A buffer of a running analysis; the first one only creates what is there. -/
theorem analyzeInput_eq (line : Line φ) (position : ℕ) (decoder : State) (buf : List UInt8)
    (started : position = 0 → line.process position decoder = .initial frontEnd) :
    analyzeInput frontEnd (line.process position decoder) buf (2 * position) =
      analyzeIqPairs frontEnd 0 (line.process position decoder) buf := by
  unfold analyzeInput
  by_cases zero : position = 0
  · have fresh : initAnalysis frontEnd (.initial frontEnd) = .initial frontEnd := rfl
    rw [if_pos (by omega), started zero, fresh]
  · rw [if_neg (by omega)]

end Analysis

/-- The position of a sample in its buffer, when buffers of these numbers of samples are followed
by a last buffer with the rest. -/
def numberIn : List ℕ → ℕ → ℕ
  | [], position => position
  | samples :: rest, position =>
    if position < samples then position else numberIn rest (position - samples)

/-- The buffers of a stream. -/
theorem analyzeBuffers_follows {φ : Type} {frontEnd : FrontEnd φ} {number : ℕ → ℕ}
    (lengths : List ℕ) (positive : ∀ samples ∈ lengths, 0 < samples) (line : Line φ)
    (position : ℕ) (decoder : State) (bytes : List UInt8)
    (enough : 2 * lengths.sum ≤ bytes.length) (limit : 2 * position + bytes.length < 2 ^ 32)
    (started : position = 0 → line.process position decoder = .initial frontEnd)
    (here : ∀ index, index < bytes.length / 2 →
      number (position + index) = numberIn lengths index) :
    Follows (line.after frontEnd position bytes) (position + bytes.length / 2)
      (analyzeBuffers frontEnd (2 * position) (line.process position decoder)
        (cutInto lengths bytes))
      (runCalls number decoder (line.calls frontEnd position bytes)) := by
  induction lengths generalizing line position decoder bytes with
  | nil =>
    have only : analyzeBuffers frontEnd (2 * position) (line.process position decoder)
        (cutInto [] bytes) = analyzeIqPairs frontEnd 0 (line.process position decoder) bytes := by
      rw [cutInto, analyzeBuffers, analyzeInput_eq line position decoder bytes started]
      exact Status.andThen_active _
    rw [only]
    exact analyzeIqPairs_follows line position 0 decoder bytes fun index inside => by
      rw [here index inside, numberIn, Nat.zero_add]
  | cons samples rest ih =>
    rw [List.sum_cons] at enough
    have some := positive samples List.mem_cons_self
    have front : (bytes.take (2 * samples)).length = 2 * samples := by
      rw [List.length_take]
      omega
    have back : (bytes.drop (2 * samples)).length = bytes.length - 2 * samples :=
      List.length_drop
    have half : (bytes.take (2 * samples)).length / 2 = samples := by omega
    have whole := List.take_append_drop (2 * samples) bytes
    have first : Follows _ _ (analyzeIqPairs frontEnd 0 _ _) (runCalls number _ _) :=
      analyzeIqPairs_follows line position 0 decoder (bytes.take (2 * samples))
        fun index inside => by
          rw [here index (by omega), numberIn, if_pos (by omega), Nat.zero_add]
    have calls : line.calls frontEnd _ _ = _ :=
      line.calls_append position (bytes.take (2 * samples)) (bytes.drop (2 * samples)) (by omega)
    have after : line.after frontEnd _ _ = _ :=
      line.after_append position (bytes.take (2 * samples)) (bytes.drop (2 * samples)) (by omega)
    rw [whole, half] at calls after
    rw [half] at first
    have total : position + bytes.length / 2 =
        position + samples + (bytes.drop (2 * samples)).length / 2 := by omega
    rw [cutInto, analyzeBuffers, analyzeInput_eq line position decoder _ started, calls, after,
      runCalls_append, total, front, Nat.mod_eq_of_lt (by omega), ← Nat.mul_add]
    refine first.andThen fun later => ?_
    refine ih (fun samples member => positive samples (List.mem_cons_of_mem _ member)) _ _ _ _
      (by omega) (by omega) (by omega) fun index inside => ?_
    rw [Nat.add_assoc, here (samples + index) (by omega), numberIn, if_neg (by omega),
      Nat.add_sub_cancel_left]

/-! ## What the decoder measures -/

/-- The lengths that the calls measure: for each, the number with which the period began and the
number of the call. -/
def measurements (number : ℕ → ℕ) : State → List (ℕ × Bool) → List (ℕ × ℕ)
  | _, [] => []
  | state, (position, b) :: rest =>
    ((reference state b (number position)).map (·, number position)).toList ++
      match updateState state b (number position) with
      | some (later, false) => measurements number later rest
      | _ => []

/-- A run under other numbers that keep all measured lengths. -/
theorem runCalls_renumber (number other : ℕ → ℕ) (unset : other unk = unk)
    (state : State) (calls : List (ℕ × Bool))
    (keeps : ∀ measured ∈ measurements number state calls,
      KeepsDistance other measured.1 measured.2) :
    runCalls (fun position => other (number position)) (state.renumber other) calls =
      (runCalls number state calls).andThen fun later => .active (later.renumber other) := by
  induction calls generalizing state with
  | nil => rfl
  | cons call rest ih =>
    obtain ⟨position, b⟩ := call
    have here := updateState_renumber (b := b) unset fun start measured =>
      keeps (start, number position) (List.mem_append_left _ (by rw [measured]; exact .head _))
    rw [runCalls, runCalls, here]
    rw [measurements] at keeps
    cases reply : updateState state b (number position) with
    | none => rfl
    | some answer =>
      obtain ⟨later, found⟩ := answer
      cases found with
      | true => rfl
      | false =>
        rw [reply] at keeps
        exact ih later fun measured member => keeps measured (List.mem_append_right _ member)

/-- Calls at increasing positions from a first one on. -/
def Ordered : ℕ → List (ℕ × Bool) → Prop
  | _, [] => True
  | last, call :: rest => last ≤ call.1 ∧ Ordered call.1 rest

theorem Ordered.mono {early late : ℕ} {calls : List (ℕ × Bool)} (ordered : Ordered late calls)
    (before : early ≤ late) : Ordered early calls := by
  cases calls with
  | nil => trivial
  | cons call rest => exact ⟨Nat.le_trans before ordered.1, ordered.2⟩

/-- The calls of one sample before later ones. -/
theorem ordered_sample {position : ℕ} {later : List (ℕ × Bool)} (ordered : Ordered position later)
    (bits : List Bool) : Ordered position (bits.map (position, ·) ++ later) := by
  induction bits with
  | nil => exact ordered
  | cons b rest ih => exact ⟨Nat.le_refl _, ih⟩

/-- Every measured period begins and ends in the run. -/
theorem measurements_placed {first last : ℕ} (positive : 0 < first) (begun : first ≤ last)
    {state : State} {calls : List (ℕ × Bool)} (ordered : Ordered last calls)
    (placed : Placed first last state) :
    ∀ measured ∈ measurements id state calls, first ≤ measured.1 ∧ measured.1 ≤ measured.2 := by
  induction calls generalizing state last with
  | nil => exact fun measured member => (nomatch member)
  | cons call rest ih =>
    obtain ⟨position, b⟩ := call
    obtain ⟨here, later⟩ := ordered
    have inRun : first ≤ position := Nat.le_trans begun here
    intro measured member
    rw [measurements, List.mem_append] at member
    rcases member with now | after
    · cases start : reference state b position with
      | none =>
        rw [id_eq, start] at now
        cases now
      | some start =>
        rw [id_eq, start] at now
        obtain rfl := List.mem_singleton.mp now
        exact (placed.mono here).reference inRun start
    · cases reply : updateState state b position with
      | none =>
        rw [id_eq, reply] at after
        cases after
      | some answer =>
        obtain ⟨next, found⟩ := answer
        rw [id_eq, reply] at after
        cases found with
        | true => cases after
        | false =>
          exact ih inRun later (placed.updateState positive inRun here reply) measured after

/-- The calls of a stream come in order, and none before the first sample that is not skipped. -/
theorem Line.calls_ordered {φ : Type} {frontEnd : FrontEnd φ} (line : Line φ) (position : ℕ)
    (bytes : List UInt8) : Ordered (max position 41) (line.calls frontEnd position bytes) := by
  induction bytes using List.twoStepInduction generalizing line position with
  | nil => trivial
  | singleton byte => trivial
  | cons_cons xi xq rest ih _ =>
    rw [Line.calls]
    have later := ih (line.sample frontEnd position xi xq).1 (position + 1)
    unfold Line.sample at later ⊢
    by_cases skipped : position + 1 < startingSample
    · rw [if_pos skipped] at later ⊢
      exact later.mono (by omega)
    · rw [if_neg skipped] at later ⊢
      have beyond : max position 41 = position := by
        unfold startingSample at skipped
        omega
      rw [beyond]
      exact ordered_sample (later.mono (by omega)) _

/-! ## Streams in buffers -/

/-- The positions at which the buffers after the first one begin, when buffers of these numbers of
samples are followed by a last buffer with the rest. -/
def laterBuffers : List ℕ → List ℕ
  | [] => []
  | samples :: rest => samples :: (laterBuffers rest).map (samples + ·)

/-- Positions in buffers are as far apart as in the stream if no buffer begins between them. -/
theorem numberIn_keepsDistance {lengths : List ℕ} {start sample : ℕ} (ordered : start ≤ sample)
    (same : ∀ position ∈ laterBuffers lengths, ¬(start ≤ position ∧ position ≤ sample)) :
    KeepsDistance (numberIn lengths) start sample := by
  induction lengths generalizing start sample with
  | nil => exact ⟨id, Nat.add_comm _ _⟩
  | cons samples rest ih =>
    rw [laterBuffers] at same
    have here := same samples List.mem_cons_self
    unfold KeepsDistance unk numberIn
    by_cases first : sample < samples
    · rw [if_pos (by omega), if_pos first]
      exact ⟨id, Nat.add_comm _ _⟩
    · rw [if_neg (by omega), if_neg first]
      have later : KeepsDistance (numberIn rest) (start - samples) (sample - samples) := by
        refine ih (by omega) fun position member between => ?_
        exact same (samples + position)
          (List.mem_cons_of_mem _ (List.mem_map_of_mem member)) (by omega)
      have unset := later.1
      have distance := later.2
      unfold unk at unset
      omega

/-- All later buffers begin before the end of the split. -/
theorem le_sum_of_mem_laterBuffers {lengths : List ℕ} {position : ℕ}
    (member : position ∈ laterBuffers lengths) : position ≤ lengths.sum := by
  induction lengths generalizing position with
  | nil => cases member
  | cons samples rest ih =>
    rw [List.sum_cons]
    rcases List.mem_cons.mp member with first | later
    · omega
    · obtain ⟨relative, inside, rfl⟩ := List.mem_map.mp later
      have bound := ih inside
      omega

/-- A stream that is split into nonempty buffers of whole samples, given the numbers of samples in
all of them but the last. -/
structure Splits (lengths : List ℕ) (bytes : List UInt8) : Prop where
  /-- No buffer is empty. -/
  positive : ∀ samples ∈ lengths, 0 < samples
  /-- Neither is the last one. -/
  rest : 2 * lengths.sum < bytes.length
  /-- The last one has whole samples. -/
  even : bytes.length % 2 = 0
  /-- A buffer's length and the byte offset are 32 bit numbers. -/
  size : bytes.length < 2 ^ 32

/-- The calls of a stream. -/
def streamCalls {φ : Type} (frontEnd : FrontEnd φ) (bytes : List UInt8) : List (ℕ × Bool) :=
  Line.calls frontEnd ⟨frontEnd.create, 0⟩ 0 bytes

/-- When the stream is analysed as a whole, a period of the prelude that is measured begins at, or
reaches across, the beginning of a later buffer. -/
def Straddles {φ : Type} (frontEnd : FrontEnd φ) (lengths : List ℕ) (bytes : List UInt8) : Prop :=
  ∃ measured ∈ measurements id .initial (streamCalls frontEnd bytes),
    ∃ position ∈ laterBuffers lengths, measured.1 ≤ position ∧ position ≤ measured.2

/-- What is seen of a run. -/
def outcome : Status State Decoded → Decoded
  | .active _ => .notFound
  | .halted result => result

theorem Follows.decoded {φ : Type} {line : Line φ} {position : ℕ} {analysis : Analysis φ}
    {run : Status State Decoded} (follows : Follows line position analysis run) :
    decoded analysis = outcome run := by
  cases run with
  | active decoder =>
    have same : analysis = .active (line.process position decoder) := follows
    rw [same]
    rfl
  | halted result =>
    obtain ⟨stopped, ended, seen⟩ := follows
    rw [ended, seen]
    rfl

section Streams

variable {φ : Type} {frontEnd : FrontEnd φ} {lengths : List ℕ} {bytes : List UInt8}

/-- An analysis is a run of the decoder over the calls of the stream, numbered buffer by buffer. -/
theorem decodeBuffers_eq (splits : Splits lengths bytes) :
    decodeBuffers frontEnd (cutInto lengths bytes) =
      outcome (runCalls (numberIn lengths) .initial (streamCalls frontEnd bytes)) := by
  have follows : Follows _ _ (analyzeBuffers frontEnd (2 * 0) _ _) _ :=
    analyzeBuffers_follows lengths splits.positive ⟨frontEnd.create, 0⟩ 0 .initial bytes
      (Nat.le_of_lt splits.rest) (by have size := splits.size; omega) (fun _ => rfl)
      fun index _ => by rw [Nat.zero_add]
  exact follows.decoded

/-- A stream in one buffer. -/
theorem Splits.whole (splits : Splits lengths bytes) : Splits [] bytes :=
  ⟨fun _ member => (nomatch member), by
    have rest := splits.rest
    rw [List.sum_nil]
    omega, splits.even, splits.size⟩

/-- The first sample of a stream is the first one of its buffer. -/
theorem numberIn_zero (lengths : List ℕ) (positive : ∀ samples ∈ lengths, 0 < samples) :
    numberIn lengths 0 = 0 := by
  cases lengths with
  | nil => rfl
  | cons samples rest => exact if_pos (positive samples List.mem_cons_self)

/-- The periods that are measured in a stream begin after the samples that are skipped. -/
theorem streamCalls_measurements :
    ∀ measured ∈ measurements id .initial (streamCalls frontEnd bytes),
      startingSample - 1 ≤ measured.1 ∧ measured.1 ≤ measured.2 :=
  measurements_placed (by decide) (Nat.le_max_right 0 41)
    (Line.calls_ordered ⟨frontEnd.create, 0⟩ 0 bytes) placed_initial

/-- A split that no measured period straddles changes nothing. -/
theorem decodeBuffers_of_not_straddles (splits : Splits lengths bytes)
    (inside : ¬Straddles frontEnd lengths bytes) :
    decodeBuffers frontEnd (cutInto lengths bytes) = decodeBuffers frontEnd [bytes] := by
  have unset : numberIn lengths unk = unk := numberIn_zero lengths splits.positive
  have whole : decodeBuffers frontEnd [bytes] =
      outcome (runCalls id .initial (streamCalls frontEnd bytes)) := decodeBuffers_eq splits.whole
  have renumbered := runCalls_renumber id _ unset .initial (streamCalls frontEnd bytes)
    fun measured member =>
      numberIn_keepsDistance (streamCalls_measurements measured member).2
        fun position later between => inside ⟨measured, member, position, later, between⟩
  have same : State.initial.renumber (numberIn lengths) = .initial := by
    unfold State.renumber State.initial
    rw [unset]
  rw [same] at renumbered
  rw [decodeBuffers_eq splits, whole]
  show outcome (runCalls (fun position => numberIn lengths (id position)) _ _) = _
  rw [renumbered]
  cases runCalls id .initial (streamCalls frontEnd bytes) <;> rfl

/-- The first samples are skipped, so buffers that end among them do no harm. -/
theorem not_straddles_of_skipped (short : lengths.sum < startingSample - 1) :
    ¬Straddles frontEnd lengths bytes := by
  rintro ⟨measured, member, position, later, before, -⟩
  have placed := (streamCalls_measurements measured member).1
  have bound := le_sum_of_mem_laterBuffers later
  omega

end Streams

/-! ## A stream that every other split changes -/

/-- A front end that has as many results for a sample as its second byte says, up to 16, with the
sign that its first byte has. -/
def bursts : FrontEnd Unit where
  create := ()
  execute _ xi xq := ((), List.replicate (min xq.toNat 16) (decide (128 ≤ xi)))
  fits _ xi xq := by
    rw [List.length_replicate]
    exact Nat.min_le_right _ _

/-- Samples without results. -/
def silence (samples : ℕ) : List UInt8 := List.replicate (2 * samples) 0

/-- Three samples with forty results, for one call. -/
def burst (b : Bool) : List UInt8 :=
  let sign := if b then 255 else 0
  [sign, 16, sign, 16, sign, 8]

/-- A prelude and a packet. -/
def packetBytes : List UInt8 :=
  burst true ++ silence 509 ++ burst true ++ burst false ++ silence 509 ++ burst false ++
    burst true ++ (List.replicate 68 [true, false]).flatten.flatMap burst

/-- The calls of the packet, at the first sample that is not skipped. -/
def packetCalls : List (ℕ × Bool) := Line.calls bursts ⟨(), 0⟩ (startingSample - 1) packetBytes

/-- A packet was found. -/
def Decoded.isFound : Decoded → Bool
  | .found _ _ => true
  | _ => false

/-- The same bytes later in the stream. -/
theorem Line.calls_later {φ : Type} {frontEnd : FrontEnd φ} (line : Line φ) {position : ℕ}
    (taken : startingSample ≤ position + 1) (delay : ℕ) (bytes : List UInt8) :
    line.calls frontEnd (position + delay) bytes =
      (line.calls frontEnd position bytes).map fun call => (call.1 + delay, call.2) := by
  induction bytes using List.twoStepInduction generalizing line position with
  | nil => rfl
  | singleton byte => rfl
  | cons_cons xi xq rest ih _ =>
    have same : line.sample frontEnd (position + delay) xi xq =
        line.sample frontEnd position xi xq := by
      unfold Line.sample
      rw [if_neg (by omega), if_neg (by omega)]
    rw [Line.calls, Line.calls, same, List.map_append, List.map_map, Nat.add_right_comm,
      ih _ (Nat.le_succ_of_le taken)]
    rfl

/-- Silence makes no calls. -/
theorem calls_silence (line : Line Unit) (position samples : ℕ) (bytes : List UInt8) :
    line.calls bursts position (silence samples ++ bytes) =
      line.calls bursts (position + samples) bytes := by
  induction samples generalizing position with
  | zero => rfl
  | succ samples ih =>
    have first : silence (samples + 1) = 0 :: 0 :: silence samples := rfl
    have quiet : line.sample bursts position 0 0 = (line, []) := by
      unfold Line.sample
      split <;> rfl
    rw [first, List.cons_append, List.cons_append, Line.calls, quiet, List.map_nil, List.nil_append,
      ih, Nat.add_right_comm, Nat.add_assoc]

/-- Calls whose numbers are the same. -/
theorem runCalls_congr {number other : ℕ → ℕ} (state : State) (calls : List (ℕ × Bool))
    (same : ∀ call ∈ calls, number call.1 = other call.1) :
    runCalls number state calls = runCalls other state calls := by
  induction calls generalizing state with
  | nil => rfl
  | cons call rest ih =>
    obtain ⟨position, b⟩ := call
    rw [runCalls, runCalls, same _ List.mem_cons_self]
    cases updateState state b (other position) with
    | none => rfl
    | some answer =>
      obtain ⟨later, found⟩ := answer
      cases found with
      | true => rfl
      | false => exact ih later fun call member => same call (List.mem_cons_of_mem _ member)

/-- Whether a packet is found depends on the numbers of the calls, not on their positions. -/
theorem runCalls_later (number : ℕ → ℕ) (state : State) (delay : ℕ) (calls : List (ℕ × Bool)) :
    (outcome (runCalls number state (calls.map fun call => (call.1 + delay, call.2)))).isFound =
      (outcome (runCalls (fun position => number (position + delay)) state calls)).isFound := by
  induction calls generalizing state with
  | nil => rfl
  | cons call rest ih =>
    obtain ⟨position, b⟩ := call
    rw [List.map_cons, runCalls, runCalls]
    cases updateState state b (number (position + delay)) with
    | none => rfl
    | some answer =>
      obtain ⟨later, found⟩ := answer
      cases found with
      | true => rfl
      | false => exact ih later

/-- The position in the last buffer. -/
theorem numberIn_last {lengths : List ℕ} {position : ℕ} (last : lengths.sum ≤ position) :
    numberIn lengths position = position - lengths.sum := by
  induction lengths generalizing position with
  | nil => rfl
  | cons samples rest ih =>
    rw [List.sum_cons] at last
    rw [numberIn, if_neg (by omega), ih (by omega), List.sum_cons, Nat.sub_sub]

theorem Ordered.le {last : ℕ} {calls : List (ℕ × Bool)} (ordered : Ordered last calls) :
    ∀ call ∈ calls, last ≤ call.1 := by
  induction calls generalizing last with
  | nil => exact fun call member => (nomatch member)
  | cons first rest ih =>
    intro call member
    rcases List.mem_cons.mp member with here | later
    · rw [here]
      exact ordered.1
    · exact Nat.le_trans ordered.1 (ih ordered.2 call later)

theorem packetCalls_ordered : Ordered (startingSample - 1) packetCalls :=
  Line.calls_ordered ⟨(), 0⟩ (startingSample - 1) packetBytes

theorem packetCalls_found : (outcome (runCalls id .initial packetCalls)).isFound = true := by
  decide +kernel

/-- A prelude that begins with the sample number 0 has not begun. -/
theorem packetCalls_lost :
    (outcome (runCalls (· - (startingSample - 1)) .initial packetCalls)).isFound = false := by
  decide +kernel

/-- Larger numbers, where 0 keeps its meaning. -/
def largerBy (delay number : ℕ) : ℕ := if number = unk then unk else number + delay

theorem largerBy_of_le {delay number : ℕ} (set : startingSample - 1 ≤ number) :
    largerBy delay number = number + delay :=
  if_neg fun unset => absurd (unset ▸ set) (by decide)

section Packet

variable {samples : ℕ}

/-- The packet after so much silence. -/
theorem streamCalls_packet (skipped : startingSample - 1 ≤ samples) :
    streamCalls bursts (silence samples ++ packetBytes) =
      packetCalls.map fun call => (call.1 + (samples - (startingSample - 1)), call.2) := by
  have later : Line.calls bursts _ _ _ = _ := Line.calls_later ⟨(), 0⟩ (Nat.le_refl startingSample)
    (samples - (startingSample - 1)) packetBytes
  have position : 41 + (samples - (startingSample - 1)) = 0 + samples := by
    unfold startingSample at *
    omega
  rw [position] at later
  unfold streamCalls
  rw [calls_silence]
  exact later

/-- In one buffer it is found wherever it is. -/
theorem packet_found (skipped : startingSample - 1 ≤ samples) :
    (outcome (runCalls id .initial (streamCalls bursts (silence samples ++ packetBytes)))).isFound =
      true := by
  have renumbered := runCalls_renumber id (largerBy (samples - (startingSample - 1)))
    (if_pos rfl) .initial packetCalls fun measured member => by
      have placed := measurements_placed (by decide) (Nat.le_refl (startingSample - 1))
        packetCalls_ordered placed_initial measured member
      refine ⟨fun unset => ?_, ?_⟩
      · rw [largerBy_of_le placed.1] at unset
        exact (Nat.add_eq_zero_iff.mp unset).1
      · rw [largerBy_of_le placed.1, largerBy_of_le (Nat.le_trans placed.1 placed.2)]
        omega
  have larger : runCalls (fun position => id (position + (samples - (startingSample - 1))))
      .initial packetCalls = runCalls (fun position =>
        largerBy (samples - (startingSample - 1)) (id position)) .initial packetCalls :=
    runCalls_congr _ _ fun call member =>
      (largerBy_of_le (packetCalls_ordered.le call member)).symm
  rw [streamCalls_packet skipped, runCalls_later, larger]
  have same : State.initial.renumber (largerBy (samples - (startingSample - 1))) = .initial := rfl
  rw [same] at renumbered
  rw [renumbered, ← packetCalls_found]
  cases runCalls id .initial packetCalls <;> rfl

/-- If the last buffer begins with it, it is not found. -/
theorem packet_lost {lengths : List ℕ} (skipped : startingSample - 1 ≤ lengths.sum) :
    (outcome (runCalls (numberIn lengths) .initial
      (streamCalls bursts (silence lengths.sum ++ packetBytes)))).isFound = false := by
  have restarted : runCalls (fun position =>
      numberIn lengths (position + (lengths.sum - (startingSample - 1)))) .initial packetCalls =
      runCalls (· - (startingSample - 1)) .initial packetCalls :=
    runCalls_congr _ _ fun call member => by
      have inRun := packetCalls_ordered.le call member
      rw [numberIn_last (by omega)]
      omega
  rw [streamCalls_packet skipped, runCalls_later, restarted, packetCalls_lost]

/-- The stream is one that may be split so. -/
theorem splits_packet {lengths : List ℕ} (positive : ∀ samples ∈ lengths, 0 < samples)
    (room : lengths.sum + 1441 < 2 ^ 31) : Splits lengths (silence lengths.sum ++ packetBytes) := by
  have packet : packetBytes.length = 2882 := by decide +kernel
  have size : (silence lengths.sum ++ packetBytes).length = 2 * lengths.sum + 2882 := by
    rw [List.length_append, packet, silence, List.length_replicate]
  exact ⟨positive, by omega, by omega, by omega⟩

end Packet

/-- The buffers of `analyze_input` change nothing for a stream in which no period of a prelude
reaches across the beginning of a later buffer. They change nothing for any stream only if all of
them but the last one end among the samples that are skipped. -/
theorem decodeBuffers_cutInto (lengths : List ℕ) :
    (∀ (φ : Type) (frontEnd : FrontEnd φ) (bytes : List UInt8), Splits lengths bytes →
      ¬Straddles frontEnd lengths bytes →
      decodeBuffers frontEnd (cutInto lengths bytes) = decodeBuffers frontEnd [bytes]) ∧
    ((∀ samples ∈ lengths, 0 < samples) → lengths.sum + 1441 < 2 ^ 31 →
      ((∀ (φ : Type) (frontEnd : FrontEnd φ) (bytes : List UInt8), Splits lengths bytes →
        decodeBuffers frontEnd (cutInto lengths bytes) = decodeBuffers frontEnd [bytes]) ↔
      lengths.sum < startingSample - 1)) := by
  refine ⟨fun φ frontEnd bytes => decodeBuffers_of_not_straddles, ?_⟩
  intro positive room
  constructor
  · intro same
    by_contra long
    have skipped : startingSample - 1 ≤ lengths.sum := Nat.le_of_not_lt long
    have splits := splits_packet positive room
    have whole : decodeBuffers bursts [_] = _ := decodeBuffers_eq splits.whole
    have found := packet_found skipped
    rw [show id = numberIn [] from rfl, ← whole, ← same Unit bursts _ splits,
      decodeBuffers_eq splits, packet_lost skipped] at found
    cases found
  · intro short φ frontEnd bytes splits
    exact decodeBuffers_of_not_straddles splits (not_straddles_of_skipped short)

/-- A buffer that ends among the skipped samples. -/
theorem packet_after_skipped_buffer :
    decodeBuffers bursts (cutInto [40] (silence 41 ++ packetBytes)) =
      decodeBuffers bursts [silence 41 ++ packetBytes] :=
  (decodeBuffers_cutInto [40]).1 Unit bursts (silence 41 ++ packetBytes)
    ⟨by decide, by decide +kernel, by decide +kernel, by decide +kernel⟩
    (not_straddles_of_skipped (by decide))

/-- A packet whose prelude is cut in two. -/
theorem packet_across_buffers :
    Splits [300] (silence 41 ++ packetBytes) ∧
      decodeBuffers bursts (cutInto [300] (silence 41 ++ packetBytes)) ≠
        decodeBuffers bursts [silence 41 ++ packetBytes] :=
  ⟨⟨by decide, by decide +kernel, by decide +kernel, by decide +kernel⟩, by decide +kernel⟩

end FcTpms.Liquid

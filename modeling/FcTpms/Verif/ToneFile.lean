import FcTpms.Decoder.QuarterTurns
import FcTpms.Verif.TonePrelude

/-!
# Files of two tones

For every sequence of tones there is a file that sounds like it: from each sample to the next the
phase steps by half a turn for the high tone and by a quarter of a turn for the low one. The file
starts with a sample on the positive real axis, which triggers `find_prelude_start`.
-/

namespace FcTpms.Decoder

open Program Program.Prog Arithmetic

/-! ## Samples -/

/-- The quarter turns from one sample to the next. -/
def toneTurns (tone : Bool) : ℕ := if tone then 2 else 1

/-- The frequencies of the tones. -/
noncomputable def turnFreq (tone : Bool) : ℝ := toneTurns tone * (Real.pi / (2 : ℕ))

/-- The quarter turns from the sample with the number `base` to the one so many samples later. -/
def turnSum (tone : ℕ → Bool) (base : ℕ) : ℕ → ℕ
  | 0 => 0
  | count + 1 => turnSum tone base count + toneTurns (tone (base + count + 1))

/-- The samples behind the one with the number `base`. -/
noncomputable def toneSamples (tone : ℕ → Bool) (base count : ℕ) : List (Cplx ℝ) :=
  (List.range count).map fun j => turned (turnSum tone base (j + 1))

/-- A file that holds the sample with the number `base` and so many behind it. -/
def toneFile (tone : ℕ → Bool) (base count : ℕ) : List UInt8 :=
  (List.range (count + 1)).flatMap fun j =>
    [(turnBytes (turnSum tone base j)).1, (turnBytes (turnSum tone base j)).2]

/-- The capture behind the first sample of such a file. -/
noncomputable def toneCapture (tone : ℕ → Bool) (base count : ℕ) : Capture ℝ where
  base := base
  samples := toneSamples tone base count

/-- The step of a tone is its frequency. -/
theorem deltaPhi_tone (turn : ℕ) (tone : Bool) :
    deltaPhi (cargf (turned (turn + toneTurns tone))) (cargf (turned turn)) = turnFreq tone := by
  have few : toneTurns tone % 4 = toneTurns tone := by cases tone <;> rfl
  rw [deltaPhi_turned, few, turnFreq, Nat.cast_ofNat]

/-- The tones are far enough apart. -/
theorem turnFreq_apart : Apart turnFreq := by
  have positive := Real.pi_pos
  have high : turnFreq true = 2 * (Real.pi / 2) := by
    rw [turnFreq, toneTurns, if_pos rfl, Nat.cast_ofNat]
  have low : turnFreq false = Real.pi / 2 := by
    rw [turnFreq, toneTurns, if_neg Bool.false_ne_true, Nat.cast_one, one_mul, Nat.cast_ofNat]
  constructor
  · rw [high]
    linarith
  · rw [high, low]
    linarith
  · rw [high, low]
    linarith

section Sounding

variable {tone : ℕ → Bool} {base count : ℕ}

theorem toneSamples_length : (toneSamples tone base count).length = count := by
  rw [toneSamples, List.length_map, List.length_range]

/-- The samples of the capture. -/
theorem sample_toneCapture {j : ℕ} (inside : j < count) :
    (toneCapture tone base count).sample (base + j + 1) =
      some (turned (turnSum tone base (j + 1))) := by
  have place : base + j + 1 - base - 1 = j := by omega
  have opened : base < base + j + 1 := by omega
  show (if base < base + j + 1 then (toneSamples tone base count)[base + j + 1 - base - 1]?
    else none) = _
  rw [if_pos opened, place, toneSamples, List.getElem?_map, List.getElem?_range inside]
  rfl

/-- The file sounds like its tones. -/
theorem sounds_toneCapture {first last : ℕ} (opened : base < first) (ended : last ≤ base + count) :
    Sounds (toneCapture tone base count) turnFreq tone first last := by
  intro number above below
  obtain ⟨j, rfl⟩ : ∃ j, number = base + j + 1 := ⟨number - base - 1, by omega⟩
  have here := @sample_toneCapture tone base count j (by omega)
  have next := @sample_toneCapture tone base count (j + 1) (by omega)
  exact ⟨_, _, here, next, deltaPhi_tone _ _⟩

theorem last_toneCapture : (toneCapture tone base count).last = base + count := by
  rw [Capture.last]
  exact congrArg (base + ·) toneSamples_length

/-- Nothing comes behind the last sample. -/
theorem behind_toneCapture : (toneCapture tone base count).samples.drop
    (base + count - (toneCapture tone base count).base) = [] := by
  apply List.drop_of_length_le
  rw [toneCapture, toneSamples_length, Nat.add_sub_cancel_left]

/-- A host that passes samples on reads the samples of such a file. -/
theorem process_turns (dsp : Dsp plainHost) (turns : List ℕ) :
    dsp.process (turns.flatMap fun turn => [(turnBytes turn).1, (turnBytes turn).2]) =
      turns.map turned := by
  induction turns generalizing dsp with
  | nil => rfl
  | cons turn rest ih =>
    rw [List.flatMap_cons, List.cons_append, List.cons_append, List.nil_append, Dsp.process, ih,
      List.map_cons]
    rfl

/-- The samples of the file: the first one lies on the positive real axis. -/
theorem process_toneFile (dsp : Dsp plainHost) :
    dsp.process (toneFile tone base count) = turned 0 :: toneSamples tone base count := by
  have turns : toneFile tone base count =
      ((List.range (count + 1)).map (turnSum tone base)).flatMap
        fun turn => [(turnBytes turn).1, (turnBytes turn).2] := by
    rw [toneFile, List.flatMap_map]
  rw [turns, process_turns, List.map_map, List.range_succ_eq_map, List.map_cons, List.map_map]
  rfl

end Sounding

/-! ## The trigger -/

/-- The first sample of such a file is strong. -/
theorem turned_strong : lt (literal (9 / 10)) (turned 0).re = true := by
  have most : ((255 : UInt8).toNat : ℝ) = 255 := Nat.cast_ofNat
  have start : (turned 0).re = ((((255 : UInt8).toNat : ℝ)) - 127) / 128 := by
    rw [turned, toSample_exact]
    rfl
  rw [lt_exact, start, most]
  show ((9 / 10 : ℚ) : ℝ) < (255 - 127) / 128
  norm_num

/-- `find_prelude_start` stops at a strong sample and listens to what comes behind it. -/
theorem findPreludeStart_strong {host : Host ℝ} {state : State host} {sample : Cplx ℝ}
    {rest : List (Cplx ℝ)} (idle : state.reader.Idle) (more : state.reader.file.eof = false)
    (holds : state.reader.upcoming = sample :: rest)
    (strong : lt (literal (9 / 10)) sample.re = true) :
    (findPreludeStart : Decode host ℕ).Attains state fun trigger later _ =>
      trigger = state.reader.totalSamplesIn + 1 ∧
        later = { state with reader := state.reader.advanced } ∧
        Listening ⟨state.reader.totalSamplesIn + 1, rest⟩ later.reader
          (state.reader.totalSamplesIn + 1) := by
  have advanced : state.reader.idleNext = state.reader.advanced := by
    rw [Reader.idleNext, if_neg (by rw [holds]; exact List.cons_ne_nil _ _)]
  have behind : state.reader.advanced.upcoming = rest := upcoming_advanced holds
  have kept := idle.idleNext
  rw [advanced] at kept
  unfold findPreludeStart
  apply Attains.loop
  rw [attains_bind]
  apply (getNextSample_attains state).mono
  rintro result later early ⟨rfl, rfl, _⟩
  have ended : state.reader.advanced.file.eof = false := more
  rw [idle.next, idle.afterNext, advanced, holds]
  simp only [List.head?_cons, attains_bind, attains_get, ended, Bool.false_eq_true, if_false,
    strong, if_true, attains_pure]
  refine ⟨rfl, True.intro, ⟨kept, ⟨le_refl _, ?_⟩, rfl, ended⟩⟩
  rw [behind]
  show rest = rest.drop (state.reader.totalSamplesIn + 1 - (state.reader.totalSamplesIn + 1))
  rw [Nat.sub_self, List.drop_zero]

/-- A sample that does not trigger the search. -/
def Weak (sample : Cplx ℝ) : Prop := lt (literal (9 / 10)) sample.re = false

/-- `find_prelude_start` passes by a weak sample. -/
theorem findPreludeStart_weak {host : Host ℝ} {state : State host} {sample : Cplx ℝ}
    {rest : List (Cplx ℝ)} {goal : ℕ → State host → List (Event host) → Prop}
    (idle : state.reader.Idle) (more : state.reader.file.eof = false)
    (holds : state.reader.upcoming = sample :: rest) (weak : Weak sample)
    (later : ∀ early, (findPreludeStart : Decode host ℕ).Attains
      { state with reader := state.reader.advanced } fun trigger stop late =>
        goal trigger stop (early ++ late)) :
    (findPreludeStart : Decode host ℕ).Attains state goal := by
  have advanced : state.reader.idleNext = state.reader.advanced := by
    rw [Reader.idleNext, if_neg (by rw [holds]; exact List.cons_ne_nil _ _)]
  have ended : state.reader.advanced.file.eof = false := more
  unfold Weak at weak
  unfold findPreludeStart
  apply Attains.loop
  rw [attains_bind]
  apply (getNextSample_attains state).mono
  rintro result middle early ⟨rfl, rfl, _⟩
  rw [idle.next, idle.afterNext, advanced, holds]
  simp only [List.head?_cons, attains_bind, attains_get, ended, Bool.false_eq_true, if_false,
    weak, attains_pure]
  exact later _

/-- Behind weak samples it stops at the first strong one. -/
theorem findPreludeStart_behind {host : Host ℝ} {state : State host}
    {lead : List (Cplx ℝ)} {sample : Cplx ℝ} {rest : List (Cplx ℝ)} (idle : state.reader.Idle)
    (more : state.reader.file.eof = false) (holds : state.reader.upcoming = lead ++ sample :: rest)
    (weak : ∀ early ∈ lead, Weak early) (strong : lt (literal (9 / 10)) sample.re = true) :
    (findPreludeStart : Decode host ℕ).Attains state fun _ later _ =>
      Listening ⟨state.reader.totalSamplesIn + lead.length + 1, rest⟩ later.reader
        (state.reader.totalSamplesIn + lead.length + 1) := by
  induction lead generalizing state with
  | nil =>
    apply (findPreludeStart_strong idle more holds strong).mono
    rintro _ later _ ⟨_, _, listening⟩
    exact listening
  | cons first others ih =>
    have kept := idle.idleNext
    rw [Reader.idleNext, if_neg (by rw [holds]; exact List.cons_ne_nil _ _)] at kept
    apply findPreludeStart_weak idle more holds (weak first List.mem_cons_self)
    intro _
    have behind : state.reader.advanced.upcoming = others ++ sample :: rest :=
      upcoming_advanced holds
    have counted : state.reader.totalSamplesIn + (first :: others).length + 1 =
        state.reader.advanced.totalSamplesIn + others.length + 1 := by
      rw [List.length_cons, Reader.advanced]
      dsimp only
      omega
    rw [counted]
    exact @ih { state with reader := state.reader.advanced } kept more behind
      fun early member => weak early (List.mem_cons_of_mem _ member)

end FcTpms.Decoder

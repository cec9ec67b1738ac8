import FcTpms.Verif.FirstAttempt
import FcTpms.Verif.RoundTrip
import FcTpms.Verif.Success
import FcTpms.Verif.ToneFile

/-!
# Files with an ideal signal

Behind weak samples and one that triggers the search a file carries an ideal signal of a packet. The
search measures its prelude and makes one attempt there, which finds the packet; until then samples
are read one by one. So what holds of that attempt holds of the search: `getPacket_measures`.
-/

namespace FcTpms.Decoder

open Program Program.Prog Arithmetic

/-! ## Before the attempt -/

section Searching

variable {F : Type} {host : Host F}

/-- An event of a part that reads samples one by one. -/
def Event.Sampling : Event host → Prop
  | .visit _ | .cacheIndex _ => True
  | _ => False

variable [Arithmetic F]

/-- An event of the search for a prelude that is measured only where a sample is left. -/
def Event.Searching : Event host → Prop
  | .enterPrelude state => state.reader.upcoming ≠ []
  | event => event.Sampling

theorem searching_of_sampling {event : Event host} (sampling : event.Sampling) :
    event.Searching := by
  cases event with
  | enterPrelude => exact sampling.elim
  | _ => exact sampling

theorem calm_of_searching {event : Event host} (searching : event.Searching) : event.Calm := by
  cases event with
  | enterAttempt => exact searching.elim
  | _ => exact True.intro

variable (host) in
/-- Measuring a prelude reads samples one by one. -/
theorem sampling_preludeFree :
    PreludeFree (fun _ => True) Event.Sampling fun _ : State host => True := by
  have sample : Keeps (fun _ => True) Event.Sampling (fun _ : State host => True)
      getNextSample := by
    apply Triple.intro fun start _ => Attains.triple ?_
    apply (getNextSample_attains start).mono
    rintro result later trace ⟨_, _, reading⟩
    constructor
    · intro event member
      have here := reading event member
      cases event with
      | visit => exact True.intro
      | cacheIndex => exact True.intro
      | _ => exact here.elim
    · exact True.intro
  exact ⟨sample, fun _ _ _ => True.intro, fun _ _ => True.intro⟩

variable (host) in
theorem findPreludeStart_sampling (state : State host) :
    (findPreludeStart : Decode host ℕ).Ensures state fun _ _ trace =>
      ∀ event ∈ trace, event.Sampling :=
  Ensures.mono ((findPreludeStart_keeps (sampling_preludeFree host).sample).ensures True.intro)
    fun _ _ _ kept => kept.1

/-- Where a sample is left its prelude is measured, and nothing else is. -/
theorem isValidPrelude_searching {state : State host} (left : state.reader.upcoming ≠ []) :
    (isValidPrelude : Decode host Bool).Ensures state fun _ _ trace =>
      Event.enterPrelude state ∈ trace ∧ ∀ event ∈ trace, event.Searching := by
  have free := sampling_preludeFree host
  simp only [isValidPrelude, ensures_bind, ensures_get, ensures_emit, ensures_assignPrelude]
  refine Ensures.mono (free.sample.ensures True.intro) ?_
  intro sample second early read
  cases sample with
  | none => exact ensures_nullDereference
  | some x =>
    refine Ensures.mono ((free.measurePrelude_keeps _).ensures True.intro) ?_
    intro valid third late measured
    constructor
    · simp
    · simp only [List.nil_append, List.forall_mem_append, List.forall_mem_cons, List.not_mem_nil,
        false_implies, implies_true, and_true]
      have searched := fun event member => searching_of_sampling (read.1 event member)
      have phases := fun event member => searching_of_sampling (measured.1 event member)
      exact ⟨left, True.intro, True.intro, searched, phases⟩

end Searching

/-! ## Sample numbers -/

/-- Samples are numbered from the first of a file on. -/
theorem sample_shift {F : Type} (samples : List (Cplx F)) (base number : ℕ) :
    (⟨base, samples⟩ : Capture F).sample (base + number) =
      (⟨0, samples⟩ : Capture F).sample number := by
  have place : base + number - base - 1 = number - 0 - 1 := by omega
  have behind : base < base + number ↔ 0 < number := by omega
  rw [Capture.sample, Capture.sample, place]
  by_cases later : 0 < number
  · rw [if_pos later, if_pos (behind.mpr later)]
  · rw [if_neg later, if_neg fun more => later (behind.mp more)]

/-- An ideal signal is one wherever the file begins. -/
theorem IdealSignal.shift {samples : List (Cplx ℝ)} {freq : Bool → ℝ} {payload : List Bool}
    {halfLength lowStart syncStart : ℕ}
    (signal : IdealSignal ⟨0, samples⟩ freq payload halfLength 0 lowStart syncStart) (base : ℕ) :
    IdealSignal ⟨base, samples⟩ freq payload halfLength base (base + lowStart)
      (base + syncStart) := by
  have high := signal.highPhase
  have low := signal.lowPhase
  have length := signal.length
  have tone (number : ℕ) :
      idealTone payload halfLength (base + lowStart) (base + syncStart) (base + number) =
        idealTone payload halfLength lowStart syncStart number := by
    have place : base + number - (base + syncStart) = number - syncStart := by omega
    unfold idealTone
    rw [place]
    by_cases early : number < lowStart
    · rw [if_pos early, if_pos (by omega)]
    · rw [if_neg early, if_neg (by omega)]
      by_cases middle : number < syncStart
      · rw [if_pos middle, if_pos (by omega)]
      · rw [if_neg middle, if_neg (by omega)]
  constructor
  case holds => exact signal.holds
  case length => exact length
  case lower => exact signal.lower
  case upper => exact signal.upper
  case differ => exact signal.differ
  case highPhase => omega
  case lowPhase => omega
  case sounds =>
    intro number above below
    obtain ⟨place, rfl⟩ : ∃ place, number = base + place := ⟨number - base, by omega⟩
    rcases signal.sounds place (by omega) (by omega) with ⟨before, sample, here, next, step⟩
    have following : base + place + 1 = base + (place + 1) := by omega
    rw [following, tone]
    apply Exists.intro before
    apply Exists.intro sample
    rw [following, sample_shift, sample_shift]
    exact ⟨here, next, step⟩
  case more =>
    have more := signal.more
    unfold Capture.last at more ⊢
    simp only at more ⊢
    omega

/-! ## The attempt -/

variable {host : Host ℝ} {payload : List Bool}

/-- A file carries an ideal signal of a packet to a filter and an oscillator: its samples are weak
ones, one that triggers the search, and the signal behind it. -/
structure Carries (dsp : Dsp host) (bytes : List UInt8) (payload : List Bool)
    (lead : List (Cplx ℝ)) (trigger : Cplx ℝ) (rest : List (Cplx ℝ)) (freq : Bool → ℝ)
    (halfLength lowStart syncStart : ℕ) : Prop where
  processed : dsp.process bytes = lead ++ trigger :: rest
  weak : ∀ sample ∈ lead, Weak sample
  strong : lt (literal (9 / 10)) trigger.re = true
  signal : IdealSignal ⟨0, rest⟩ freq payload halfLength 0 lowStart syncStart

/-- The search has measured a prelude whose symbols have twice `halfLength` and one sample, and its
attempt finds the packet. -/
structure Measured (payload : List Bool) (halfLength : ℕ) (measured : State host)
    (early : List (Event host)) : Prop where
  idle : measured.reader.Idle
  samplesPerSym : measured.prelude.samplesPerSym = 2 * halfLength + 1
  syncBitsEnd : measured.prelude.syncBitsEnd = u32 measured.reader.totalSamplesIn
  entered : ∃ state, Event.enterPrelude state ∈ early
  searching : ∀ event ∈ early, event.Searching
  finds : (attempt (2 * halfLength + 1) : Decode host _).Attains measured fun result later _ =>
    (∃ packetSyms, result = some packetSyms) ∧ later.validPkt = true ∧
      Collected payload later.packet

/-- What holds of the attempt at the prelude of an ideal signal holds of the search. -/
theorem getPacket_measures {bytes : List UInt8} {lead rest : List (Cplx ℝ)} {trigger : Cplx ℝ}
    {freq : Bool → ℝ} {halfLength lowStart syncStart : ℕ} {start : State host}
    {goal : Option (List ℤ) → State host → List (Event host) → Prop}
    (carries : Carries start.reader.device bytes payload lead trigger rest freq halfLength lowStart
      syncStart)
    (counted : start.reader.totalSamplesIn + bytes.length / 2 ≤ 2 ^ 32)
    (tried : ∀ measured early, Measured payload halfLength measured early →
      syncStart + 2 * halfLength + measured.reader.upcoming.length = rest.length →
      measured.reader.totalSamplesIn + measured.reader.upcoming.length =
        start.reader.totalSamplesIn + bytes.length / 2 →
      (attempt (2 * halfLength + 1) : Decode host _).Attains measured fun result later late =>
        (∃ packetSyms, result = some packetSyms) ∧ goal result later (early ++ late)) :
    (getPacket : Decode host _).Attains (start.opened bytes) goal := by
  obtain ⟨processed, weak, strong, signal⟩ := carries
  obtain ⟨state, opened⟩ : ∃ state : State host, state = (start.opened bytes).searching := ⟨_, rfl⟩
  have idle : state.reader.Idle := by
    rw [opened]
    exact idle_searching _
  have more : state.reader.file.eof = false := by
    rw [opened]
    rfl
  have total : state.reader.totalSamplesIn = start.reader.totalSamplesIn := by
    rw [opened]
    rfl
  have ahead : state.reader.upcoming = lead ++ trigger :: rest := by
    rw [opened]
    exact processed
  have samples : lead.length + rest.length + 1 = bytes.length / 2 := by
    rw [← process_length start.reader.device bytes, processed, List.length_append, List.length_cons,
      Nat.add_assoc]
  obtain ⟨base, based⟩ : ∃ base, base = state.reader.totalSamplesIn + lead.length + 1 := ⟨_, rfl⟩
  have tail := signal.more
  rw [Capture.last] at tail
  simp only at tail
  have shifted := signal.shift base
  obtain ⟨shortest, longest⟩ := shifted.length
  obtain ⟨lowEarliest, _⟩ := shifted.highPhase
  obtain ⟨syncEarliest, _⟩ := shifted.lowPhase
  obtain ⟨origin, place⟩ : ∃ origin, base + syncStart = origin + halfLength + 1 :=
    ⟨base + syncStart - halfLength - 1, by omega⟩
  have last : Capture.last (⟨base, rest⟩ : Capture ℝ) = base + rest.length := rfl
  have sounds := shifted.sounds
  have keyed : Keyed (idealTone payload halfLength (base + lowStart) (base + syncStart))
      (LineCode.halfBits false payload) halfLength origin := keyed_idealTone (by omega) place
  have form := prelude_idealTone shifted.holds shifted.length shifted.highPhase shifted.lowPhase
  have syncEnd : base + syncStart + 2 * halfLength = origin + 3 * halfLength + 1 := by omega
  rw [syncEnd] at form
  have search := findPreludeStart_behind idle more ahead weak strong
  rw [← based] at search
  unfold State.searching at opened
  unfold getPacket
  apply Attains.loop
  simp only [searchPrelude, attains_bind, attains_assignReader, attains_get]
  rw [← opened]
  apply (search.and_ensures (findPreludeStart_sampling host state)).mono
  rintro _ found early ⟨listening, sampling⟩
  have going : found.reader.file.eof = false := listening.more
  have left : found.reader.upcoming ≠ [] := by
    rw [listening.placed.rest, listening.number, ← List.length_pos_iff, List.length_drop]
    dsimp only
    omega
  rw [going, if_neg Bool.false_ne_true, attains_bind]
  apply ((isValidPrelude_tones shifted.apart form listening
    fun m lower upper => sounds m lower (by omega)).and_ensures
      (isValidPrelude_searching left)).mono
  rintro valid measured middle ⟨⟨rfl, recognized⟩, entered, searching⟩
  have symbol : measured.prelude.samplesPerSym = 2 * halfLength + 1 := by
    rw [recognized.samplesPerSym]
    omega
  have packet := tryToGetPacketSymbols_tones shifted.holds shortest longest keyed
    (fun m lower upper => sounds m (by omega) (by omega)) (by omega) (by omega) recognized.heard
    recognized.separates
  have finds : (attempt (2 * halfLength + 1) : Decode host _).Attains measured
      fun result later _ => (∃ packetSyms, result = some packetSyms) ∧ later.validPkt = true ∧
        Collected payload later.packet := by
    simp only [attempt, attains_bind, attains_get, recognized.syncBitsEnd]
    apply packet.mono
    rintro result later late ⟨rfl, valid, collected⟩
    simp only [attains_bind, attains_get, valid, if_true, attains_pure]
    exact ⟨⟨_, rfl⟩, True.intro, collected⟩
  have behind : measured.reader.upcoming.length =
      rest.length - (origin + 3 * halfLength + 1 - base) := by
    rw [recognized.heard.placed.rest, List.length_drop, recognized.heard.number]
  have number : measured.reader.totalSamplesIn = origin + 3 * halfLength + 1 :=
    recognized.heard.number
  obtain ⟨before, shown⟩ : ∃ before : List (Event host), before =
      [.visit { start.opened bytes with
        reader := { (start.opened bytes).reader with readFromCache := false } }] ++
      ([.visit state] ++ (early ++ middle)) := ⟨_, rfl⟩
  have reached : Measured payload halfLength measured before := by
    constructor
    case idle => exact recognized.heard.idle
    case samplesPerSym => exact symbol
    case syncBitsEnd =>
      rw [number]
      exact recognized.syncBitsEnd
    case entered =>
      apply Exists.intro found
      rw [shown]
      simp [entered]
    case searching =>
      have searched := fun event member => searching_of_sampling (sampling event member)
      rw [shown]
      simp only [List.forall_mem_append, List.forall_mem_cons, List.not_mem_nil, false_implies,
        implies_true, and_true]
      exact ⟨True.intro, True.intro, searched, searching⟩
    case finds => exact finds
  simp only [if_true, attains_bind, attains_get, symbol, tryEstimates]
  apply (tried measured before reached (by omega) (by omega)).mono
  rintro result later late ⟨⟨packetSyms, rfl⟩, holds⟩
  rw [shown] at holds
  simpa only [attains_pure, List.append_nil, List.nil_append, List.append_assoc, opened] using holds

/-! ## Files of two tones -/

/-- What a file of two tones sounds like behind its first sample. -/
theorem idealSignal_toneSamples (holds : Payload payload)
    {halfLength lowStart syncStart count : ℕ} (length : 153 ≤ halfLength ∧ halfLength ≤ 255)
    (high : 1024 ≤ lowStart ∧ lowStart ≤ 2049)
    (low : lowStart + 1024 ≤ syncStart ∧ syncStart ≤ lowStart + 2048)
    (more : syncStart + 137 * halfLength - 1 + 1024 ≤ count) :
    IdealSignal ⟨0, toneSamples (idealTone payload halfLength lowStart syncStart) 0 count⟩
      turnFreq payload halfLength 0 lowStart syncStart := by
  have last := @last_toneCapture (idealTone payload halfLength lowStart syncStart) 0 count
  have apart := turnFreq_apart
  have positive := Real.pi_pos
  have double : turnFreq true = 2 * turnFreq false := by
    unfold turnFreq toneTurns
    simp
  have some : 0 < turnFreq true := apart.positive
  constructor
  case holds => exact holds
  case length => exact length
  case lower => linarith
  case upper => linarith
  case differ =>
    intro same
    linarith
  case highPhase => omega
  case lowPhase => exact low
  case sounds => exact sounds_toneCapture (by omega) (by omega)
  case more =>
    have whole : Capture.last (⟨0, toneSamples
        (idealTone payload halfLength lowStart syncStart) 0 count⟩ : Capture ℝ) =
        0 + count := last
    omega

/-- A sample has two bytes. -/
theorem length_toneFile (tone : ℕ → Bool) (base count : ℕ) :
    (toneFile tone base count).length / 2 = count + 1 := by
  have samples := process_length (Dsp.initial plainHost) (toneFile tone base count)
  rw [process_toneFile, List.length_cons, toneSamples_length] at samples
  exact samples.symm

/-- Such a file carries the signal. -/
theorem carries_toneFile (holds : Payload payload) {halfLength lowStart syncStart count : ℕ}
    (length : 153 ≤ halfLength ∧ halfLength ≤ 255) (high : 1024 ≤ lowStart ∧ lowStart ≤ 2049)
    (low : lowStart + 1024 ≤ syncStart ∧ syncStart ≤ lowStart + 2048)
    (more : syncStart + 137 * halfLength - 1 + 1024 ≤ count) (dsp : Dsp plainHost) :
    Carries dsp (toneFile (idealTone payload halfLength lowStart syncStart) 0 count) payload []
      (turned 0) (toneSamples (idealTone payload halfLength lowStart syncStart) 0 count) turnFreq
      halfLength lowStart syncStart :=
  ⟨process_toneFile dsp, nofun, turned_strong, idealSignal_toneSamples holds length high low more⟩

end FcTpms.Decoder

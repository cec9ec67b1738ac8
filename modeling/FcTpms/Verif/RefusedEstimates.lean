import FcTpms.Verif.Success
import FcTpms.Verif.Termination
import FcTpms.Verif.ToneFile

/-!
# Estimates that are refused

A prelude may measure symbols that are longer than any symbol of a packet by more than the
tolerance. Then every attempt at it is refused before it reads a sample: the file stays where it
was, the flag is left raised although no packet was found, and the cache is declared to start behind
the sync bits although it still holds what an earlier packet left there.
-/

namespace FcTpms.Decoder

open Program Program.Prog Arithmetic

variable {F : Type} {host : Host F} [Arithmetic F]

/-! ## Attempts -/

omit [Arithmetic F] in
/-- A reader that has read nothing since another. -/
structure Reader.SameFile (reader later : Reader host) : Prop where
  file : later.file = reader.file
  dsp : later.dsp = reader.dsp
  total : later.totalSamplesIn = reader.totalSamplesIn
  count : later.cacheCount = reader.cacheCount

omit [Arithmetic F] in
theorem Reader.SameFile.refl (reader : Reader host) : reader.SameFile reader := ⟨rfl, rfl, rfl, rfl⟩

omit [Arithmetic F] in
theorem Reader.SameFile.trans {first second third : Reader host} (early : first.SameFile second)
    (late : second.SameFile third) : first.SameFile third :=
  ⟨late.file.trans early.file, late.dsp.trans early.dsp, late.total.trans early.total,
    late.count.trans early.count⟩

/-- What has read nothing since has the same samples ahead. -/
theorem Reader.SameFile.upcoming {reader later : Reader host} (same : reader.SameFile later) :
    later.upcoming = reader.upcoming := by
  rw [Reader.upcoming, Reader.upcoming, Reader.device, Reader.device, same.file, same.dsp]

omit [Arithmetic F] in
/-- Every attempt of a run finds so many samples in the cache. -/
def AttemptsWith (count : ℤ) (trace : List (Event host)) : Prop :=
  ∀ estimate state, Event.enterAttempt estimate state ∈ trace → state.reader.cacheCount = count

omit [Arithmetic F] in
theorem AttemptsWith.append {count : ℤ} {early late : List (Event host)}
    (former : AttemptsWith count early) (latter : AttemptsWith count late) :
    AttemptsWith count (early ++ late) := by
  intro estimate state member
  rcases List.mem_append.mp member with first | second
  · exact former estimate state first
  · exact latter estimate state second

omit [Arithmetic F] in
/-- A run without attempts. -/
theorem attemptsWith_of_calm {count : ℤ} {trace : List (Event host)}
    (calm : ∀ event ∈ trace, event.Calm) : AttemptsWith count trace :=
  fun _ _ member => (calm _ member).elim

/-- An attempt that is refused returns nothing, raises the flag and reads nothing. -/
theorem attempt_refused {estimate : ℕ} (refused : ¬ Admitted estimate) (state : State host) :
    (attempt estimate : Decode host _).Attains state fun result later trace =>
      result = none ∧ later.validPkt = true ∧ state.reader.SameFile later.reader ∧
        AttemptsWith state.reader.cacheCount trace ∧
        (state.reader.readFromCache = false →
          later.reader.cacheLocInFile = state.reader.totalSamplesIn) := by
  have rejected : estimate > maxSamplesPerSymbol ∨ estimate < minSamplesPerSymbol := by
    unfold Admitted at refused
    omega
  simp only [attempt, tryToGetPacketSymbols, startCache, attains_bind, attains_get, attains_emit,
    attains_assignReader]
  by_cases replaying : state.reader.readFromCache = true
  · simp only [replaying, Bool.not_true, Bool.false_eq_true, if_false, attains_pure,
      attains_setValidPkt, if_pos rejected]
    refine ⟨True.intro, True.intro, ⟨rfl, rfl, rfl, rfl⟩, ?_, fun file => ?_⟩
    · simp [AttemptsWith]
    · cases file
  · rw [Bool.not_eq_true] at replaying
    simp only [replaying, Bool.not_false, if_true, attains_assignReader, attains_setValidPkt,
      if_pos rejected, attains_pure]
    refine ⟨True.intro, True.intro, ⟨rfl, rfl, rfl, rfl⟩, ?_, fun _ => True.intro⟩
    simp [AttemptsWith]

/-- A retry loop all of whose estimates are refused. The rank of an estimate tells how many are
still to come. -/
theorem retry_refused {continues : ℕ → Bool} {next : ℕ → ℕ} (rank : ℕ → ℕ) (along : ℕ → Prop)
    (steps : ∀ estimate, along estimate → continues estimate = true →
      ¬ Admitted estimate ∧ along (next estimate) ∧ rank (next estimate) < rank estimate)
    (estimate : ℕ) (holds : along estimate) (state : State host) (valid : state.validPkt = true) :
    (retry continues next estimate : Decode host _).Attains state fun result later trace =>
      result = none ∧ later.validPkt = true ∧ state.reader.SameFile later.reader ∧
        AttemptsWith state.reader.cacheCount trace := by
  induction order : rank estimate using Nat.strong_induction_on generalizing estimate state with
  | _ bound ih =>
    unfold retry
    apply Attains.loop
    by_cases going : continues estimate = true
    · obtain ⟨refused, onward, less⟩ := steps estimate holds going
      simp only [going, Bool.not_true, Bool.false_eq_true, if_false, attains_bind]
      apply (attempt_refused refused state).mono
      rintro result middle early ⟨rfl, valid', same, tried, _⟩
      rw [attains_pure]
      apply (ih (rank (next estimate)) (by omega) (next estimate) onward middle valid' rfl).mono
      rintro result later late ⟨rfl, valid'', same', tried'⟩
      rw [same.count] at tried'
      rw [List.append_nil]
      exact ⟨rfl, valid'', same.trans same', tried.append tried'⟩
    · rw [Bool.not_eq_true] at going
      simp only [going, Bool.not_false, if_true, attains_pure]
      exact ⟨True.intro, valid, Reader.SameFile.refl _, attemptsWith_of_calm fun _ member =>
        absurd member List.not_mem_nil⟩

/-- If even nineteen twentieths of the measured length are more than any symbol has, every attempt
is refused. The first of them turns to a cache that is said to start where the file was left. -/
theorem tryEstimates_refused {measured : ℕ} (long : 539 < measured) (small : measured < 2 ^ 31)
    (state : State host) (file : state.reader.readFromCache = false) :
    (tryEstimates measured : Decode host _).Attains state fun result later trace =>
      result = none ∧ later.validPkt = true ∧ state.reader.SameFile later.reader ∧
        AttemptsWith state.reader.cacheCount trace ∧
        ∃ turned : State host, Event.visit turned ∈ trace ∧ turned.reader.readFromCache = true ∧
          state.reader.SameFile turned.reader ∧
          turned.reader.cacheLocInFile = state.reader.totalSamplesIn := by
  have refused (estimate : ℕ) (above : 512 < estimate) : ¬ Admitted estimate := by
    unfold Admitted maxSamplesPerSymbol
    omega
  have shorter (estimate : ℕ) (below : estimate < measured)
      (going : aboveShortest measured estimate = true) :
      ¬ Admitted estimate ∧ u32 ((estimate : ℤ) - 1) < measured ∧
        u32 ((estimate : ℤ) - 1) < estimate := by
    have less := shorter_approaches measured estimate going
    have bound : estimate * 2 ^ 28 > (2 ^ 28 - 13421773) * measured := of_decide_eq_true going
    exact ⟨refused estimate (by omega), by omega, less⟩
  have longer (estimate : ℕ) (above : measured < estimate)
      (going : belowLongest measured estimate = true) :
      ¬ Admitted estimate ∧ measured < u32 ((estimate : ℤ) + 1) ∧
        2 ^ 32 - u32 ((estimate : ℤ) + 1) < 2 ^ 32 - estimate := by
    have less := longer_approaches (le_of_lt small) estimate going
    have bound : estimate * 2 ^ 28 < (2 ^ 28 + 13421773) * measured := of_decide_eq_true going
    have stored := u32_of_lt (show 0 ≤ (estimate : ℤ) + 1 by omega)
      (show (estimate : ℤ) + 1 < 2 ^ 32 by omega)
    exact ⟨refused estimate (by omega), by omega, less⟩
  have before : u32 ((measured : ℤ) - 1) < measured := by
    have stored := u32_of_lt (show 0 ≤ (measured : ℤ) - 1 by omega)
      (show (measured : ℤ) - 1 < 2 ^ 32 by omega)
    omega
  have behind : measured < u32 ((measured : ℤ) + 1) := by
    have stored := u32_of_lt (show 0 ≤ (measured : ℤ) + 1 by omega)
      (show (measured : ℤ) + 1 < 2 ^ 32 by omega)
    omega
  simp only [tryEstimates, attains_bind]
  apply (attempt_refused (refused measured (by omega)) state).mono
  rintro result first early ⟨rfl, valid, same, tried, place⟩
  simp only [attains_bind, attains_assignReader]
  apply (retry_refused id (fun estimate => estimate < measured) shorter _ before
    { first with reader := { first.reader with readFromCache := true } } valid).mono
  rintro result second middle ⟨rfl, valid', same', tried'⟩
  dsimp only
  apply (retry_refused (2 ^ 32 - ·) (fun estimate => measured < estimate) longer _ behind second
    valid').mono
  rintro result third late ⟨rfl, valid'', same'', tried''⟩
  have turned : state.reader.SameFile { first.reader with readFromCache := true } :=
    ⟨same.file, same.dsp, same.total, same.count⟩
  rw [same'.count] at tried''
  have retried : AttemptsWith state.reader.cacheCount (middle ++ late) := by
    rw [← same.count]
    exact tried'.append tried''
  have between : AttemptsWith state.reader.cacheCount
      [Event.visit { first with reader := { first.reader with readFromCache := true } }] :=
    attemptsWith_of_calm fun event member => by
      rw [List.mem_singleton.mp member]
      exact True.intro
  refine ⟨rfl, valid'', (turned.trans same').trans same'',
    tried.append (between.append retried), ?_⟩
  exact ⟨{ first with reader := { first.reader with readFromCache := true } }, by simp, rfl,
    turned, place file⟩

/-- At the end of the file nothing is found. -/
theorem findPreludeStart_ended {state : State host} (idle : state.reader.Idle)
    (nothing : state.reader.upcoming = []) :
    (findPreludeStart : Decode host ℕ).Attains state fun _ later _ =>
      later.reader.file.eof = true ∧ later.validPkt = state.validPkt := by
  have ended : state.reader.idleNext = state.reader.ended := by
    rw [Reader.idleNext, if_pos nothing]
  unfold findPreludeStart
  apply Attains.loop
  rw [attains_bind]
  apply (getNextSample_attains state).mono
  rintro result later early ⟨rfl, rfl, _⟩
  rw [idle.next, idle.afterNext, ended, nothing]
  simp only [List.head?_nil, attains_pure]
  exact ⟨rfl, True.intro⟩

/-! ## A file with one such prelude -/

/-- The file of a sequence of tones does not depend on the number of its first sample. -/
theorem toneFile_shift (tone : ℕ → Bool) (base count : ℕ) :
    toneFile (fun number => tone (number - base)) base count = toneFile tone 0 count := by
  have sums (steps : ℕ) :
      turnSum (fun number => tone (number - base)) base steps = turnSum tone 0 steps := by
    induction steps with
    | zero => rfl
    | succ steps ih =>
      have place : base + steps + 1 - base = 0 + steps + 1 := by omega
      rw [turnSum, turnSum, ih, place]
  simp only [toneFile, sums]

/-- A prelude whose sync bits measure 601 samples for a symbol. -/
def longTone (number : ℕ) : Bool :=
  decide (number < 1024) || decide (2048 ≤ number ∧ number < 2648)

/-- A file with this prelude alone. -/
def longFile : List UInt8 := toneFile longTone 0 2648

/-- The prelude, wherever its first sample is. -/
theorem longTone_prelude (trigger : ℕ) :
    TonePrelude (fun number => longTone (number - trigger)) trigger (trigger + 1024)
      (trigger + 2048) (trigger + 2648) := by
  constructor
  · intro m above below
    simp [longTone]
    omega
  · intro m above below
    simp [longTone]
    omega
  · intro m above below
    simp [longTone]
    omega
  · simp [longTone]
  · omega
  · omega
  · omega

/-- The cache is replayed as if it started where the file was left, in a state that a run
visits. -/
def TurnsStale (count : ℤ) (trace : List (Event host)) : Prop :=
  ∃ turned : State host, Event.visit turned ∈ trace ∧ turned.reader.readFromCache = true ∧
    turned.reader.cacheCount = count ∧ turned.reader.cacheLocInFile = turned.reader.totalSamplesIn

/-- The round of the search that finds the prelude. -/
theorem searchPrelude_refused (start : State plainHost)
    (opened : start.reader.file = { rest := longFile, eof := false }) :
    (searchPrelude : Decode plainHost _).Attains start fun answer later trace =>
      answer = .inl () ∧ later.validPkt = true ∧ later.reader.upcoming = [] ∧
        AttemptsWith start.reader.cacheCount trace ∧
        TurnsStale start.reader.cacheCount trace := by
  obtain ⟨trigger, triggered⟩ : ∃ trigger, trigger = start.reader.totalSamplesIn + 1 := ⟨_, rfl⟩
  obtain ⟨state, searching⟩ : ∃ state : State plainHost, state = { start with reader :=
      { start.reader with readFromCache := false, writeToCache := false } } := ⟨_, rfl⟩
  have idle : state.reader.Idle := by
    rw [searching]
    exact ⟨rfl, rfl⟩
  have more : state.reader.file.eof = false := by
    rw [searching, opened]
  have number : state.reader.totalSamplesIn + 1 = trigger := by
    rw [searching, triggered]
  have ahead : state.reader.upcoming =
      turned 0 :: toneSamples (fun number => longTone (number - trigger)) trigger 2648 := by
    have file : state.reader.file.rest =
        toneFile (fun number => longTone (number - trigger)) trigger 2648 := by
      rw [toneFile_shift, searching, opened, longFile]
    rw [Reader.upcoming, file, process_toneFile]
  simp only [searchPrelude, attains_bind, attains_assignReader, attains_get]
  rw [← searching]
  have free := searching_preludeFree plainHost state.validPkt
  apply ((findPreludeStart_strong idle more ahead turned_strong).and_ensures
    ((findPreludeStart_keeps free.sample).ensures ⟨idle, rfl⟩)).mono
  rintro _ found early ⟨⟨_, rfl, listening⟩, calm, searched⟩
  rw [number] at listening
  have going : state.reader.advanced.file.eof = false := listening.more
  rw [going, if_neg Bool.false_ne_true, attains_bind]
  apply ((isValidPrelude_tones turnFreq_apart (longTone_prelude trigger) listening
    (sounds_toneCapture (by omega) (by omega))).and_ensures
    ((free.isValidPrelude_keeps (fun _ _ => True.intro) True.intro).ensures searched)).mono
  rintro valid measured middle ⟨⟨rfl, recognized⟩, calm', _⟩
  have length : measured.prelude.samplesPerSym = 601 := by
    rw [recognized.samplesPerSym]
    omega
  have behind : measured.reader.upcoming = [] := by
    rw [recognized.heard.placed.rest, recognized.heard.number]
    exact behind_toneCapture
  have count : measured.reader.cacheCount = start.reader.cacheCount := by
    rw [recognized.kept.count]
    show state.reader.cacheCount = _
    rw [searching]
  simp only [if_true, attains_bind, attains_get, length]
  apply (tryEstimates_refused (by decide) (by decide) measured recognized.heard.idle.file).mono
  rintro result failed late ⟨rfl, valid, same, tried, stale, seen, cached, kept, place⟩
  rw [count] at tried
  have quiet := (attemptsWith_of_calm calm).append ((attemptsWith_of_calm calm').append tried)
  rw [attains_pure]
  refine ⟨rfl, valid, same.upcoming.trans behind, ?_, stale, ?_, cached, kept.count.trans count, ?_⟩
  · intro estimate found member
    apply quiet estimate found
    simpa using member
  · simp [seen]
  · rw [place, kept.total]

/-- The round that finds the end of the file. -/
theorem searchPrelude_ended (start : State host) (nothing : start.reader.upcoming = []) :
    (searchPrelude : Decode host _).Attains start fun answer later trace =>
      answer = .inr none ∧ later.validPkt = start.validPkt ∧ ∀ event ∈ trace, event.Calm := by
  have free := searching_preludeFree host start.validPkt
  simp only [searchPrelude, attains_bind, attains_assignReader, attains_get]
  apply ((findPreludeStart_ended (idle_searching start) nothing).and_ensures
    ((findPreludeStart_keeps free.sample).ensures ⟨idle_searching start, rfl⟩)).mono
  rintro _ later early ⟨⟨ended, valid⟩, calm, _⟩
  rw [ended, if_pos rfl, attains_pure]
  refine ⟨rfl, valid, fun event member => ?_⟩
  simp only [List.append_nil, List.mem_append, List.mem_cons, List.not_mem_nil, or_false] at member
  rcases member with rfl | rfl | searched
  · exact True.intro
  · exact True.intro
  · exact calm event searched

/-- No packet is found in the file, but the flag is raised, and the cache is replayed as if it
started where the file was left. -/
theorem getPacket_refused (start : State plainHost)
    (opened : start.reader.file = { rest := longFile, eof := false }) :
    (getPacket : Decode plainHost _).Attains start fun result later trace =>
      result = none ∧ later.validPkt = true ∧ AttemptsWith start.reader.cacheCount trace ∧
        TurnsStale start.reader.cacheCount trace := by
  unfold getPacket
  apply Attains.loop
  apply (searchPrelude_refused start opened).mono
  rintro answer middle early ⟨rfl, valid, nothing, tried, stale⟩
  dsimp only
  apply Attains.loop
  apply (searchPrelude_ended middle nothing).mono
  rintro answer later late ⟨rfl, same, calm⟩
  dsimp only
  obtain ⟨turned, seen, rest⟩ := stale
  exact ⟨rfl, same.trans valid, tried.append (attemptsWith_of_calm calm), turned,
    List.mem_append_left _ seen, rest⟩

/-! ## The flag after such a file -/

end FcTpms.Decoder

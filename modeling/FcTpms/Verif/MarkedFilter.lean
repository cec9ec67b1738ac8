import FcTpms.Verif.History
import FcTpms.Verif.SampleStream

/-!
# A filter that waits for a mark

The filter of a process is created once. Take one that halves all samples, but passes the second one
of a process on if the first one was a mark. Behind any other first sample no sample is strong
enough to trigger the search; a fresh process finds the packet in a file that begins with the mark,
as half a sample has the same phase.
-/

namespace FcTpms.Decoder

open Program Program.Prog Arithmetic Text

/-! ## The filter -/

/-- Half of a sample. -/
noncomputable def halved (sample : Cplx ℝ) : Cplx ℝ :=
  ⟨div sample.re (literal 2), div sample.im (literal 2)⟩

/-- What the filter has seen. -/
inductive Seen where
  /-- Nothing. -/
  | nothing
  /-- The mark. -/
  | mark
  /-- Anything else, or more. -/
  | other

/-- A filter that halves samples, but passes the one behind a mark at the start on. -/
noncomputable def markHost (mark : UInt8) : Host ℝ where
  Filter := Seen
  Nco := Unit
  iirfiltCreateLowpass _ _ := .nothing
  iirfiltExecute
    | .nothing, sample =>
      (if sample.re = (toSample mark 127).re then .mark else .other, halved sample)
    | .mark, sample => (.other, sample)
    | .other, sample => (.other, halved sample)
  ncoCreate := ()
  ncoSetFrequency nco _ := nco
  ncoMixDown nco sample := (nco, sample)
  ncoStep nco := nco
  uninitialized _ _ := ⟨0, 0⟩
  aroundCache _ := ⟨0, 0⟩

variable {mark : UInt8}

/-- The filter will not pass a sample on any more. -/
def Deaf (dsp : Dsp (markHost mark)) : Prop := dsp.filter = Seen.other

/-- The filter was just created. -/
def Created (dsp : Dsp (markHost mark)) : Prop := dsp.filter = Seen.nothing

theorem deaf_preprocess {dsp : Dsp (markHost mark)} (deaf : Deaf dsp) (sample : Cplx ℝ) :
    Deaf (dsp.preprocess sample).1 ∧ (dsp.preprocess sample).2 = halved sample := by
  rcases dsp with ⟨filter, nco⟩
  cases deaf
  exact ⟨rfl, rfl⟩

theorem created_preprocess {dsp : Dsp (markHost mark)} (created : Created dsp)
    (sample : Cplx ℝ) :
    (dsp.preprocess sample).2 = halved sample ∧
      (sample.re ≠ (toSample mark 127).re → Deaf (dsp.preprocess sample).1) := by
  rcases dsp with ⟨filter, nco⟩
  cases created
  exact ⟨rfl, fun other => if_neg other⟩

/-- Samples with another real part are other samples. -/
theorem toSample_re_ne {first second third : UInt8} (other : first ≠ second) :
    (toSample (F := ℝ) first third).re ≠ (toSample (F := ℝ) second 127).re := by
  intro same
  rw [toSample_exact, toSample_exact] at same
  apply other
  apply UInt8.toNat_inj.mp
  have parts : ((first.toNat : ℝ) - 127) / 128 = ((second.toNat : ℝ) - 127) / 128 := same
  have equal : (first.toNat : ℝ) = second.toNat := by linarith
  exact_mod_cast equal

/-- Half of a sample is weak. -/
theorem weak_halved (first second : UInt8) : Weak (halved (toSample first second)) := by
  have byte : (first.toNat : ℝ) ≤ 255 := by exact_mod_cast Nat.le_of_lt_succ first.toNat_lt
  rw [Weak, Bool.eq_false_iff, toSample_exact, Ne, lt_exact, not_lt]
  show ((first.toNat : ℝ) - 127) / 128 / ((2 : ℚ) : ℝ) ≤ ((9 / 10 : ℚ) : ℝ)
  push_cast
  linarith

theorem deaf_weak {dsp : Dsp (markHost mark)} (deaf : Deaf dsp) {bytes : List UInt8}
    {sample : Cplx ℝ} (member : sample ∈ dsp.process bytes) : Weak sample := by
  induction bytes using List.twoStepInduction generalizing dsp with
  | nil => cases member
  | singleton byte => cases member
  | cons_cons first second rest ih _ =>
    rw [Dsp.process, List.mem_cons] at member
    have here := deaf_preprocess deaf (toSample first second)
    rcases member with rfl | later
    · rw [here.2]
      exact weak_halved first second
    · exact ih here.1 later

theorem deaf_behind {dsp : Dsp (markHost mark)} (deaf : Deaf dsp) (bytes : List UInt8) :
    Deaf (dsp.behind bytes) := by
  induction bytes using List.twoStepInduction generalizing dsp with
  | nil => exact deaf
  | singleton byte => exact deaf
  | cons_cons first second rest ih _ => exact ih (deaf_preprocess deaf _).1

/-- Behind a first sample that is not the mark the filter is deaf. -/
theorem created_unmarked {dsp : Dsp (markHost mark)} (created : Created dsp)
    {first second : UInt8} {rest : List UInt8} (other : first ≠ mark) :
    (∀ sample ∈ dsp.process (first :: second :: rest), Weak sample) ∧
      Deaf (dsp.behind (first :: second :: rest)) := by
  have here := created_preprocess created (toSample first second)
  have deaf := here.2 (toSample_re_ne other)
  constructor
  · intro sample member
    rw [Dsp.process, List.mem_cons] at member
    rcases member with rfl | later
    · rw [here.1]
      exact weak_halved first second
    · exact deaf_weak deaf later
  · exact deaf_behind deaf rest

/-! ## Files without a strong sample -/

section Silent

variable {host : Host ℝ}

/-- The search meets the end of the file. -/
theorem findPreludeStart_silent {state : State host} (idle : state.reader.Idle)
    (more : state.reader.file.eof = false)
    (weak : ∀ sample ∈ state.reader.upcoming, Weak sample) :
    (findPreludeStart : Decode host ℕ).Attains state fun _ later _ =>
      later.reader.file.eof = true := by
  induction ahead : state.reader.upcoming generalizing state with
  | nil =>
    apply (findPreludeStart_nothing idle ahead).mono
    rintro _ later _ rfl
    rfl
  | cons sample rest ih =>
    rw [ahead] at weak
    have kept := idle.idleNext
    rw [Reader.idleNext, if_neg (by rw [ahead]; exact List.cons_ne_nil _ _)] at kept
    apply findPreludeStart_weak idle more ahead (weak sample List.mem_cons_self)
    intro _
    have behind : state.reader.advanced.upcoming = rest := upcoming_advanced ahead
    apply @ih { state with reader := state.reader.advanced } kept more _ behind
    rw [behind]
    exact fun later member => weak later (List.mem_cons_of_mem _ member)

/-- The end of a file may be odd. -/
theorem behind_read (dsp : Dsp host) {read bytes : List UInt8} (begins : read <+: bytes)
    (whole : 2 ∣ read.length) (all : bytes.length < read.length + 2) :
    dsp.behind bytes = dsp.behind read := by
  rcases begins with ⟨tail, rfl⟩
  rw [List.length_append] at all
  rw [behind_append _ whole]
  rcases tail with _ | ⟨byte, _ | ⟨other, more⟩⟩
  · rfl
  · rfl
  · rw [List.length_cons, List.length_cons] at all
    omega

/-- In a file of weak samples nothing is found, and all of it passes through the filter. -/
theorem fleetAnalysis_silent {file : SourceFile} {start : State host}
    (weak : ∀ sample ∈ start.reader.device.process (file.contents.getD []), Weak sample) :
    (fleetAnalysis file : Decode host _).Attains start fun reply later _ =>
      (∃ symbols, reply = fleetReply 0 symbols file.srcFilename) ∧
        later.reader.device = start.reader.device.behind (file.contents.getD []) := by
  have fails : (analyzeFile file : Decode host ℤ).Attains start fun result _ _ => result = 0 := by
    cases contents : file.contents with
    | none =>
      rw [analyzeFile_missing contents, attains_pure]
    | some bytes =>
      rw [contents, Option.getD_some] at weak
      have searched := findPreludeStart_silent (idle_searching (start.opened bytes)) rfl weak
      unfold State.searching at searched
      simp only [analyzeFile_opened contents, attains_bind, attains_assignReader]
      apply Attains.loop
      simp only [searchPrelude, attains_bind, attains_assignReader, attains_get]
      apply searched.mono
      intro _ later _ ended
      rw [if_pos ended, attains_pure]
      dsimp only
      rw [attains_pure]
      rfl
  simp only [fleetAnalysis, attains_bind, attains_get, attains_pure]
  apply (fails.and_ensures (analyzeFile_reads file start)).mono
  rintro _ later _ ⟨rfl, read, part, device, _⟩
  rw [behind_read _ part.begins part.whole (part.all rfl)]
  exact ⟨⟨_, rfl⟩, device⟩

end Silent

/-! ## Files before the file of a packet -/

/-- The first sample of the files is not the mark. -/
def Unmarked (mark : UInt8) (earlier : List SourceFile) : Prop :=
  ∃ early file late first second rest, earlier = early ++ file :: late ∧ NoSample early ∧
    file.contents = some (first :: second :: rest) ∧ first ≠ mark

/-- If the files have a sample, it differs from some mark. -/
theorem exists_unmarked {earlier : List SourceFile} (one : ¬ NoSample earlier) :
    ∃ mark, Unmarked mark earlier := by
  induction earlier with
  | nil => exact absurd (fun file member => nomatch member) one
  | cons file late ih =>
    by_cases short : file.Short
    · have others : ¬ NoSample late := by
        intro none
        apply one
        intro other member
        rcases List.mem_cons.mp member with rfl | later
        · exact short
        · exact none other later
      rcases ih others with ⟨mark, early, found, behind, first, second, rest, rfl, none, sample⟩
      refine ⟨mark, file :: early, found, behind, first, second, rest, rfl, ?_, sample⟩
      intro other member
      rcases List.mem_cons.mp member with rfl | later
      · exact short
      · exact none other later
    · unfold SourceFile.Short at short
      push Not at short
      rcases short with ⟨bytes, contents, two⟩
      rcases bytes with _ | ⟨first, _ | ⟨second, rest⟩⟩
      · cases two
      · rw [List.length_singleton] at two
        omega
      · refine ⟨first + 1, [], file, late, first, second, rest, rfl, nofun, contents, ?_⟩
        simp

/-- So do files of which one has a sample. -/
theorem fleetAnalyses_deaf {earlier : List SourceFile} (unmarked : Unmarked mark earlier) :
    (fleetAnalyses earlier : Decode (markHost mark) _).Attains (State.initial _)
      fun _ later _ => Deaf later.reader.device := by
  have same : List.Forall₂ (· = ·) earlier earlier := List.forall₂_refl _
  have created : Created (State.initial (markHost mark)).reader.device := rfl
  apply (Attains.each (fun rest state => Deaf state.reader.device ∨
    Created state.reader.device ∧ Unmarked mark rest) (fun _ _ => True) ?_ same
      (Or.inr ⟨created, unmarked⟩)).mono
  · intro _ later _ both
    rcases both.2 with deaf | ⟨_, early, file, late, _, _, _, none, _⟩
    · exact deaf
    · cases early with
      | _ => cases none
  · rintro file rest state _ rfl (deaf | ⟨created, early, found, late, first, second, more, split,
      none, sample, other⟩)
    · apply (fleetAnalysis_silent fun sample member => deaf_weak deaf member).mono
      intro _ later _ both
      rw [both.2]
      exact ⟨True.intro, Or.inl (deaf_behind deaf _)⟩
    · cases early with
      | nil =>
        rcases List.cons.inj split with ⟨rfl, rfl⟩
        have unmarked := @created_unmarked _ _ created first second more other
        have bytes : file.contents.getD [] = first :: second :: more := by
          rw [sample, Option.getD_some]
        apply (fleetAnalysis_silent (by rw [bytes]; exact unmarked.1)).mono
        intro _ later _ both
        rw [both.2, bytes]
        exact ⟨True.intro, Or.inl unmarked.2⟩
      | cons before early =>
        rcases List.cons.inj split with ⟨rfl, rfl⟩
        have short : (file.contents.getD []).length < 2 := by
          cases contents : file.contents with
          | none => decide
          | some bytes => exact none file List.mem_cons_self bytes contents
        have nothing : state.reader.device.process (file.contents.getD []) = [] := by
          apply List.eq_nil_of_length_eq_zero
          have samples := process_length state.reader.device (file.contents.getD [])
          omega
        have unchanged : state.reader.device.behind (file.contents.getD []) =
            state.reader.device := behind_read _ List.nil_prefix (Nat.dvd_zero _) short
        apply (fleetAnalysis_silent (by rw [nothing]; exact nofun)).mono
        intro _ later _ both
        rw [both.2, unchanged]
        have others : NoSample early :=
          fun other member => none other (List.mem_cons_of_mem _ member)
        exact ⟨True.intro, Or.inr ⟨created, early, found, late, first, second, more, rfl, others,
          sample, other⟩⟩

/-! ## A fresh process -/

/-- Half of a sample has the same phase. -/
theorem cargf_halved (sample : Cplx ℝ) : cargf (halved sample) = cargf sample := by
  have scaled : (⟨sample.re / ((2 : ℚ) : ℝ), sample.im / ((2 : ℚ) : ℝ)⟩ : ℂ) =
      ((1 / 2 : ℝ) : ℂ) * (⟨sample.re, sample.im⟩ : ℂ) := by
    apply Complex.ext
    · simp
      ring
    · simp
      ring
  show Complex.arg ⟨sample.re / ((2 : ℚ) : ℝ), sample.im / ((2 : ℚ) : ℝ)⟩ =
    Complex.arg ⟨sample.re, sample.im⟩
  rw [scaled, Complex.arg_real_mul _ (by norm_num)]

/-- Halving does not change an ideal signal. -/
theorem IdealSignal.halved {rest : List (Cplx ℝ)} {freq : Bool → ℝ} {payload : List Bool}
    {halfLength lowStart syncStart : ℕ}
    (signal : IdealSignal ⟨0, rest⟩ freq payload halfLength 0 lowStart syncStart) :
    IdealSignal ⟨0, rest.map Decoder.halved⟩ freq payload halfLength 0 lowStart syncStart := by
  have sample (number : ℕ) : (⟨0, rest.map Decoder.halved⟩ : Capture ℝ).sample number =
      ((⟨0, rest⟩ : Capture ℝ).sample number).map Decoder.halved := by
    simp only [Capture.sample]
    split
    · rw [List.getElem?_map]
    · rfl
  constructor
  case holds => exact signal.holds
  case length => exact signal.length
  case lower => exact signal.lower
  case upper => exact signal.upper
  case differ => exact signal.differ
  case highPhase => exact signal.highPhase
  case lowPhase => exact signal.lowPhase
  case sounds =>
    intro number above below
    rcases signal.sounds number above below with ⟨before, after, here, next, step⟩
    refine ⟨Decoder.halved before, Decoder.halved after, ?_, ?_, ?_⟩
    · rw [sample, here, Option.map_some]
    · rw [sample, next, Option.map_some]
    · rw [cargf_halved, cargf_halved, step]
  case more =>
    have more := signal.more
    unfold Capture.last at more ⊢
    rw [List.length_map]
    exact more

/-- Behind its first sample a deaf filter halves what a plain one passes on. -/
theorem process_deaf {dsp : Dsp (markHost mark)} (deaf : Deaf dsp) (plain : Dsp plainHost)
    (bytes : List UInt8) : dsp.process bytes = (plain.process bytes).map halved := by
  induction bytes using List.twoStepInduction generalizing dsp plain with
  | nil => rfl
  | singleton byte => rfl
  | cons_cons first second rest ih _ =>
    have here := deaf_preprocess deaf (toSample first second)
    rw [Dsp.process, Dsp.process, List.map_cons, here.2, ih here.1 _]
    rfl

/-- Behind the mark one sample is passed on. -/
theorem marked_preprocess {dsp : Dsp (markHost mark)} (marked : dsp.filter = Seen.mark)
    (sample : Cplx ℝ) : Deaf (dsp.preprocess sample).1 ∧ (dsp.preprocess sample).2 = sample := by
  rcases dsp with ⟨filter, nco⟩
  cases marked
  exact ⟨rfl, rfl⟩

/-- A file that begins with the mark. -/
def markedFile (mark : UInt8) : SourceFile :=
  ⟨"/tmp/b".toList, some (mark :: 127 :: shownFile), by decide⟩

/-- It transmits its message to a fresh filter. -/
theorem transmitsTo_marked {bytes : List UInt8} {trigger : Cplx ℝ} {rest : List (Cplx ℝ)}
    {message : SensorMessage} {freq : Bool → ℝ} {halfLength lowStart syncStart : ℕ}
    (processed : (Dsp.initial plainHost).process bytes = trigger :: rest)
    (strong : lt (literal (9 / 10)) trigger.re = true)
    (signal : IdealSignal ⟨0, rest⟩ freq message.payload halfLength 0 lowStart syncStart) :
    TransmitsTo (Dsp.initial (markHost mark)) (mark :: 127 :: bytes) message := by
  refine ⟨[halved (toSample mark 127)], trigger, rest.map halved, freq, halfLength, lowStart,
    syncStart, ?_, ?_, strong, signal.halved⟩
  · rcases bytes with _ | ⟨first, _ | ⟨second, more⟩⟩
    · cases processed
    · cases processed
    · rw [Dsp.process, List.cons.injEq] at processed
      have marked : ((Dsp.initial (markHost mark)).preprocess (toSample mark 127)).1.filter =
          Seen.mark := if_pos rfl
      have passed := marked_preprocess marked (toSample first second)
      have created : Created (Dsp.initial (markHost mark)) := rfl
      rw [Dsp.process, (created_preprocess created _).1, Dsp.process, passed.2,
        process_deaf passed.1 ((Dsp.initial plainHost).preprocess (toSample first second)).1,
        processed.2, ← processed.1]
      rfl
  · intro sample member
    rw [List.mem_singleton.mp member]
    exact weak_halved mark 127

/-- A reading has an address before its first comma. -/
theorem fleetReply_ne (symbols others fn : List Char) :
    fleetReply 1 symbols fn ≠ fleetReply 0 others fn := by
  intro same
  have address : getHexAddressStr symbols ≠ [] := by
    rw [getHexAddressStr, hexText, Ne, List.map_eq_nil_iff]
    exact Nat.toDigits_ne_nil
  rw [fleetReply, fleetReply, if_pos rfl, if_neg (by decide), readingText, terminated] at same
  cases digits : getHexAddressStr symbols with
  | nil => exact address digits
  | cons first rest =>
    have plain : Plain first := by
      have digit : first ∈ hexText (getDecAddressVal symbols) := by
        rw [← getHexAddressStr, digits]
        exact List.mem_cons_self
      exact plain_hexText digit
    rw [digits] at same
    exact plain.2.2 (List.cons.inj same).1

/-- A fresh process finds a packet that a process does not find behind other files. -/
theorem answers_differ {earlier : List SourceFile} (unmarked : Unmarked mark earlier) :
    ∃ replies left trace,
      (fleetAnalyses earlier).Evaluates (State.initial (markHost mark)) replies left trace ∧
      ∃ reply packet, Answers (State.initial (markHost mark)) (markedFile mark) reply packet ∧
        ¬ Answers left (markedFile mark) reply packet := by
  rcases fleetAnalyses_deaf unmarked with ⟨replies, left, trace, evaluates, deaf⟩
  refine ⟨replies, left, trace, evaluates, ?_⟩
  have transmits : TransmitsTo (State.initial (markHost mark)).reader.device
      (mark :: 127 :: shownFile) shownMessage :=
    transmitsTo_marked (process_toneFile _) turned_strong
      (idealSignal_toneSamples shownMessage.payload_holds (by omega) (by omega) (by omega)
        (by omega))
  have none : (State.initial (markHost mark)).reader.totalSamplesIn = 0 := rfl
  have room : (State.initial (markHost mark)).reader.totalSamplesIn +
      (mark :: 127 :: shownFile).length / 2 ≤ 2 ^ 32 := by
    have length := length_shownFile
    rw [none, List.length_cons, List.length_cons]
    omega
  have contents : (markedFile mark).contents = some (mark :: 127 :: shownFile) := rfl
  rcases analyzeFile_transmits contents transmits room with
    ⟨result, later, late, analysed, rfl, _⟩
  refine ⟨fleetReply 1 (later.packet.array .symbols) (markedFile mark).srcFilename, later.packet,
    ?_, ?_⟩
  · rw [Answers, fleetAnalysis, attains_bind]
    refine ⟨_, _, _, analysed, ?_⟩
    simp only [attains_bind, attains_get, attains_pure, and_self]
  · intro answers
    have silent : (fleetAnalysis (markedFile mark) : Decode (markHost mark) _).Attains left _ :=
      fleetAnalysis_silent fun sample member => deaf_weak deaf member
    rcases answers with ⟨reply, stop, trace, evaluated, same, _⟩
    rcases silent.ensures reply stop trace evaluated with ⟨⟨symbols, empty⟩, _⟩
    exact fleetReply_ne _ _ _ (same.symm.trans empty)

/-- Files that are analysed earlier in a process make no difference if and only if none of them
holds a sample. -/
theorem independent_iff (earlier : List SourceFile) :
    Independent earlier ↔ NoSample earlier := by
  constructor
  · intro independent
    by_contra one
    rcases exists_unmarked one with ⟨mark, unmarked⟩
    rcases answers_differ unmarked with ⟨replies, left, trace, evaluates, reply, packet, fresh, not⟩
    exact not ((independent ℝ (markHost mark) replies left trace evaluates _ _ _).mpr fresh)
  · exact independent_of_noSample

/-- A file with one sample. -/
def oneSample : SourceFile := ⟨"/tmp/a".toList, some [200, 127], exampleName_fits⟩

/-- Behind it the packet of another file is not found. -/
theorem one_sample_matters :
    ¬ ∀ (replies : List (List Char)) (left : State (markHost 127))
        (trace : List (Event (markHost 127))),
      (fleetAnalyses [oneSample]).Evaluates (State.initial _) replies left trace →
        ∀ (reply : List Char) (packet : Packet ℝ),
          Answers left (markedFile 127) reply packet ↔
            Answers (State.initial (markHost 127)) (markedFile 127) reply packet := by
  intro independent
  have unmarked : Unmarked 127 [oneSample] :=
    ⟨[], oneSample, [], 200, 127, [], rfl, nofun, rfl, by decide⟩
  rcases answers_differ unmarked with ⟨replies, left, trace, evaluates, reply, packet, fresh, not⟩
  exact not ((independent replies left trace evaluates reply packet).mpr fresh)

end FcTpms.Decoder

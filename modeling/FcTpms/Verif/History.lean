import FcTpms.Program.Outcomes
import FcTpms.Verif.Transmissions
import FcTpms.Verif.RefusedEstimates

/-!
# What earlier files leave behind

The filter, the oscillator and the count of samples are set up once in a process. A file that was
analysed before makes no difference if it could not be opened or holds no sample.
-/

namespace FcTpms.Decoder

open Program Program.Prog Arithmetic

/-! ## Before the first sample -/

section Created

variable {F : Type} [Arithmetic F] {host : Host F}

/-- The state once the filter and the oscillator exist. -/
def State.created (state : State host) : State host :=
  { state with reader := state.reader.created }

theorem leftCache_created (reader : Reader host) :
    reader.created.leftCache = reader.leftCache.created := by
  by_cases cached : reader.readFromCache = true
  · have also : reader.created.readFromCache = true := cached
    rw [Reader.leftCache, Reader.leftCache, if_pos cached, if_pos also]
    rfl
  · have also : ¬ reader.created.readFromCache = true := cached
    rw [Reader.leftCache, Reader.leftCache, if_neg cached, if_neg also]

/-- Reading a sample creates the filter and the oscillator in any case. -/
theorem afterNext_created (state : State host) : state.created.afterNext = state.afterNext := by
  by_cases replays : state.reader.Replays
  · have also : state.created.reader.Replays := replays
    rw [State.afterNext, State.afterNext, if_pos replays, if_pos also]
    rfl
  · have also : ¬ state.created.reader.Replays := replays
    have left : state.created.reader.leftCache = state.reader.leftCache.created :=
      leftCache_created state.reader
    have upcoming : state.reader.leftCache.created.upcoming = state.reader.leftCache.upcoming := rfl
    rw [State.afterNext, State.afterNext, if_neg replays, if_neg also, left]
    simp only [State.afterFile, nextOfFile_created, upcoming]
    rfl

theorem next_created (reader : Reader host) : reader.created.next = reader.next := by
  by_cases replays : reader.Replays
  · have also : reader.created.Replays := replays
    rw [Reader.next, Reader.next, if_pos replays, if_pos also]
    rfl
  · have also : ¬ reader.created.Replays := replays
    rw [Reader.next, Reader.next, if_neg replays, if_neg also, leftCache_created,
      nextOfFile_created]

/-- So the first sample makes both states the same. -/
theorem getNextSample_created (state : State host) :
    (getNextSample : Decode host _).Agree state state.created := by
  apply Agree.of_attains
  · exact (getNextSample_attains state).mono fun _ _ _ both => ⟨both.1, both.2.1⟩
  · apply (getNextSample_attains state.created).mono
    intro value stop trace both
    have same : state.created.reader.next = state.reader.next := next_created state.reader
    rw [afterNext_created, same] at both
    exact ⟨both.1, both.2.1⟩

omit [Arithmetic F] in
/-- An assignment with which both starts agree. -/
theorem Agree.assignReader {α : Type} {change : Reader host → Reader host}
    {rest : Unit → Decode host α} {start other : State host}
    (agree : (rest ()).Agree { start with reader := change start.reader }
      { other with reader := change other.reader }) :
    (Decoder.assignReader change >>= rest).Agree start other := by
  apply Agree.after _ _ agree
  · simp only [attains_assignReader, and_self]
  · simp only [attains_assignReader, and_self]

/-- The analysis of a file reads a sample before anything else, and it chooses where from. -/
theorem getPacket_created (state : State host) (readFromCache writeToCache : Bool) :
    (getPacket : Decode host _).Agree state { state with reader := { state.reader with
      dsp := some state.reader.device
      readFromCache := readFromCache
      writeToCache := writeToCache } } := by
  apply Agree.loop
  apply Agree.assignReader
  apply Agree.assignReader
  apply Agree.bind
  apply Agree.loop
  apply Agree.bind
  exact getNextSample_created _

/-! ## Histories without a sample -/

/-- The state of a process that has read no sample. -/
def Unread (state : State host) : Prop :=
  ∃ file, state = { State.initial host with
      reader := { (State.initial host).reader with file := file } } ∨
    state = { State.initial host with
      reader := { (State.initial host).reader with
        file := file
        dsp := some (Dsp.initial host)
        readFromCache := false
        writeToCache := false } }

theorem unread_initial : Unread (State.initial host) := ⟨_, Or.inl rfl⟩

/-- A file without samples is at its end. -/
theorem findPreludeStart_nothing {state : State host} (idle : state.reader.Idle)
    (nothing : state.reader.upcoming = []) :
    (findPreludeStart : Decode host ℕ).Attains state fun _ later _ =>
      later = { state with reader := state.reader.ended } := by
  have ended : state.reader.idleNext = state.reader.ended := by
    rw [Reader.idleNext, if_pos nothing]
  unfold findPreludeStart
  apply Attains.loop
  rw [attains_bind]
  apply (getNextSample_attains state).mono
  rintro result later early ⟨rfl, rfl, _⟩
  rw [idle.next, idle.afterNext, ended, nothing]
  simp only [List.head?_nil, attains_pure]

/-- The file holds no sample. -/
def SourceFile.Short (file : SourceFile) : Prop :=
  ∀ bytes, file.contents = some bytes → bytes.length < 2

/-- Of a file without samples nothing is left behind but that it was opened. -/
theorem fleetAnalysis_unread {file : SourceFile} {state : State host} (short : file.Short)
    (unread : Unread state) :
    (fleetAnalysis file : Decode host _).Attains state fun _ later _ => Unread later := by
  simp only [fleetAnalysis, attains_bind, attains_get, attains_pure]
  cases contents : file.contents with
  | none =>
    rw [analyzeFile_missing contents, attains_pure]
    exact unread
  | some bytes =>
    have few := short bytes contents
    have nothing : (state.opened bytes).searching.reader.upcoming = [] := by
      apply List.eq_nil_of_length_eq_zero
      have samples : (state.opened bytes).searching.reader.upcoming.length = bytes.length / 2 :=
        process_length _ _
      omega
    have search := findPreludeStart_nothing (idle_searching (state.opened bytes)) nothing
    simp only [analyzeFile_opened contents, attains_bind, attains_assignReader]
    apply Attains.loop
    simp only [searchPrelude, attains_bind, attains_assignReader, attains_get]
    apply search.mono
    rintro _ later _ rfl
    have ended : (state.opened bytes).searching.reader.ended.file.eof = true := rfl
    rw [ended, if_pos rfl, attains_pure]
    dsimp only
    rw [attains_pure]
    apply Exists.intro (⟨[], true⟩ : File)
    apply Or.inr
    rcases unread with ⟨file, rfl | rfl⟩
    · rfl
    · rfl

/-- From a state the analysis of a file returns, with this reply and this packet. -/
def Answers (state : State host) (file : SourceFile) (reply : List Char) (packet : Packet F) :
    Prop :=
  (fleetAnalysis file : Decode host _).Attains state fun answer later _ =>
    answer = reply ∧ later.packet = packet

/-- A process that has analysed some files, and lives on, analyses every file as a fresh process
does. -/
def Independent (earlier : List SourceFile) : Prop :=
  ∀ (F : Type) [Arithmetic F] (host : Host F) (replies : List (List Char)) (left : State host)
    (trace : List (Event host)),
    (fleetAnalyses earlier).Evaluates (State.initial host) replies left trace →
      ∀ (file : SourceFile) (reply : List Char) (packet : Packet F),
        Answers left file reply packet ↔ Answers (State.initial host) file reply packet

/-- None of the files holds a sample. -/
def NoSample (earlier : List SourceFile) : Prop := ∀ file ∈ earlier, file.Short

/-- A process that has read no sample analyses as a fresh one. -/
theorem Unread.agrees {state : State host} (unread : Unread state) (file : SourceFile)
    (reply : List Char) (packet : Packet F) :
    Answers state file reply packet ↔ Answers (State.initial host) file reply packet := by
  have same : state.packet = (State.initial host).packet := by
    rcases unread with ⟨file, rfl | rfl⟩
    · rfl
    · rfl
  unfold Answers
  cases contents : file.contents with
  | none =>
    simp only [fleetAnalysis, analyzeFile_missing contents, attains_bind, attains_get, attains_pure,
      same]
  | some bytes =>
    have agree : (fleetAnalysis file : Decode host _).Agree (State.initial host) state := by
      rw [fleetAnalysis, analyzeFile_opened contents]
      apply Agree.bind
      apply Agree.assignReader
      apply Agree.bind
      rcases unread with ⟨file, rfl | rfl⟩
      · exact Agree.refl _ _
      · exact getPacket_created ((State.initial host).opened bytes) false false
    constructor
    · exact agree.symm.attains
    · exact agree.attains

/-- Files without samples make no difference. -/
theorem independent_of_noSample {earlier : List SourceFile} (none : NoSample earlier) :
    Independent earlier := by
  intro F arithmetic host replies left trace evaluates file reply packet
  have kept : (fleetAnalyses earlier : Decode host _).Attains (State.initial host)
      fun _ later _ => Unread later := by
    have same : List.Forall₂ (· = ·) earlier earlier := List.forall₂_refl _
    apply (Attains.each (fun rest state => NoSample rest ∧ Unread state) (fun _ _ => True) ?_
      same ⟨none, unread_initial⟩).mono
    · exact fun _ _ _ both => both.2.2
    · intro file rest state same equal holds
      have first := holds.1 file List.mem_cons_self
      have others : NoSample rest :=
        fun other member => holds.1 other (List.mem_cons_of_mem _ member)
      exact (fleetAnalysis_unread first holds.2).mono fun _ _ _ unread =>
        ⟨True.intro, others, unread⟩
  exact (kept.ensures replies left trace evaluates).agrees file reply packet

end Created

end FcTpms.Decoder

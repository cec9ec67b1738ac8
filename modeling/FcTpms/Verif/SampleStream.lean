import FcTpms.Verif.Success
import FcTpms.Verif.Termination

/-!
# One stream of samples

For the filter and the oscillator the files of a process are one stream. Whatever the cache does,
the samples of a file are read from it once and in order, `total_samples_in` counts them, and a file
in which no packet is found is read to its end.
-/

namespace FcTpms.Decoder

open Program Program.Prog

variable {F : Type} [Arithmetic F] {host : Host F}

/-! ## What a file leaves in the filter -/

/-- The filter and the oscillator behind all samples of a file. -/
def Dsp.behind (dsp : Dsp host) : List UInt8 → Dsp host
  | first :: second :: rest => (dsp.preprocess (toSample first second)).1.behind rest
  | _ => dsp

/-- Behind whole samples the next ones are filtered as if they were in the same file. -/
theorem behind_append (dsp : Dsp host) {early : List UInt8} (whole : 2 ∣ early.length)
    (late : List UInt8) : dsp.behind (early ++ late) = (dsp.behind early).behind late := by
  induction early using List.twoStepInduction generalizing dsp with
  | nil => rfl
  | singleton byte =>
    rw [List.length_singleton] at whole
    omega
  | cons_cons first second rest ih _ =>
    rw [List.length_cons, List.length_cons] at whole
    exact ih _ (by omega)

theorem process_append (dsp : Dsp host) {early : List UInt8} (whole : 2 ∣ early.length)
    (late : List UInt8) :
    dsp.process (early ++ late) = dsp.process early ++ (dsp.behind early).process late := by
  induction early using List.twoStepInduction generalizing dsp with
  | nil => rfl
  | singleton byte =>
    rw [List.length_singleton] at whole
    omega
  | cons_cons first second rest ih _ =>
    rw [List.length_cons, List.length_cons] at whole
    exact congrArg (_ :: ·) (ih _ (by omega))

/-! ## The part of a file that has been read -/

/-- So many samples of a file have been read, which was opened with this filter and this number of
samples. -/
structure ReadUpTo (opened : Dsp host) (base : ℕ) (bytes : List UInt8) (count : ℕ)
    (reader : Reader host) : Prop where
  /-- The file has as many. -/
  inside : 2 * count ≤ bytes.length
  /-- They have passed through the filter. -/
  device : reader.device = opened.behind (bytes.take (2 * count))
  /-- They have been counted. -/
  total : reader.totalSamplesIn = base + count
  /-- The file goes on behind them. -/
  rest : reader.file.rest = bytes.drop (2 * count) ∨
    reader.file.rest = [] ∧ bytes.length < 2 * count + 2
  /-- At its end no whole sample is left. -/
  ended : reader.file.eof = true → bytes.length < 2 * count + 2

section Reading

variable {opened : Dsp host} {base count : ℕ} {bytes : List UInt8} {reader other : Reader host}

theorem device_of_dsp (dsp : other.dsp = reader.dsp) : other.device = reader.device := by
  rw [Reader.device, Reader.device, dsp]

/-- The cache makes no difference. -/
theorem ReadUpTo.same (read : ReadUpTo opened base bytes count reader)
    (file : other.file = reader.file) (device : other.device = reader.device)
    (total : other.totalSamplesIn = reader.totalSamplesIn) :
    ReadUpTo opened base bytes count other := by
  constructor
  · exact read.inside
  · rw [device]
    exact read.device
  · rw [total]
    exact read.total
  · rw [file]
    exact read.rest
  · rw [file]
    exact read.ended

/-- No sample is left. -/
theorem ReadUpTo.finished (read : ReadUpTo opened base bytes count reader)
    (short : reader.file.rest.length < 2) : ReadUpTo opened base bytes count reader.ended := by
  have inside := read.inside
  have few : bytes.length < 2 * count + 2 := by
    rcases read.rest with rest | both
    · rw [rest, List.length_drop] at short
      omega
    · exact both.2
  exact ⟨inside, read.device, read.total, Or.inr ⟨rfl, few⟩, fun _ => few⟩

/-- One more sample. -/
theorem ReadUpTo.advanced (read : ReadUpTo opened base bytes count reader) {first second : UInt8}
    {more : List UInt8} (next : reader.file.rest = first :: second :: more) :
    ReadUpTo opened base bytes (count + 1) reader.advanced := by
  have place : bytes.drop (2 * count) = first :: second :: more := by
    rcases read.rest with rest | both
    · rw [← rest, next]
    · rw [both.1] at next
      cases next
  have room : 2 * count + 2 ≤ bytes.length := by
    have long := congrArg List.length place
    rw [List.length_drop, List.length_cons, List.length_cons] at long
    omega
  have two : bytes.take (2 * (count + 1)) = bytes.take (2 * count) ++ [first, second] := by
    rw [Nat.mul_succ, List.take_add, place]
    rfl
  have whole : 2 ∣ (bytes.take (2 * count)).length := by
    rw [List.length_take, Nat.min_eq_left read.inside]
    exact Nat.dvd_mul_right 2 count
  constructor
  · omega
  · have filtered : reader.advanced.device = reader.device.behind [first, second] := by
      rw [Reader.advanced, Reader.device, next]
      rfl
    rw [filtered, read.device, two, behind_append _ whole]
  · have counted : reader.advanced.totalSamplesIn = reader.totalSamplesIn + 1 := rfl
    rw [counted, read.total, Nat.add_assoc]
  · have left : reader.advanced.file.rest = more := by
      rw [Reader.advanced, next]
      rfl
    apply Or.inl
    rw [left, Nat.mul_succ, ← List.drop_drop, place]
    rfl
  · intro end_
    have before := read.ended end_
    omega

theorem ReadUpTo.nextOfFile (read : ReadUpTo opened base bytes count reader) :
    ∃ later, ReadUpTo opened base bytes later reader.nextOfFile.2 := by
  have samples : reader.upcoming.length = reader.file.rest.length / 2 := process_length _ _
  rcases next : reader.file.rest with _ | ⟨first, _ | ⟨second, more⟩⟩
  · have short : reader.file.rest.length < 2 := by rw [next]; decide
    have nothing : reader.upcoming = [] := List.eq_nil_of_length_eq_zero (by omega)
    rw [Reader.nextOfFile, nothing]
    exact ⟨count, read.finished short⟩
  · have short : reader.file.rest.length < 2 := by rw [next]; exact Nat.lt_succ_self 1
    have nothing : reader.upcoming = [] := List.eq_nil_of_length_eq_zero (by omega)
    rw [Reader.nextOfFile, nothing]
    exact ⟨count, read.finished short⟩
  · rw [Reader.nextOfFile, upcoming_of_rest next]
    apply Exists.intro (count + 1)
    dsimp only
    split
    · exact (read.advanced next).same rfl rfl rfl
    · exact read.advanced next

/-- Reading a sample goes on in the file, or leaves it where it is. -/
theorem ReadUpTo.next (read : ReadUpTo opened base bytes count reader) :
    ∃ later, ReadUpTo opened base bytes later reader.next.2 := by
  unfold Reader.next
  split
  · exact ⟨count, read.same rfl rfl rfl⟩
  · have left : ReadUpTo opened base bytes count reader.leftCache := by
      unfold Reader.leftCache
      split
      · exact read.same rfl rfl rfl
      · exact read
    exact left.nextOfFile

end Reading

/-! ## The whole decoder -/

/-- What depends on the file, the filter, the oscillator and the number of samples only survives
every function of the decoder if reading a sample keeps it. -/
theorem source_attemptFree {holds : Reader host → Prop}
    (source : ∀ reader other : Reader host, other.file = reader.file → other.dsp = reader.dsp →
      other.totalSamplesIn = reader.totalSamplesIn → holds reader → holds other)
    (kept : ∀ reader, holds reader → holds reader.next.2) :
    AttemptFree (fun _ => True) (fun _ => True) (fun state : State host => holds state.reader)
      fun _ _ => True := by
  have sampleFree : SampleFree (fun _ => True) (fun _ => True)
      fun state : State host => holds state.reader :=
    { sample := by
        apply Triple.intro
        intro start before
        apply Attains.triple
        apply (getNextSample_attains start).mono
        rintro _ _ trace ⟨rfl, rfl, _⟩
        rw [reader_afterNext]
        exact ⟨fun _ _ => True.intro, kept _ before⟩
      bookkeeping := fun state reader file dsp total => source state.reader reader file dsp total
      invalid := fun _ before => before
      plain := fun _ _ => True.intro }
  have symbolFree : SymbolFree (fun _ => True) (fun _ => True)
      fun state : State host => holds state.reader :=
    { sampleFree with
      packet := fun _ _ before => before
      store := fun _ _ => True.intro }
  exact { sampleFree with
    valid := fun _ before => before
    enter := fun _ _ _ => True.intro
    collects := fun pktStart estSamplesPerSym =>
      (symbolFree.getPacketSymbols_keeps (fun _ before => before) pktStart symbolsPerMsg
        estSamplesPerSym).weaken (fun _ before => before)
        fun _ _ before => ⟨before, fun _ _ => True.intro⟩ }

/-- `get_packet` keeps it. -/
theorem getPacket_source {holds : Reader host → Prop}
    (source : ∀ reader other : Reader host, other.file = reader.file → other.dsp = reader.dsp →
      other.totalSamplesIn = reader.totalSamplesIn → holds reader → holds other)
    (kept : ∀ reader, holds reader → holds reader.next.2) {start : State host}
    (before : holds start.reader) :
    (getPacket : Decode host _).Ensures start fun _ later _ => holds later.reader := by
  have free := source_attemptFree source kept
  have measuring : PreludeFree (fun _ => True) (fun _ => True)
      fun state : State host => holds state.reader :=
    ⟨free.sample, fun _ _ holds => holds, fun _ _ => True.intro⟩
  have triple := free.getPacket_keeps measuring fun _ _ => True.intro
  exact (triple.ensures before).mono fun _ _ _ both => both.2.1

/-- `get_packet` gives up at the end of the file only. -/
theorem getPacket_ended (start : State host) :
    (getPacket : Decode host _).Ensures start fun result later _ =>
      result = none → later.reader.file.eof = true := by
  refine Ensures.loop (fun _ _ _ => True) ?_ True.intro
  intro _ state before _
  simp only [searchPrelude, ensures_bind, ensures_get, ensures_assignReader]
  intro _ found _ _
  split
  · rename_i ended
    rw [ensures_pure]
    exact fun _ => ended
  · rw [ensures_bind]
    intro valid measured _ _
    split
    · simp only [ensures_bind, ensures_get]
      intro result later _ _
      cases result with
      | none =>
        rw [ensures_pure]
        exact True.intro
      | some packetSyms =>
        rw [ensures_pure]
        intro none
        cases none
    · rw [ensures_pure]
      exact True.intro

/-! ## The files of a process -/

/-- The part of a file that its analysis read. -/
structure ReadOf (file : SourceFile) (result : ℤ) (read : List UInt8) : Prop where
  /-- It is the first part. -/
  begins : read <+: file.contents.getD []
  /-- It is whole samples. -/
  whole : 2 ∣ read.length
  /-- Where no packet was found, it is all of them. -/
  all : result = 0 → (file.contents.getD []).length < read.length + 2

theorem analyzeFile_reads (file : SourceFile) (start : State host) :
    (analyzeFile file : Decode host ℤ).Ensures start fun result later _ =>
      ∃ read, ReadOf file result read ∧
        later.reader.device = start.reader.device.behind read ∧
        later.reader.totalSamplesIn = start.reader.totalSamplesIn + read.length / 2 := by
  cases contents : file.contents with
  | none =>
    rw [analyzeFile_missing contents, ensures_pure]
    have nothing : file.contents.getD [] = [] := by rw [contents, Option.getD_none]
    apply Exists.intro []
    refine ⟨⟨?_, Nat.dvd_zero _, fun _ => ?_⟩, rfl, rfl⟩
    · rw [nothing]
    · rw [nothing]
      decide
  | some bytes =>
    have opened : ReadUpTo start.reader.device start.reader.totalSamplesIn bytes 0
        (start.opened bytes).reader := by
      constructor
      · exact Nat.zero_le _
      · rfl
      · rfl
      · exact Or.inl rfl
      · intro ended
        cases ended
    have source (reader other : Reader host) (file : other.file = reader.file)
        (dsp : other.dsp = reader.dsp) (total : other.totalSamplesIn = reader.totalSamplesIn)
        (some : ∃ count,
          ReadUpTo start.reader.device start.reader.totalSamplesIn bytes count reader) :
        ∃ count, ReadUpTo start.reader.device start.reader.totalSamplesIn bytes count other := by
      rcases some with ⟨count, read⟩
      exact ⟨count, read.same file (device_of_dsp dsp) total⟩
    have read := getPacket_source source (fun _ some => some.elim fun _ read => read.next)
      ⟨0, opened⟩
    simp only [analyzeFile_opened contents, ensures_bind, ensures_assignReader, ensures_pure]
    intro packet later trace evaluates
    rcases read packet later trace evaluates with ⟨count, read⟩
    have ended := getPacket_ended _ packet later trace evaluates
    have long : (bytes.take (2 * count)).length = 2 * count := by
      rw [List.length_take, Nat.min_eq_left read.inside]
    have part (result : ℤ) (failure : result = 0 → packet = none) :
        ReadOf file result (bytes.take (2 * count)) := by
      have all : file.contents.getD [] = bytes := by rw [contents, Option.getD_some]
      constructor
      · rw [all]
        exact List.take_prefix _ _
      · rw [long]
        exact Nat.dvd_mul_right 2 count
      · intro failed
        rw [all, long]
        exact read.ended (ended (failure failed))
    have total : later.reader.totalSamplesIn =
        start.reader.totalSamplesIn + (bytes.take (2 * count)).length / 2 := by
      rw [long, Nat.mul_div_cancel_left count (by decide), read.total]
    cases packet with
    | none => exact ⟨_, part 0 (fun _ => rfl), read.device, total⟩
    | some packetSyms => exact ⟨_, part 1 (fun failed => by cases failed), read.device, total⟩

/-- What the analyses of some files read, from any state on. -/
theorem analyzeFiles_reads (files : List SourceFile) (start : State host) :
    (analyzeFiles files : Decode host (List ℤ)).Ensures start fun results later _ =>
      results.length = files.length ∧ ∃ reads : List (List UInt8),
        List.Forall₂ (fun file read => ReadOf file.1 file.2 read) (files.zip results) reads ∧
        2 ∣ reads.flatten.length ∧
        later.reader.device = start.reader.device.behind reads.flatten ∧
        later.reader.totalSamplesIn = start.reader.totalSamplesIn + reads.flatten.length / 2 := by
  induction files generalizing start with
  | nil =>
    rw [analyzeFiles, ensures_pure]
    exact ⟨rfl, [], List.Forall₂.nil, Nat.dvd_zero _, rfl, rfl⟩
  | cons file rest ih =>
    simp only [analyzeFiles, ensures_bind, ensures_pure]
    refine (analyzeFile_reads file start).mono ?_
    rintro result middle _ ⟨read, first, filtered, counted⟩
    refine (ih middle).mono ?_
    rintro results later _ ⟨many, reads, others, whole, device, total⟩
    have early := first.whole
    constructor
    · rw [List.length_cons, List.length_cons, many]
    · apply Exists.intro (read :: reads)
      rw [List.flatten_cons, List.length_append]
      refine ⟨List.Forall₂.cons first others, Nat.dvd_add early whole, ?_, ?_⟩
      · rw [device, filtered, behind_append _ early]
      · rw [total, counted]
        omega

/-- The files that a process analyses are one stream. Of each file a first part is read, and all of
its samples where no packet is found in it; the filter and the oscillator stand behind these parts
in their order, as many samples are counted, and the samples of any further file are what comes next
in the stream. -/
theorem analyzeFiles_stream (files : List SourceFile) :
    (analyzeFiles files : Decode host (List ℤ)).Ensures (State.initial host) fun results later _ =>
      results.length = files.length ∧ ∃ reads : List (List UInt8),
        List.Forall₂ (fun file read => ReadOf file.1 file.2 read) (files.zip results) reads ∧
        later.reader.device = (Dsp.initial host).behind reads.flatten ∧
        later.reader.totalSamplesIn = reads.flatten.length / 2 ∧
        ∀ bytes, (later.opened bytes).reader.upcoming =
          ((Dsp.initial host).process (reads.flatten ++ bytes)).drop
            later.reader.totalSamplesIn := by
  refine (analyzeFiles_reads files (State.initial host)).mono ?_
  rintro results later _ ⟨many, reads, parts, whole, device, total⟩
  have fresh : (State.initial host).reader.device = Dsp.initial host := rfl
  have none : (State.initial host).reader.totalSamplesIn = 0 := rfl
  rw [fresh] at device
  rw [none, Nat.zero_add] at total
  refine ⟨many, reads, parts, device, total, ?_⟩
  intro bytes
  have next : (later.opened bytes).reader.upcoming = later.reader.device.process bytes := rfl
  rw [next, device, process_append _ whole, total, List.drop_left' (process_length _ _)]

end FcTpms.Decoder

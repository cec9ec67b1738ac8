import FcTpms.Verif.IdealPacket

/-!
# The windows of a first attempt

Each half-bit of an attempt is decided on a window of samples: the next window is found by rewinding
the cache and skipping forward to an absolute sample number. The first attempt at a prelude reads
windows that each end behind the ones before, so the rewinding always lands before the next window,
and its buffer holds the samples that the window names. What is known of a symbol is in
`getSymbol_windows`, what follows for an attempt in `firstAttempt_aligned`.
-/

namespace FcTpms.Decoder

open Program Program.Prog

variable {F : Type} {host : Host F}

/-! ## What a run shows of its windows -/

/-- The calls of `get_some_samples` in a run, one for each call of `get_bit`: the samples requested,
the location, and the state at the call. -/
def fetches (trace : List (Event host)) : List (ℤ × ℕ × State host) :=
  trace.filterMap fun event =>
    match event with
    | .enterFetch numSamples location state => some (numSamples, location, state)
    | _ => none

@[simp] theorem fetches_append (early late : List (Event host)) :
    fetches (early ++ late) = fetches early ++ fetches late := List.filterMap_append

@[simp] theorem fetches_nil : fetches ([] : List (Event host)) = [] := rfl

/-- The cache does not become full: no sample is stored at its last place, and wherever
`cache_count` differs from what an earlier prelude left there, it is below the size. -/
def Event.Roomy (count : ℤ) : Event host → Prop
  | .visit state => state.reader.cacheCount = count ∨ state.reader.cacheCount < cacheSize
  | .cacheIndex index => index + 1 < cacheSize
  | _ => True

/-- An event of a part that leaves the sample reader alone. -/
def Event.Beside (reader : Reader host) : Event host → Prop
  | .visit state => state.reader = reader
  | .store .. => True
  | _ => False

/-- Beside the reader nothing is fetched. -/
theorem fetches_of_beside {reader : Reader host} {trace : List (Event host)}
    (beside : ∀ event ∈ trace, event.Beside reader) : fetches trace = [] := by
  rw [fetches, List.filterMap_eq_nil_iff]
  intro event member
  have here := beside event member
  cases event with
  | enterFetch => exact here.elim
  | _ => rfl

/-- Beside the reader the cache does not become full. -/
theorem roomy_of_beside {reader : Reader host} {event : Event host}
    (beside : event.Beside reader) : event.Roomy reader.cacheCount := by
  cases event with
  | visit state =>
    apply Or.inl
    rw [show state.reader = reader from beside]
  | cacheIndex => exact beside.elim
  | _ => exact True.intro

/-- Beside the reader there is nothing to supply. -/
theorem supplied_of_beside [Arithmetic F] {reader : Reader host} {event : Event host}
    (beside : event.Beside reader) : event.Supplied := by
  cases event with
  | enterPrelude => exact beside.elim
  | enterFetch => exact beside.elim
  | _ => exact True.intro

/-- Where there is enough for each call of `get_some_samples`, what reads samples is supplied. -/
theorem supplied_of_fetches [Arithmetic F] {trace : List (Event host)}
    (plain : ∀ event ∈ trace, event.Plain)
    (fetched : ∀ fetch ∈ fetches trace, Fetchable fetch.1 fetch.2.1 fetch.2.2.reader) :
    ∀ event ∈ trace, event.Supplied := by
  intro event member
  cases event with
  | enterFetch numSamples location state =>
    apply fetched (numSamples, location, state)
    exact List.mem_filterMap.mpr ⟨_, member, rfl⟩
  | enterPrelude state => exact (plain _ member).elim
  | _ => exact True.intro

variable (host) in
/-- Deciding a half-bit causes no other events than reading samples does. -/
theorem plain_bitFree [Arithmetic F] :
    BitFree (fun _ => True) Event.Plain fun _ : State host => True := by
  have free : ReaderFree Event.Plain fun _ : State host => True :=
    ⟨fun _ _ _ => True.intro, fun _ _ => True.intro, fun _ plain => plain⟩
  exact { free.sampleFree with decided := fun _ _ _ _ => True.intro }

/-- What is roomy after the first samples were stored is roomy for the whole run. -/
theorem Event.Roomy.of_lt {count other : ℤ} {event : Event host} (roomy : event.Roomy other)
    (less : other < cacheSize) : event.Roomy count := by
  cases event with
  | visit state =>
    apply Or.inr
    rcases roomy with same | few
    · rw [same]
      exact less
    · exact few
  | cacheIndex => exact roomy
  | _ => exact True.intro

/-! ## Parts beside the reader -/

/-- The run leaves the reader, the prelude and the end of the last half-bit alone. -/
def Besides {α : Type} (program : Decode host α) : Prop :=
  ∀ state, program.Attains state fun _ later trace =>
    later.reader = state.reader ∧ later.prelude = state.prelude ∧
      later.packet.actualBitEnd = state.packet.actualBitEnd ∧
      ∀ event ∈ trace, event.Beside state.reader

theorem Besides.pure {α : Type} (value : α) : Besides (pure value : Decode host α) := by
  intro state
  rw [attains_pure]
  exact ⟨rfl, rfl, rfl, fun event member => absurd member List.not_mem_nil⟩

theorem Besides.bind {α β : Type} {first : Decode host α} {second : α → Decode host β}
    (former : Besides first) (latter : ∀ value, Besides (second value)) :
    Besides (first >>= second) := by
  intro state
  rw [attains_bind]
  apply (former state).mono
  rintro value middle early ⟨reader, prelude, ends, beside⟩
  apply (latter value middle).mono
  rintro result later late ⟨reader', prelude', ends', beside'⟩
  rw [reader] at reader' beside'
  refine ⟨reader', prelude'.trans prelude, ends'.trans ends, fun event member => ?_⟩
  rcases List.mem_append.mp member with former | latter
  · exact beside event former
  · exact beside' event latter

theorem Besides.get_bind {β : Type} {second : State host → Decode host β}
    (latter : ∀ value, Besides (second value)) : Besides (Prog.get >>= second) := by
  intro state
  rw [attains_bind, attains_get]
  exact latter state state

theorem Besides.storeChar (array : CharArray) (index : ℕ) (char : Char) :
    Besides (storeChar array index char : Decode host Unit) := by
  intro state
  rw [attains_storeChar]
  refine ⟨rfl, rfl, ?_, ?_⟩
  · cases array <;> rfl
  · intro event member
    simp only [List.mem_cons, List.not_mem_nil, or_false] at member
    rcases member with rfl | rfl
    · exact True.intro
    · rfl

theorem Besides.assignPacket {change : Packet F → Packet F}
    (ends : ∀ packet, (change packet).actualBitEnd = packet.actualBitEnd) :
    Besides (assignPacket change : Decode host Unit) := by
  intro state
  rw [attains_assignPacket]
  refine ⟨rfl, rfl, ends _, ?_⟩
  intro event member
  rw [List.mem_singleton.mp member]
  rfl

theorem Besides.setValidPkt (value : Bool) : Besides (setValidPkt value : Decode host Unit) := by
  intro state
  rw [attains_setValidPkt]
  refine ⟨rfl, rfl, rfl, ?_⟩
  intro event member
  rw [List.mem_singleton.mp member]
  rfl

theorem Besides.strcpyFrom (array : CharArray) (index : ℕ) (text : List Char) :
    Besides (strcpyFrom array index text : Decode host Unit) := by
  induction text generalizing index with
  | nil => exact Besides.storeChar array index _
  | cons char rest ih => exact (Besides.storeChar array index char).bind fun _ => ih (index + 1)

variable (host) in
theorem Besides.recordSecondSymbol (firstBit secondBit : ℤ) :
    Besides (recordSecondSymbol firstBit secondBit : Decode host ℤ) := by
  apply (Besides.storeChar _ _ _).bind fun _ => ?_
  apply (Besides.storeChar _ _ _).bind fun _ => ?_
  apply Besides.get_bind fun _ => ?_
  apply (Besides.storeChar _ _ _).bind fun _ => ?_
  apply (Besides.storeChar _ _ _).bind fun _ => ?_
  apply Besides.bind (Besides.assignPacket ?_) fun _ => Besides.pure _
  exact fun _ => rfl

variable (host) in
theorem Besides.recordSymbol (firstBit secondBit : ℤ) :
    Besides (recordSymbol firstBit secondBit : Decode host ℤ) := by
  apply Besides.get_bind fun _ => ?_
  apply (Besides.storeChar _ _ _).bind fun _ => ?_
  apply (Besides.storeChar _ _ _).bind fun _ => ?_
  apply (Besides.storeChar _ _ _).bind fun _ => ?_
  apply Besides.get_bind fun _ => ?_
  apply Besides.get_bind fun _ => ?_
  apply (Besides.storeChar _ _ _).bind fun _ => ?_
  apply (Besides.storeChar _ _ _).bind fun _ => ?_
  apply Besides.bind (Besides.assignPacket ?_) fun _ => Besides.pure _
  exact fun _ => rfl

/-! ## Reading samples -/

/-- An event of a part that moves the place in the cache up to a limit. -/
def Event.Within (count limit : ℤ) : Event host → Prop
  | .visit state => state.reader.cacheCount = count ∨ state.reader.cacheCount ≤ limit
  | .cacheIndex index => index < limit
  | _ => False

/-- From one reader to another the place in the cache moves forward, and the cache ends where it
ended before or not behind that place. -/
structure Crept (start stop : Reader host) (trace : List (Event host)) : Prop where
  forward : start.cacheLoc ≤ stop.cacheLoc
  count : stop.cacheCount = start.cacheCount ∨ stop.cacheCount ≤ stop.cacheLoc
  events : ∀ event ∈ trace, event.Within start.cacheCount stop.cacheLoc

theorem Crept.refl (reader : Reader host) : Crept reader reader [] :=
  ⟨le_refl _, Or.inl rfl, List.forall_mem_nil _⟩

theorem Crept.trans {start middle stop : Reader host} {early late : List (Event host)}
    (former : Crept start middle early) (latter : Crept middle stop late) :
    Crept start stop (early ++ late) := by
  have forward := former.forward
  have further := latter.forward
  have count := former.count
  have later := latter.count
  constructor
  · omega
  · omega
  · intro event member
    rcases List.mem_append.mp member with first | second
    · have within := former.events event first
      cases event with
      | visit state =>
        apply within.imp_right
        intro below
        omega
      | cacheIndex index => exact lt_of_lt_of_le within further
      | _ => exact within
    · have within := latter.events event second
      cases event with
      | visit state =>
        have below : state.reader.cacheCount = middle.cacheCount ∨
          state.reader.cacheCount ≤ stop.cacheLoc := within
        change state.reader.cacheCount = start.cacheCount ∨ state.reader.cacheCount ≤ stop.cacheLoc
        omega
      | cacheIndex index => exact within
      | _ => exact within

/-- Nothing is fetched on the way. -/
theorem Crept.fetches {start stop : Reader host} {trace : List (Event host)}
    (crept : Crept start stop trace) : fetches trace = [] := by
  rw [Decoder.fetches, List.filterMap_eq_nil_iff]
  intro event member
  have here := crept.events event member
  cases event with
  | enterFetch => exact here.elim
  | _ => rfl

/-- If the place in the cache stays in bounds, the cache does not become full on the way. -/
theorem Crept.roomy {start stop : Reader host} {trace : List (Event host)}
    (crept : Crept start stop trace) (room : stop.cacheLoc < cacheSize) :
    ∀ event ∈ trace, event.Roomy start.cacheCount := by
  intro event member
  have here := crept.events event member
  cases event with
  | visit state => exact here.imp_right fun below => lt_of_le_of_lt below room
  | cacheIndex index =>
    have before : index < stop.cacheLoc := here
    change index + 1 < cacheSize
    omega
  | _ => exact True.intro

/-- A program whose runs move the place in the cache forward only. -/
def Creeps {α : Type} (program : Decode host α) : Prop :=
  ∀ state, program.Ensures state fun _ later trace => Crept state.reader later.reader trace

theorem Creeps.pure {α : Type} (value : α) : Creeps (pure value : Decode host α) := by
  intro state
  rw [ensures_pure]
  exact Crept.refl _

theorem Creeps.bind {α β : Type} {first : Decode host α} {second : α → Decode host β}
    (former : Creeps first) (latter : ∀ value, Creeps (second value)) :
    Creeps (first >>= second) := by
  intro state
  rw [ensures_bind]
  refine Ensures.mono (former state) fun value middle early crept => ?_
  exact Ensures.mono (latter value middle) fun result later late further => crept.trans further

theorem Creeps.get_bind {β : Type} {second : State host → Decode host β}
    (latter : ∀ value, Creeps (second value)) : Creeps (Prog.get >>= second) := by
  intro state
  rw [ensures_bind, ensures_get]
  exact latter state state

theorem Creeps.loop {α β : Type} {body : β → Decode host (β ⊕ α)}
    (round : ∀ counter, Creeps (body counter)) (counter : β) : Creeps (Prog.loop body counter) := by
  intro state
  refine Ensures.loop (fun _ later before => Crept state.reader later.reader before) ?_
    (Crept.refl _)
  intro counter middle before crept
  refine Ensures.mono (round counter middle) fun answer later trace further => ?_
  cases answer with
  | inl next => exact crept.trans further
  | inr result => exact crept.trans further

/-- Assignments that leave the cache alone. -/
theorem Creeps.assignReader {change : Reader host → Reader host}
    (loc : ∀ reader, (change reader).cacheLoc = reader.cacheLoc)
    (count : ∀ reader, (change reader).cacheCount = reader.cacheCount) :
    Creeps (assignReader change) := by
  intro state
  rw [ensures_assignReader]
  have same := count state.reader
  constructor
  · exact le_of_eq (loc _).symm
  · exact Or.inl same
  · intro event member
    rw [List.mem_singleton.mp member]
    exact Or.inl same

section Samples

variable [Arithmetic F]

variable (host) in
theorem Creeps.initializeOnce : Creeps (initializeOnce : Decode host Unit) := by
  apply Creeps.get_bind fun state => ?_
  split
  · exact Creeps.assignReader (fun _ => rfl) fun _ => rfl
  · exact Creeps.pure _

variable (host) in
omit [Arithmetic F] in
theorem Creeps.readTwoBytes : Creeps (readTwoBytes : Decode host _) := by
  apply Creeps.get_bind fun state => ?_
  split
  · exact Creeps.bind (Creeps.assignReader (fun _ => rfl) fun _ => rfl) fun _ => Creeps.pure _
  · exact Creeps.bind (Creeps.assignReader (fun _ => rfl) fun _ => rfl) fun _ => Creeps.pure _

omit [Arithmetic F] in
/-- Storing a sample moves the place by one. -/
theorem Creeps.storeInCache (sample : Cplx F) : Creeps (storeInCache sample : Decode host _) := by
  intro state
  have stored (later : Reader host) (trace : List (Event host))
      (loc : later.cacheLoc = state.reader.cacheLoc + 1) (count : later.cacheCount = later.cacheLoc)
      (events : ∀ event ∈ trace, event.Within state.reader.cacheCount later.cacheLoc) :
      Crept state.reader later trace := ⟨by omega, by omega, events⟩
  simp only [Decoder.storeInCache, ensures_bind, ensures_get, ensures_emit, ensures_assignReader]
  split
  · simp only [ensures_bind, ensures_setValidPkt, ensures_pure]
    apply stored _ _ rfl rfl
    simp [Event.Within]
  · simp only [ensures_pure]
    apply stored _ _ rfl rfl
    simp [Event.Within]

variable (host) in
theorem Creeps.readFromFile : Creeps (readFromFile : Decode host (Option (Cplx F))) := by
  apply (Creeps.readTwoBytes host).bind fun bytes => ?_
  cases bytes with
  | none => exact Creeps.pure _
  | some bytes =>
    refine Creeps.bind (Creeps.assignReader (fun _ => rfl) fun _ => rfl) fun _ => ?_
    apply Creeps.get_bind fun state => ?_
    split
    · exact fun state => ensures_nullDereference
    · refine Creeps.bind (Creeps.assignReader (fun _ => rfl) fun _ => rfl) fun _ => ?_
      apply Creeps.get_bind fun later => ?_
      split
      · exact Creeps.storeInCache _
      · exact Creeps.pure _

variable (host) in
theorem Creeps.getNextSample : Creeps (getNextSample : Decode host (Option (Cplx F))) := by
  apply (Creeps.initializeOnce host).bind fun _ => ?_
  intro state
  simp only [ensures_bind, ensures_get, List.nil_append]
  have leaving : Creeps (do
      Decoder.assignReader fun reader => { reader with readFromCache := false }
      Decoder.assignReader fun reader => { reader with writeToCache := true }
      Decoder.readFromFile : Decode host (Option (Cplx F))) := by
    refine Creeps.bind (Creeps.assignReader (fun _ => rfl) fun _ => rfl) fun _ => ?_
    refine Creeps.bind (Creeps.assignReader (fun _ => rfl) fun _ => rfl) fun _ => ?_
    exact Creeps.readFromFile host
  split
  · split
    · exact leaving state
    · simp only [ensures_bind, ensures_emit, ensures_assignReader, ensures_pure]
      constructor
      · exact Int.le_add_one (le_refl _)
      · exact Or.inl rfl
      · simp [Event.Within]
  · exact Creeps.readFromFile host state

variable (host) in
theorem Creeps.skipTo (location : ℕ) : Creeps (skipTo location : Decode host Bool) := by
  apply Creeps.loop fun _ => ?_
  apply Creeps.get_bind fun state => ?_
  split
  · apply (Creeps.getNextSample host).bind fun sample => ?_
    cases sample with
    | none => exact Creeps.pure _
    | some _ => exact Creeps.pure _
  · exact Creeps.pure _

variable (host) in
theorem Creeps.collect (count : ℕ) : Creeps (collect count : Decode host (List (Cplx F))) := by
  induction count with
  | zero => exact Creeps.pure _
  | succ count ih =>
    apply (Creeps.getNextSample host).bind fun sample => ?_
    cases sample with
    | none => exact Creeps.pure _
    | some _ => exact ih.bind fun _ => Creeps.pure _

/-- Fetching a buffer is one call and reading of samples. -/
theorem getSomeSamples_creeps (numSamples : ℤ) (location : ℕ) (state : State host) :
    (getSomeSamples numSamples location : Decode host (Option (Buffer F))).Ensures state
      fun _ later trace => ∃ rest, trace = .enterFetch numSamples location state :: rest ∧
        Crept state.reader later.reader rest := by
  have after : Creeps (do
      if !(← Decoder.skipTo location) then return none
      let reader := (← Prog.get).reader
      assignReader fun reader => { reader with allocations := reader.allocations + 1 }
      if numSamples < 0 then return none
      let recorded ← Decoder.collect numSamples.toNat
      return some
        { first := reader.currentReadLoc + 1
          recorded := recorded
          tail := (List.range' recorded.length (numSamples.toNat - recorded.length)).map
            (host.uninitialized reader.allocations) } : Decode host (Option (Buffer F))) := by
    apply (Creeps.skipTo host location).bind fun arrived => ?_
    split
    · exact Creeps.pure _
    · apply Creeps.get_bind fun later => ?_
      refine Creeps.bind (Creeps.assignReader (fun _ => rfl) fun _ => rfl) fun _ => ?_
      split
      · exact Creeps.pure _
      · exact (Creeps.collect host _).bind fun _ => Creeps.pure _
  simp only [getSomeSamples]
  rw [ensures_bind, ensures_get, ensures_bind, ensures_emit]
  exact Ensures.mono (after state) fun result later rest crept => ⟨rest, rfl, crept⟩

end Samples

/-! ## One half-bit -/

section HalfBits

variable [Arithmetic F] {capture : Capture F}

/-- Deciding a half-bit is one call of `get_some_samples`, and the cache does not become full. -/
theorem getBit_roomy (bitStart numSamples : ℕ) (state : State host)
    (tape : OnTape capture state.reader)
    (fits : Fits capture state.reader bitStart numSamples) :
    (getBit bitStart (u32 ((bitStart : ℤ) + numSamples - 1)) : Decode host ℤ).Attains state
      fun _ _ trace => fetches trace = [(withMargin numSamples, bitStart, state)] ∧
        ∀ event ∈ trace, event.Roomy state.reader.cacheCount := by
  have margin : ((withMargin numSamples).toNat : ℤ) = withMargin numSamples := by
    rw [withMargin_natCast]
    omega
  rw [getBit]
  dsimp only
  rw [int32_span fits.few, ← margin, attains_bind]
  apply ((getSomeSamples_tape _ _ state tape fits.ahead fits.inside fits.room).and_ensures
    (getSomeSamples_creeps _ _ state)).mono
  rintro buffer later early ⟨⟨⟨allocation, rfl⟩, ⟨reader, rfl, reached⟩, _⟩, rest, rfl, crept⟩
  have active := reached.tape.active
  have room : reader.cacheLoc < cacheSize := lt_of_le_of_lt active.inside active.room
  have fetched : ∀ event ∈ rest, event.Roomy state.reader.cacheCount := crept.roomy room
  -- Whatever is assigned now, the cache ends where the samples left it.
  have ends : reader.cacheCount = state.reader.cacheCount ∨ reader.cacheCount < cacheSize :=
    crept.count.imp_right fun below => lt_of_le_of_lt below room
  have entered : fetches (Event.enterFetch (withMargin numSamples).toNat bitStart state :: rest) =
      [(((withMargin numSamples).toNat : ℤ), bitStart, state)] :=
    congrArg (List.cons _) crept.fetches
  simp only [attains_bind, attains_get, attains_emit, attains_assignPacket, turnToCache,
    rewindCache]
  by_cases storing : reader.writeToCache = true
  · simp only [storing, if_true, attains_bind, attains_assignReader, attains_pure, Bool.not_true,
      fetches_append, entered]
    constructor
    · rfl
    · simp only [List.forall_mem_append, List.forall_mem_cons, List.not_mem_nil, false_implies,
        implies_true, and_true, true_and]
      exact ⟨⟨True.intro, fetched⟩, True.intro, ends, ⟨ends, ends⟩, ends, ends⟩
  · have cached : reader.readFromCache = true := by
      by_contra file
      exact storing (active.storing (eq_false_of_ne_true file))
    simp only [storing, cached, if_true, if_false, Bool.false_eq_true, attains_assignReader,
      attains_pure, fetches_append, entered]
    constructor
    · rfl
    · simp only [List.forall_mem_append, List.forall_mem_cons, List.not_mem_nil, false_implies,
        implies_true, and_true, true_and]
      exact ⟨⟨True.intro, fetched⟩, True.intro, ends, ends, ends⟩

/-- A buffer holds as many samples as asked for, those with the numbers behind a location. -/
structure Buffer.Holds (buffer : Buffer F) (capture : Capture F) (location count : ℕ) : Prop where
  read : buffer.recorded.length = count
  whole : buffer.tail = []
  samples : ∀ j < count, buffer.samples[j]? = capture.sample (location + 1 + j)

/-- No transition is found in a buffer, or one at an index of it. -/
def Buffer.TransitionInside (buffer : Buffer F) (prelude : Prelude F) (numSamples : ℤ) : Prop :=
  scanSamplesForEobTransition prelude.highFreq prelude.lowFreq buffer.samples numSamples = -1 ∨
    ∃ index < buffer.samples.length,
      scanSamplesForEobTransition prelude.highFreq prelude.lowFreq buffer.samples numSamples = index

/-- One call of `get_bit`, for so many samples from a location: the number of samples is not much
less than half of the estimate, the buffer holds exactly the samples behind the location and a tenth
more than asked for, and the transition that is found lies in it. -/
structure AlignedWindow (capture : Capture F) (estimate numSamples location : ℕ)
    (state : State host) : Prop where
  long : 4 * estimate ≤ 10 * numSamples
  buffered : (getSomeSamples (withMargin numSamples) location :
    Decode host (Option (Buffer F))).Attains state fun result _ _ =>
      ∃ buffer, result = some buffer ∧
        buffer.Holds capture location (11 * numSamples / 10) ∧
        buffer.TransitionInside state.prelude (withMargin numSamples)

/-- The transition that is found in a filled buffer lies in it. -/
theorem Buffer.Holds.transitionInside {buffer : Buffer F} {location count : ℕ}
    (holds : buffer.Holds capture location count) (prelude : Prelude F) :
    buffer.TransitionInside prelude count := by
  have length : buffer.samples.length = count := by
    rw [Buffer.samples, holds.whole, List.append_nil, holds.read]
  have bounds := scanSamples_bounds prelude.highFreq prelude.lowFreq buffer.samples count
  apply bounds.imp_right
  rintro ⟨first, _, last⟩
  obtain ⟨index, found⟩ := Int.eq_ofNat_of_zero_le (show 0 ≤ scanSamplesForEobTransition
    prelude.highFreq prelude.lowFreq buffer.samples count by omega)
  exact ⟨index, by omega, found⟩

/-- A window that is recorded as a whole is aligned. -/
theorem alignedWindow_of_fits {estimate numSamples location : ℕ} {state : State host}
    (tape : OnTape capture state.reader) (fits : Fits capture state.reader location numSamples)
    (full : location + 11 * numSamples / 10 ≤ capture.last)
    (long : 4 * estimate ≤ 10 * numSamples) :
    AlignedWindow capture estimate numSamples location state := by
  have margin : (withMargin numSamples).toNat = 11 * numSamples / 10 := by
    rw [withMargin_natCast, Int.toNat_natCast]
  have room := fits.room
  rw [Capture.windowEnd, margin] at room
  have opened : capture.base ≤ location := tape.opened.trans fits.ahead
  have length := window_length location (11 * numSamples / 10) opened
  have obtained : (capture.window location (11 * numSamples / 10)).length =
      11 * numSamples / 10 := by omega
  refine ⟨long, ?_⟩
  rw [withMargin_natCast]
  apply (getSomeSamples_tape _ location state tape fits.ahead fits.inside room).mono
  rintro result later trace ⟨⟨allocation, rfl⟩, _⟩
  have holds : Buffer.Holds
      { first := location + 1
        recorded := capture.window location (11 * numSamples / 10)
        tail := unfilled host allocation (11 * numSamples / 10)
          (capture.window location (11 * numSamples / 10)).length }
      capture location (11 * numSamples / 10) := by
    have whole : unfilled host allocation (11 * numSamples / 10)
        (capture.window location (11 * numSamples / 10)).length = [] := by
      rw [unfilled, obtained, Nat.sub_self]
      rfl
    refine ⟨obtained, whole, fun j inside => ?_⟩
    dsimp only [Buffer.samples]
    rw [whole, List.append_nil, getElem?_window opened inside, Nat.add_right_comm]
  exact ⟨_, rfl, holds, holds.transitionInside _⟩

/-- What a run shows: where its windows start, that each is aligned, that the cache does not become
full, and that there are enough samples. -/
structure Shows (capture : Capture F) (estimate : ℕ) (count : ℤ) (locations : List ℕ)
    (trace : List (Event host)) : Prop where
  locations : (fetches trace).map (fun fetch => fetch.2.1) = locations
  windows : ∀ fetch ∈ fetches trace, ∃ numSamples : ℕ, fetch.1 = withMargin numSamples ∧
    AlignedWindow capture estimate numSamples fetch.2.1 fetch.2.2
  roomy : ∀ event ∈ trace, event.Roomy count
  supplied : ∀ event ∈ trace, event.Supplied

/-- A part beside the reader shows no window. -/
theorem shows_of_beside {estimate : ℕ} {reader : Reader host} {count : ℤ}
    {trace : List (Event host)} (beside : ∀ event ∈ trace, event.Beside reader)
    (few : reader.cacheCount = count ∨ reader.cacheCount < cacheSize) :
    Shows capture estimate count [] trace := by
  have none := fetches_of_beside beside
  constructor
  · rw [none]
    rfl
  · rw [none]
    exact fun fetch member => absurd member List.not_mem_nil
  · intro event member
    have roomy := roomy_of_beside (beside event member)
    rcases few with same | less
    · rw [← same]
      exact roomy
    · exact roomy.of_lt less
  · exact fun event member => supplied_of_beside (beside event member)

/-- Parts of a run show their windows one after the other. -/
theorem Shows.append {estimate : ℕ} {count : ℤ} {locations more : List ℕ}
    {early late : List (Event host)} (former : Shows capture estimate count locations early)
    (latter : Shows capture estimate count more late) :
    Shows capture estimate count (locations ++ more) (early ++ late) := by
  constructor
  · rw [fetches_append, List.map_append, former.locations, latter.locations]
  · intro fetch member
    rw [fetches_append] at member
    rcases List.mem_append.mp member with first | second
    · exact former.windows fetch first
    · exact latter.windows fetch second
  · intro event member
    rcases List.mem_append.mp member with first | second
    · exact former.roomy event first
    · exact latter.roomy event second
  · intro event member
    rcases List.mem_append.mp member with first | second
    · exact former.supplied event first
    · exact latter.supplied event second

/-- Once samples were stored, a part shows the same for the whole run. -/
theorem Shows.of_lt {estimate : ℕ} {count other : ℤ} {locations : List ℕ}
    {trace : List (Event host)} (shown : Shows capture estimate other locations trace)
    (less : other < cacheSize) : Shows capture estimate count locations trace :=
  ⟨shown.locations, shown.windows, fun event member => (shown.roomy event member).of_lt less,
    shown.supplied⟩

/-- An attempt that has read samples up to `limit`, and not passed the end of the last half-bit. -/
structure Following (capture : Capture F) (start limit : ℕ) (state : State host) : Prop where
  tape : OnTape capture state.reader
  place : state.reader.cacheLocInFile = start
  ahead : state.reader.position ≤ state.packet.actualBitEnd
  recorded : state.reader.recorded ≤ limit - start
  few : state.reader.cacheCount < cacheSize

/-- What is beside the reader does not disturb an attempt. -/
theorem Following.beside {start limit : ℕ} {state later : State host}
    (following : Following capture start limit state) (reader : later.reader = state.reader)
    (ends : later.packet.actualBitEnd = state.packet.actualBitEnd) :
    Following capture start limit later := by
  obtain ⟨tape, place, ahead, recorded, few⟩ := following
  constructor
  · rw [reader]
    exact tape
  · rw [reader]
    exact place
  · rw [reader, ends]
    exact ahead
  · rw [reader]
    exact recorded
  · rw [reader]
    exact few

/-- One half-bit: if its window ends behind the ones before, it is aligned, and the half-bit ends in
the last quarter of it. -/
theorem getBit_window {start limit bitStart numSamples estimate : ℕ} {state : State host}
    (tape : OnTape capture state.reader) (place : state.reader.cacheLocInFile = start)
    (ahead : state.reader.position ≤ bitStart)
    (recorded : state.reader.recorded ≤ limit - start) (behind : start ≤ bitStart)
    (front : limit ≤ bitStart + 11 * numSamples / 10) (some : 10 ≤ numSamples)
    (few : numSamples ≤ 2 ^ 16) (full : bitStart + 11 * numSamples / 10 ≤ capture.last)
    (room : bitStart + 11 * numSamples / 10 < start + 65535)
    (counted : bitStart + 11 * numSamples / 10 < 2 ^ 32)
    (long : 4 * estimate ≤ 10 * numSamples) :
    (getBit bitStart (u32 ((bitStart : ℤ) + numSamples - 1)) : Decode host ℤ).Attains state
      fun _ later trace =>
        Following capture start (bitStart + 11 * numSamples / 10) later ∧
        bitStart + 3 * (11 * numSamples / 10) / 4 ≤ later.packet.actualBitEnd + 1 ∧
        later.packet.actualBitEnd + 1 < bitStart + 11 * numSamples / 10 ∧
        Shows capture estimate state.reader.cacheCount [bitStart] trace := by
  have fits : Fits capture state.reader bitStart numSamples :=
    fits_full (by omega) few ahead (by omega) full (by omega) counted
  have aligned := alignedWindow_of_fits tape fits full long
  have fetchable := fits.fetchable tape
  have roomy := (getBit_roomy bitStart numSamples state tape fits).ensures
  have plain :
      (getBit bitStart (u32 ((bitStart : ℤ) + numSamples - 1)) : Decode host _).Ensures state _ :=
    ((plain_bitFree host).getBit_keeps bitStart _).ensures True.intro
  apply ((getBit_tape bitStart numSamples state tape fits).and_ensures (roomy.and plain)).mono
  rintro value later trace ⟨⟨allocation, _, decided, _⟩, ⟨fetched, roomy⟩, plain, _⟩
  obtain ⟨transitionPoint, found⟩ : ∃ transitionPoint,
      scanSamplesForEobTransition state.prelude.highFreq state.prelude.lowFreq
        (windowSamples host capture allocation bitStart numSamples) (withMargin numSamples) =
          transitionPoint := ⟨_, rfl⟩
  have bounds := scanSamples_bounds state.prelude.highFreq state.prelude.lowFreq
    (windowSamples host capture allocation bitStart numSamples) (withMargin numSamples)
  rw [found] at bounds decided
  have quarters := threeQuarters_natCast (11 * numSamples / 10)
  rw [withMargin_natCast, quarters] at bounds
  have actual := decided.ends
  have ends : bitStart + 3 * (11 * numSamples / 10) / 4 ≤ later.packet.actualBitEnd + 1 ∧
      later.packet.actualBitEnd + 1 < bitStart + 11 * numSamples / 10 := by
    rcases bounds with none | ⟨positive, lower, upper⟩
    · rw [none, bitEndAt_eq (by omega) (by omega)] at actual
      omega
    · obtain ⟨edge, rfl⟩ := Int.eq_ofNat_of_zero_le (show 0 ≤ transitionPoint by omega)
      rw [bitEndAt_transition (by omega) (by omega)] at actual
      omega
  have head := decided.position_le full (by omega) (by omega)
  refine ⟨⟨decided.tape, decided.place.trans place, head.1, ?_, ?_⟩, ends.1, ends.2, ?_⟩
  · rw [head.2, place]
    push_cast
    exact le_refl _
  · have room := decided.tape.active.room
    rwa [Reader.recorded, if_pos decided.replaying.cache] at room
  · constructor
    · rw [fetched]
      rfl
    · rw [fetched]
      intro fetch member
      rw [List.mem_singleton.mp member]
      exact ⟨numSamples, rfl, aligned⟩
    · exact roomy
    · apply supplied_of_fetches plain
      rw [fetched]
      intro fetch member
      rw [List.mem_singleton.mp member]
      exact fetchable

/-! ## Symbols -/

/-- An attempt before a symbol: what it has read does not reach beyond the window of its first
half-bit. -/
def AtSymbol (capture : Capture F) (start estimate : ℕ) (state : State host) : Prop :=
  Following capture start (state.packet.actualBitEnd + 1 + 11 * (estimate / 2) / 10) state

/-- The samples up to `target` are in the capture, the cache has room for them, and their numbers
do not wrap. -/
structure Reaches (capture : Capture F) (start target : ℕ) : Prop where
  full : target ≤ capture.last
  room : target < start + 65535
  counted : target < 2 ^ 32

/-- The windows of a symbol are aligned, and the next symbol starts between 0.88 and 1.07 estimates
behind it. -/
theorem getSymbol_windows {start target estimate : ℕ} {state : State host}
    (begun : AtSymbol capture start estimate state) (possible : Admitted estimate)
    (behind : start ≤ state.packet.actualBitEnd + 1)
    (inside : 100 * (state.packet.actualBitEnd + 1) + 107 * estimate ≤ 100 * target)
    (reaches : Reaches capture start target) :
    (getSymbol (state.packet.actualBitEnd + 1) estimate : Decode host ℤ).Attains state
      fun _ later trace => AtSymbol capture start estimate later ∧
        100 * (state.packet.actualBitEnd + 1) + 88 * estimate ≤
          100 * (later.packet.actualBitEnd + 1) ∧
        100 * (later.packet.actualBitEnd + 1) ≤
          100 * (state.packet.actualBitEnd + 1) + 107 * estimate ∧
        ∃ second, Shows capture estimate state.reader.cacheCount
          [state.packet.actualBitEnd + 1, second] trace := by
  obtain ⟨shortest, longest⟩ := possible
  unfold minSamplesPerSymbol at shortest
  unfold maxSamplesPerSymbol at longest
  obtain ⟨full, room, counted⟩ := reaches
  obtain ⟨symStart, starts⟩ : ∃ symStart, symStart = state.packet.actualBitEnd + 1 := ⟨_, rfl⟩
  obtain ⟨half, halved⟩ : ∃ half, half = estimate / 2 := ⟨_, rfl⟩
  unfold AtSymbol at begun
  rw [← starts, ← halved] at begun
  rw [← starts] at behind inside ⊢
  have ahead := begun.ahead
  simp only [getSymbol, attains_bind, ← halved]
  apply (getBit_window begun.tape begun.place (by omega) begun.recorded behind (by omega)
    (by omega) (by omega) (by omega) (by omega) (by omega)
    (show 4 * estimate ≤ 10 * half by omega)).mono
  rintro firstBit first early ⟨following, earliest, latest, shown⟩
  obtain ⟨bitStart, second⟩ : ∃ bitStart, bitStart = first.packet.actualBitEnd := ⟨_, rfl⟩
  have ahead' := following.ahead
  rw [← second] at earliest latest ahead'
  rw [attains_get]
  -- What the first half-bit left of the estimate is looked through for the second one.
  obtain ⟨rest, left⟩ : ∃ rest, rest + bitStart = symStart + estimate :=
    ⟨symStart + estimate - bitStart, by omega⟩
  have span : (symStart : ℤ) + estimate - 1 = (bitStart : ℤ) + rest - 1 := by omega
  rw [← second, span]
  apply (getBit_window following.tape following.place ahead' following.recorded (by omega)
    (by omega) (by omega) (by omega) (by omega) (by omega) (by omega)
    (show 4 * estimate ≤ 10 * rest by omega)).mono
  rintro secondBit later middle ⟨following', earliest', latest', shown'⟩
  have further (final : State host) (reader : final.reader = later.reader)
      (ends : final.packet.actualBitEnd = later.packet.actualBitEnd) :
      AtSymbol capture start estimate final ∧
        100 * symStart + 88 * estimate ≤ 100 * (final.packet.actualBitEnd + 1) ∧
        100 * (final.packet.actualBitEnd + 1) ≤ 100 * symStart + 107 * estimate := by
    have recorded := following'.recorded
    refine ⟨?_, by omega, by omega⟩
    exact { following'.beside reader ends with
      recorded := by
        rw [reader, ends]
        omega }
  have windows : Shows capture estimate state.reader.cacheCount [symStart, bitStart]
      (early ++ middle) := shown.append (shown'.of_lt following.few)
  have besides (late : List (Event host)) (beside : ∀ event ∈ late, event.Beside later.reader) :
      Shows capture estimate state.reader.cacheCount [symStart, bitStart]
        (early ++ (middle ++ late)) := by
    rw [← List.append_assoc]
    exact windows.append (shows_of_beside beside (Or.inr following'.few))
  rw [attains_get]
  split
  · rw [attains_bind]
    apply (Besides.setValidPkt false later).mono
    rintro _ final late ⟨reader, _, ends, beside⟩
    obtain ⟨onward, lower, upper⟩ := further final reader ends
    rw [attains_pure, List.append_nil]
    exact ⟨onward, lower, upper, bitStart, besides late beside⟩
  · apply (Besides.recordSymbol host _ _ later).mono
    rintro symbol final late ⟨reader, _, ends, beside⟩
    obtain ⟨onward, lower, upper⟩ := further final reader ends
    exact ⟨onward, lower, upper, bitStart, besides late beside⟩

/-- An attempt before its first half-bit: nothing is in the cache, which starts at the head. -/
structure AtStart (capture : Capture F) (start : ℕ) (state : State host) : Prop where
  tape : OnTape capture state.reader
  place : state.reader.cacheLocInFile = start
  position : state.reader.position = start
  recorded : state.reader.recorded = 0

/-- The window of the second symbol is aligned. -/
theorem getSecondSymbol_windows {start target estimate : ℕ} {state : State host}
    (begun : AtStart capture start state) (possible : Admitted estimate)
    (inside : start + estimate ≤ target) (reaches : Reaches capture start target) :
    (getSecondSymbol start estimate : Decode host ℤ).Attains state fun _ later trace =>
      AtSymbol capture start estimate later ∧ start ≤ later.packet.actualBitEnd + 1 ∧
        100 * (later.packet.actualBitEnd + 1) ≤ 100 * start + 55 * estimate ∧
        Shows capture estimate state.reader.cacheCount [start] trace := by
  obtain ⟨shortest, longest⟩ := possible
  unfold minSamplesPerSymbol at shortest
  unfold maxSamplesPerSymbol at longest
  obtain ⟨full, room, counted⟩ := reaches
  obtain ⟨half, halved⟩ : ∃ half, half = estimate / 2 := ⟨_, rfl⟩
  have position := begun.position
  have recorded := begun.recorded
  have preset : Besides (assignPacket fun packet => { packet with precedingBit := 1 } :
      Decode host Unit) := Besides.assignPacket fun _ => rfl
  rw [getSecondSymbol, attains_bind]
  apply (preset state).mono
  rintro _ first early ⟨reader, prelude, _, beside⟩
  simp only [← halved]
  rw [attains_bind]
  apply (getBit_window (by rw [reader]; exact begun.tape) (by rw [reader]; exact begun.place)
    (by rw [reader]; omega) (show first.reader.recorded ≤ start - start by rw [reader]; omega)
    (le_refl start) (by omega) (by omega) (by omega) (by omega) (by omega) (by omega)
    (show 4 * estimate ≤ 10 * half by omega)).mono
  rintro secondBit later middle ⟨following, earliest, latest, shown⟩
  rw [reader] at shown
  have onward (final : State host) (late : List (Event host)) (same : final.reader = later.reader)
      (ends : final.packet.actualBitEnd = later.packet.actualBitEnd)
      (beside' : ∀ event ∈ late, event.Beside later.reader) :
      AtSymbol capture start estimate final ∧ start ≤ final.packet.actualBitEnd + 1 ∧
        100 * (final.packet.actualBitEnd + 1) ≤ 100 * start + 55 * estimate ∧
        Shows capture estimate state.reader.cacheCount [start] (early ++ (middle ++ late)) := by
    have recorded' := following.recorded
    refine ⟨?_, by omega, by omega, ?_⟩
    · exact { following.beside same ends with
        recorded := by
          rw [same, ends]
          omega }
    · have last : Shows capture estimate state.reader.cacheCount [] late :=
        shows_of_beside beside' (Or.inr following.few)
      exact (shows_of_beside beside (Or.inl rfl)).append (shown.append last)
  rw [attains_bind, attains_get]
  split
  · split
    · apply (Besides.recordSecondSymbol host _ _ later).mono
      rintro symbol final late ⟨same, _, ends, beside'⟩
      exact onward final late same ends beside'
    · rw [attains_bind]
      apply (Besides.setValidPkt false later).mono
      rintro _ final late ⟨same, _, ends, beside'⟩
      rw [attains_pure, List.append_nil]
      exact onward final late same ends beside'
  · apply (Besides.recordSecondSymbol host _ _ later).mono
    rintro symbol final late ⟨same, _, ends, beside'⟩
    exact onward final late same ends beside'

/-! ## Attempts -/

/-- From the one with index `offset` on, every second location is between 0.88 and 1.07 estimates
behind the one two places before. -/
def Spaced (estimate offset : ℕ) (locations : List ℕ) : Prop :=
  ∀ i first second, locations[offset + 2 * i]? = some first →
    locations[offset + 2 * i + 2]? = some second →
    100 * first + 88 * estimate ≤ 100 * second ∧ 100 * second ≤ 100 * first + 107 * estimate

/-- Two more locations in front. -/
theorem Spaced.cons {estimate first between : ℕ} {locations : List ℕ}
    (spaced : Spaced estimate 0 locations)
    (next : ∀ second, locations[0]? = some second → 100 * first + 88 * estimate ≤ 100 * second ∧
      100 * second ≤ 100 * first + 107 * estimate) :
    Spaced estimate 0 ([first, between] ++ locations) := by
  intro i earlier later found found'
  cases i with
  | zero =>
    have same : first = earlier := Option.some_injective _ found
    rw [← same]
    exact next later found'
  | succ i =>
    have place : 0 + 2 * (i + 1) = 0 + 2 * i + 2 := by omega
    have further : 0 + 2 * (i + 1) + 2 = 0 + 2 * i + 2 + 2 := by omega
    rw [place] at found
    rw [further] at found'
    exact spaced i earlier later found found'

/-- The windows of the symbols from the third one on are aligned. -/
theorem collectSymbols_windows {start target estimate : ℕ} (possible : Admitted estimate)
    (reaches : Reaches capture start target) (count : ℕ) :
    ∀ (packetSyms : List ℤ) (state : State host), AtSymbol capture start estimate state →
      start ≤ state.packet.actualBitEnd + 1 →
      100 * (state.packet.actualBitEnd + 1) + 107 * (estimate * count) ≤ 100 * target →
      (collectSymbols estimate count packetSyms : Decode host _).Attains state
        fun _ later trace => later.reader.cacheCount < cacheSize ∧
          ∃ locations, Shows capture estimate state.reader.cacheCount locations trace ∧
            Spaced estimate 0 locations ∧
            ∀ first, locations[0]? = some first → first = state.packet.actualBitEnd + 1 := by
  induction count with
  | zero =>
    intro packetSyms state begun _ _
    rw [collectSymbols, attains_pure]
    have quiet : ∀ event ∈ ([] : List (Event host)), event.Beside state.reader :=
      fun event member => absurd member List.not_mem_nil
    refine ⟨begun.few, [], shows_of_beside quiet (Or.inl rfl), ?_, ?_⟩
    · exact fun i first second found => absurd found (by simp)
    · exact fun first found => absurd found (by simp)
  | succ count ih =>
    intro packetSyms state begun behind inside
    have more : estimate * (count + 1) = estimate * count + estimate := Nat.mul_succ estimate count
    rw [more] at inside
    have counted := reaches.counted
    have place : u32 ((state.packet.actualBitEnd : ℤ) + 1) = state.packet.actualBitEnd + 1 := by
      unfold u32
      omega
    simp only [collectSymbols, attains_bind, attains_get, place, List.nil_append]
    apply (getSymbol_windows begun possible behind (by omega) reaches).mono
    rintro symbol later early ⟨onward, lower, upper, second, shown⟩
    have few := onward.few
    split
    · rw [attains_pure]
      refine ⟨few, [state.packet.actualBitEnd + 1, second], ?_, ?_, ?_⟩
      · rw [List.append_nil]
        exact shown
      · intro i first later found found'
        rw [List.getElem?_eq_none (by simp)] at found'
        cases found'
      · exact fun first found => (Option.some_injective _ found).symm
    · apply (ih _ later onward (by omega) (by omega)).mono
      rintro result final late ⟨few', locations, shown', spaced, next⟩
      refine ⟨few', [state.packet.actualBitEnd + 1, second] ++ locations, ?_, ?_, ?_⟩
      · exact shown.append (shown'.of_lt few)
      · apply spaced.cons
        intro further found
        rw [next further found]
        exact ⟨lower, upper⟩
      · exact fun first found => (Option.some_injective _ found).symm

/-- The windows of an attempt: each call of `get_bit` is aligned, the calls of `get_symbol` are
spaced as estimated, and the cache does not become full. The first window is that of
`get_second_symbol`, and from then on every second one is the first of a `get_symbol`. -/
structure WindowsAligned (capture : Capture F) (estimate : ℕ) (count : ℤ)
    (trace : List (Event host)) : Prop where
  windows : ∀ fetch ∈ fetches trace, ∃ numSamples : ℕ, fetch.1 = withMargin numSamples ∧
    AlignedWindow capture estimate numSamples fetch.2.1 fetch.2.2
  spaced : Spaced estimate 1 ((fetches trace).map fun fetch => fetch.2.1)
  roomy : ∀ event ∈ trace, event.Roomy count

/-- What is shown of a run aligns its windows. -/
theorem Shows.aligned {estimate location : ℕ} {count : ℤ} {locations : List ℕ}
    {trace : List (Event host)}
    (shown : Shows capture estimate count (location :: locations) trace)
    (spaced : Spaced estimate 0 locations) : WindowsAligned capture estimate count trace := by
  refine ⟨shown.windows, ?_, shown.roomy⟩
  rw [shown.locations]
  intro i first second found found'
  have place : 1 + 2 * i = 0 + 2 * i + 1 := by omega
  rw [place, List.getElem?_cons_succ] at found
  have further : 1 + 2 * i + 2 = 0 + 2 * i + 2 + 1 := by omega
  rw [further, List.getElem?_cons_succ] at found'
  exact spaced i first second found found'

/-- A window alone has no spacing. -/
theorem spaced_nil (estimate : ℕ) : Spaced estimate 0 [] :=
  fun i first second found => absurd found (by simp)

/-- The windows of the half-bits of a packet are aligned. -/
theorem getPacketSymbols_windows {start target estimate : ℕ} {state : State host}
    (begun : AtStart capture start state) (possible : Admitted estimate)
    (inside : 100 * start + 55 * estimate + 107 * (estimate * 67) ≤ 100 * target)
    (reaches : Reaches capture start target) :
    (getPacketSymbols start symbolsPerMsg estimate : Decode host _).Attains state
      fun _ later trace => later.reader.cacheCount < cacheSize ∧
        ∃ locations, Spaced estimate 0 locations ∧
          Shows capture estimate state.reader.cacheCount (start :: locations) trace := by
  have message : symbolsPerMsg - 2 = 67 := rfl
  have unread : Besides (strcpy .bits "011" >>= fun _ => strcpy .symbols "1" :
      Decode host Unit) :=
    (Besides.strcpyFrom _ _ _).bind fun _ => Besides.strcpyFrom _ _ _
  have texts := unread state
  rw [attains_bind] at texts
  simp only [getPacketSymbols, message, attains_bind]
  apply texts.mono
  rintro _ first early copied
  apply copied.mono
  rintro _ second early' ⟨reader, _, _, beside⟩
  have begun' : AtStart capture start second := by
    obtain ⟨tape, place, position, recorded⟩ := begun
    exact ⟨by rw [reader]; exact tape, by rw [reader]; exact place,
      by rw [reader]; exact position, by rw [reader]; exact recorded⟩
  have before : Shows capture estimate state.reader.cacheCount [] (early ++ early') :=
    shows_of_beside beside (Or.inl rfl)
  apply (getSecondSymbol_windows begun' possible (by omega) reaches).mono
  rintro symbol third middle ⟨onward, behind, near, shown⟩
  rw [reader] at shown
  have few := onward.few
  have opening : Shows capture estimate state.reader.cacheCount [start]
      (early ++ (early' ++ middle)) := by
    rw [← List.append_assoc]
    exact before.append shown
  simp only [attains_get, List.nil_append]
  split
  · rw [attains_pure, List.append_nil]
    exact ⟨few, [], spaced_nil estimate, opening⟩
  · rw [attains_bind]
    apply (collectSymbols_windows possible reaches 67 _ third onward behind (by omega)).mono
    rintro result fourth late ⟨few', locations, shown', spaced, _⟩
    have whole : Shows capture estimate state.reader.cacheCount (start :: locations)
        (early ++ (early' ++ (middle ++ late))) := by
      have parts := opening.append (shown'.of_lt few)
      rwa [List.append_assoc, List.append_assoc] at parts
    cases result with
    | none =>
      rw [attains_pure, List.append_nil]
      exact ⟨few', locations, spaced, whole⟩
    | some packetSyms =>
      have closing : Besides (do
          Decoder.setValidPkt (validatePacket packetSyms)
          if !(← Prog.get).validPkt then return none
          return some packetSyms : Decode host (Option (List ℤ))) := by
        apply (Besides.setValidPkt _).bind fun _ => ?_
        apply Besides.get_bind fun _ => ?_
        split
        · exact Besides.pure _
        · exact Besides.pure _
      apply (closing fourth).mono
      rintro answer final last ⟨reader', _, _, beside'⟩
      refine ⟨by rw [reader']; exact few', locations, spaced, ?_⟩
      have ended := whole.append (shows_of_beside beside' (Or.inr few'))
      rw [List.append_nil] at ended
      simpa only [List.append_assoc] using ended

/-! ## First attempts -/

/-- Where the first attempt at a prelude starts: nothing is replayed or stored, the sync bits have
just been read, and at least 40000 samples are left behind them. -/
structure FirstAttempt (state : State host) : Prop where
  idle : state.reader.Idle
  ends : state.prelude.syncBitsEnd = u32 state.reader.totalSamplesIn
  left : 40000 ≤ state.reader.upcoming.length

/-- Where `is_valid_prelude` succeeded a first attempt starts, if enough samples are left. -/
theorem isValidPrelude_firstAttempt (start : State host) (idle : start.reader.Idle) :
    (isValidPrelude : Decode host Bool).Ensures start fun valid state _ =>
      valid = true → 40000 ≤ state.reader.upcoming.length → FirstAttempt state := by
  have anything {α : Type} (program : Decode host α) (state : State host) :
      program.Ensures state fun _ _ _ => True := fun _ _ _ _ => True.intro
  have ended : (isValidPrelude : Decode host Bool).Ensures start fun valid state _ =>
      valid = true → state.prelude.syncBitsEnd = u32 state.reader.totalSamplesIn := by
    simp only [isValidPrelude, ensures_bind, ensures_emit, ensures_assignPrelude, ensures_get]
    refine Ensures.mono (anything _ _) fun sample second _ _ => ?_
    cases sample with
    | none => exact ensures_nullDereference
    | some x =>
      simp only [measurePrelude, ensures_bind, ensures_get]
      refine Ensures.mono (anything _ _) fun high third _ _ => ?_
      cases high with
      | none => exact (ensures_pure _).mpr fun valid => by cases valid
      | some phi =>
        simp only [ensures_bind, ensures_get, ensures_assignPrelude]
        refine Ensures.mono (anything _ _) fun low fourth _ _ => ?_
        cases low with
        | none => exact (ensures_pure _).mpr fun valid => by cases valid
        | some phi =>
          simp only [ensures_bind, ensures_get, ensures_assignPrelude]
          split
          · exact (ensures_pure _).mpr fun valid => by cases valid
          · simp only [ensures_bind, ensures_assignPrelude]
            refine Ensures.mono (anything _ _) fun skipped fifth _ _ => ?_
            split
            · exact (ensures_pure _).mpr fun valid => by cases valid
            · simp only [ensures_bind, ensures_get, ensures_assignPrelude]
              split
              · exact (ensures_pure _).mpr fun valid => by cases valid
              · exact (ensures_pure _).mpr fun _ => rfl
  have kept := ((searching_preludeFree host start.validPkt).isValidPrelude_keeps
    (fun _ _ => True.intro) True.intro).ensures ⟨idle, rfl⟩
  intro valid state trace evaluates holds enough
  exact ⟨(kept valid state trace evaluates).2.1, ended valid state trace evaluates holds, enough⟩

/-- The cache is started at the sample read last. -/
theorem startCache_atStart {state : State host} (first : FirstAttempt state) (estimate : ℕ)
    (counted : state.reader.totalSamplesIn + 40000 ≤ 2 ^ 32) :
    (startCache : Decode host Unit).Attains state fun _ later trace =>
      AtStart state.reader.capture state.reader.totalSamplesIn later ∧
        later.reader.cacheCount = state.reader.cacheCount ∧
        Shows state.reader.capture estimate state.reader.cacheCount [] trace := by
  have file : state.reader.readFromCache = false := first.idle.file
  have left := first.left
  have upcoming : state.reader.upcoming ≠ [] := by
    intro empty
    rw [empty, List.length_nil] at left
    omega
  have placed := placed_capture state.reader
  simp only [startCache, attains_bind, attains_assignReader, attains_get, file, Bool.not_false,
    if_true]
  have storing : Storing state.reader.capture { state.reader with
      readFromCache := false, writeToCache := true, cacheLoc := 0,
      cacheLocInFile := state.reader.totalSamplesIn } := by
    refine ⟨rfl, rfl, le_refl _, fun j before => absurd before ?_, ?_⟩
    · dsimp only
      omega
    · dsimp only
      omega
  refine ⟨⟨⟨⟨⟨placed.opened, placed.rest⟩, Or.inl ⟨storing, Or.inr ⟨rfl, upcoming⟩⟩⟩,
    ⟨le_refl _, le_refl _, show (0 : ℤ) < cacheSize by decide, fun _ => rfl⟩, ?_⟩, rfl, rfl, rfl⟩,
    True.intro, rfl, ?_, ?_, ?_⟩
  · dsimp only [cacheSize]
    omega
  · exact fun fetch member => absurd member List.not_mem_nil
  · simp [Event.Roomy]
  · simp [Event.Supplied]

/-- What a first attempt shows of its windows, as long as sample numbers do not wrap: the first one
starts at the end of the sync bits. -/
theorem firstAttempt_shows (state : State host) (estimate : ℕ) (first : FirstAttempt state)
    (possible : Admitted estimate) (counted : state.reader.totalSamplesIn + 40000 ≤ 2 ^ 32) :
    (attempt estimate : Decode host _).Attains state fun _ later trace =>
      later.reader.cacheCount < cacheSize ∧ ∃ locations, Spaced estimate 0 locations ∧
        Shows state.reader.capture estimate state.reader.cacheCount
          (state.reader.totalSamplesIn :: locations) trace := by
  have left := first.left
  have most := possible.2
  unfold maxSamplesPerSymbol at most
  have last : state.reader.capture.last =
      state.reader.totalSamplesIn + state.reader.upcoming.length := rfl
  have reaches : Reaches state.reader.capture state.reader.totalSamplesIn
      (state.reader.totalSamplesIn + 39999) := ⟨by omega, by omega, by omega⟩
  have ends : state.prelude.syncBitsEnd = state.reader.totalSamplesIn := by
    rw [first.ends]
    unfold u32
    omega
  have admitted : ¬ (estimate > maxSamplesPerSymbol ∨ estimate < minSamplesPerSymbol) := by
    have both := possible
    unfold Admitted at both
    omega
  simp only [attempt, tryToGetPacketSymbols, attains_bind, attains_get, attains_emit, ends]
  apply (startCache_atStart first estimate counted).mono
  rintro _ second early ⟨begun, same, quiet⟩
  have entered : Shows state.reader.capture estimate state.reader.cacheCount []
      ([.enterAttempt estimate state] : List (Event host)) := by
    refine ⟨rfl, fun fetch member => absurd member List.not_mem_nil, ?_, ?_⟩
    · simp [Event.Roomy]
    · simp [Event.Supplied]
  have valid : Shows state.reader.capture estimate state.reader.cacheCount []
      ([.visit { second with validPkt := true }] : List (Event host)) := by
    refine ⟨rfl, fun fetch member => absurd member List.not_mem_nil, ?_, ?_⟩
    · simp [Event.Roomy, same]
    · simp [Event.Supplied]
  have begun' : AtStart state.reader.capture state.reader.totalSamplesIn
      { second with validPkt := true } :=
    ⟨begun.tape, begun.place, begun.position, begun.recorded⟩
  rw [attains_setValidPkt, if_neg admitted, attains_bind]
  apply (getPacketSymbols_windows begun' possible (by omega) reaches).mono
  rintro result third late ⟨few, locations, spaced, shown⟩
  have count : Shows state.reader.capture estimate state.reader.cacheCount
      (state.reader.totalSamplesIn :: locations) late := by
    rw [← same]
    exact shown
  have whole : Shows state.reader.capture estimate state.reader.cacheCount
      (state.reader.totalSamplesIn :: locations) _ :=
    entered.append (quiet.append (valid.append count))
  cases result with
  | none =>
    simp only [attains_pure, List.append_nil, List.nil_append]
    exact ⟨few, locations, spaced, whole⟩
  | some packetSyms =>
    simp only [attains_bind, attains_get]
    by_cases accepted : third.validPkt = true
    · simp only [accepted, if_true, attains_bind, attains_get, attains_pure, List.append_nil,
        List.nil_append]
      exact ⟨few, locations, spaced, whole⟩
    · simp only [accepted, if_false, Bool.false_eq_true, attains_pure, List.append_nil,
        List.nil_append]
      exact ⟨few, locations, spaced, whole⟩

/-- The windows of a first attempt are aligned and its cache does not become full, as long as sample
numbers do not wrap. -/
theorem firstAttempt_aligned (state : State host) (estimate : ℕ) (first : FirstAttempt state)
    (possible : Admitted estimate) (counted : state.reader.totalSamplesIn + 40000 ≤ 2 ^ 32) :
    (attempt estimate : Decode host _).Attains state fun _ later trace =>
      later.reader.cacheCount < cacheSize ∧
        WindowsAligned state.reader.capture estimate state.reader.cacheCount trace := by
  apply (firstAttempt_shows state estimate first possible counted).mono
  rintro result later trace ⟨few, locations, spaced, shown⟩
  exact ⟨few, shown.aligned spaced⟩

/-! ## The first window -/

/-- A run fetches samples at a location. -/
def FetchesAt {α : Type} (location : ℕ) (state : State host) (program : Decode host α) : Prop :=
  program.Ensures state fun _ _ trace => ∃ fetch ∈ fetches trace, fetch.2.1 = location

omit [Arithmetic F] in
theorem FetchesAt.before {α β : Type} {location : ℕ} {state : State host}
    {first : Decode host α} {second : α → Decode host β} (former : FetchesAt location state first) :
    FetchesAt location state (first >>= second) := by
  rw [FetchesAt, ensures_bind]
  refine Ensures.mono former ?_
  rintro value middle early ⟨fetch, member, here⟩ result stop late _
  rw [fetches_append]
  exact ⟨fetch, List.mem_append_left _ member, here⟩

omit [Arithmetic F] in
theorem FetchesAt.after {α β : Type} {location : ℕ} {state : State host}
    {first : Decode host α} {second : α → Decode host β}
    (latter : ∀ value middle, FetchesAt location middle (second value)) :
    FetchesAt location state (first >>= second) := by
  rw [FetchesAt, ensures_bind]
  intro value middle early _
  refine Ensures.mono (latter value middle) ?_
  rintro result stop late ⟨fetch, member, here⟩
  rw [fetches_append]
  exact ⟨fetch, List.mem_append_right _ member, here⟩

/-- `get_bit` fetches its samples. -/
theorem getBit_fetches (bitStart bitEnd : ℕ) (state : State host) :
    FetchesAt bitStart state (getBit bitStart bitEnd : Decode host ℤ) := by
  rw [getBit]
  apply FetchesAt.before
  refine Ensures.mono (getSomeSamples_creeps _ _ state) ?_
  rintro result later trace ⟨rest, rfl, _⟩
  exact ⟨_, List.mem_cons_self, rfl⟩

/-- An attempt that is not rejected at once fetches samples at the end of the sync bits. -/
theorem attempt_fetches {estimate : ℕ} (possible : Admitted estimate) (state : State host) :
    FetchesAt state.prelude.syncBitsEnd state (attempt estimate : Decode host _) := by
  have admitted : ¬ (estimate > maxSamplesPerSymbol ∨ estimate < minSamplesPerSymbol) := by
    unfold Admitted at possible
    omega
  have packet (location : ℕ) (state : State host) : FetchesAt location state
      (getPacketSymbols location symbolsPerMsg estimate : Decode host _) := by
    apply FetchesAt.after fun _ _ => ?_
    apply FetchesAt.after fun _ _ => ?_
    apply FetchesAt.before
    apply FetchesAt.after fun _ _ => ?_
    exact FetchesAt.before (getBit_fetches _ _ _)
  have tried (location : ℕ) : FetchesAt location state
      (tryToGetPacketSymbols location symbolsPerMsg estimate : Decode host _) := by
    apply FetchesAt.after fun _ _ => ?_
    apply FetchesAt.after fun _ _ => ?_
    apply FetchesAt.after fun _ _ => ?_
    apply FetchesAt.after fun _ _ => ?_
    rw [if_neg admitted]
    exact FetchesAt.before (packet location _)
  rw [FetchesAt, attempt, ensures_bind, ensures_get]
  exact FetchesAt.before (tried _)

end HalfBits

/-! ## A capture whose sample numbers wrap -/

/-- A first attempt after so many samples, with silence behind the sync bits. -/
noncomputable def silentAttempt (total : ℕ) : State plainHost :=
  let initial := State.initial plainHost
  { initial with
    reader := { initial.reader with
      file := { rest := List.replicate 80000 127, eof := false }
      totalSamplesIn := total
      writeToCache := false }
    prelude := { initial.prelude with syncBitsEnd := u32 total } }

theorem silentAttempt_first (total : ℕ) : FirstAttempt (silentAttempt total) := by
  refine ⟨⟨rfl, rfl⟩, rfl, ?_⟩
  have length := process_length (silentAttempt total).reader.device
    (silentAttempt total).reader.file.rest
  have bytes : (silentAttempt total).reader.file.rest.length = 80000 := List.length_replicate
  rw [Reader.upcoming, length, bytes]

/-- A first attempt at the start of the sample numbers. -/
theorem firstAttempt_aligned_silent :
    (attempt 400 : Decode plainHost _).Attains (silentAttempt 0) fun _ later trace =>
      later.reader.cacheCount < cacheSize ∧
        WindowsAligned (silentAttempt 0).reader.capture 400
          (silentAttempt 0).reader.cacheCount trace :=
  firstAttempt_aligned (silentAttempt 0) 400 (silentAttempt_first 0) (by decide)
    (show 0 + 40000 ≤ 2 ^ 32 by decide)

/-- Behind sample number 2³² the windows of a first attempt are not aligned. -/
theorem firstAttempt_wraps :
    ¬ ∀ (F : Type) [Arithmetic F] (host : Host F) (state : State host) (estimate : ℕ),
      FirstAttempt state → Admitted estimate →
        (attempt estimate : Decode host _).Attains state fun _ later trace =>
          later.reader.cacheCount < cacheSize ∧
            WindowsAligned state.reader.capture estimate state.reader.cacheCount trace := by
  intro always
  obtain ⟨result, later, trace, evaluates, _, aligned⟩ :=
    always ℝ plainHost (silentAttempt (2 ^ 32))
    400 (silentAttempt_first _) (by decide)
  have possible : Admitted 400 := by decide
  obtain ⟨⟨requested, location, state⟩, member, first⟩ :=
    attempt_fetches possible _ _ _ _ evaluates
  obtain ⟨numSamples, _, long, _, _, _, _, buffer, _, holds, _⟩ := aligned.windows _ member
  have ended : location = 0 := first
  have outside : (silentAttempt (2 ^ 32)).reader.capture.sample (location + 1 + 0) = none := by
    rw [ended]
    exact if_neg (show ¬ 2 ^ 32 < 0 + 1 + 0 by decide)
  have sample := holds.samples 0 (by omega)
  rw [outside, List.getElem?_eq_none_iff, Buffer.samples, List.length_append, holds.read] at sample
  omega

end FcTpms.Decoder

import FcTpms.Decoder.Invariants
import FcTpms.Decoder.Steps
import FcTpms.Verif.Success

/-!
# Modes of the sample reader

While `get_packet` runs, the sample reader is idle until a prelude has been measured; an attempt
makes it ready to record or to replay; deciding a half-bit fetches samples, turns to the cache and
rewinds it. `Modes` states what a family of invariants, one for each mode, has to satisfy;
`Modes.getPacket_keeps` concludes that a whole run of `get_packet` respects them.
-/

namespace FcTpms.Decoder

open Program Program.Prog

variable {F : Type} [Arithmetic F] {host : Host F}

/-! ## Where a half-bit ends -/

omit [Arithmetic F] in
/-- The number of samples of a half-bit is recovered from its limits, wherever they wrap. -/
theorem int32_span {bitStart numSamples : ℕ} (few : numSamples ≤ 2 ^ 16) :
    int32 ((u32 ((bitStart : ℤ) + numSamples - 1) : ℤ) - bitStart + 1) = numSamples := by
  unfold int32 u32
  rw [Int.bmod_def]
  omega

/-- The scan for the end of a half-bit finds nothing or an index inside the buffer, past the first
sample. -/
theorem scanFrom_bounds (nonOrigFreq prevPhi : F) (i : ℤ) (samples : List (Cplx F)) :
    scanFrom nonOrigFreq prevPhi i samples = -1 ∨
      (i ≤ scanFrom nonOrigFreq prevPhi i samples ∧
        scanFrom nonOrigFreq prevPhi i samples < i + samples.length) := by
  induction samples generalizing prevPhi i with
  | nil => exact Or.inl rfl
  | cons x rest ih =>
    rw [scanFrom]
    split
    · rw [List.length_cons]
      omega
    · have later := ih (Arithmetic.cargf x) (i + 1)
      rw [List.length_cons]
      omega

/-- The transition found by `scan_samples_for_eob_transition` lies in the buffer. -/
theorem scanSamples_bounds (highFreq lowFreq : F) (samples : List (Cplx F)) (numSamples : ℤ) :
    scanSamplesForEobTransition highFreq lowFreq samples numSamples = -1 ∨
      (1 ≤ scanSamplesForEobTransition highFreq lowFreq samples numSamples ∧
        threeQuarters numSamples ≤
          scanSamplesForEobTransition highFreq lowFreq samples numSamples ∧
        scanSamplesForEobTransition highFreq lowFreq samples numSamples < numSamples) := by
  unfold scanSamplesForEobTransition
  dsimp only
  split
  · exact Or.inl rfl
  · rename_i last found
    rcases scanFrom_bounds _ (Arithmetic.cargf last) (max 1 (threeQuarters numSamples))
      ((samples.take numSamples.toNat).drop (max 1 (threeQuarters numSamples)).toNat) with
      none | inside
    · exact Or.inl none
    · rw [List.length_drop, List.length_take] at inside
      omega

/-- The lengths that a half-bit of `numSamples` can be found to have, not counting its last sample:
at least three quarters of its window and at most a tenth more than estimated. -/
structure HalfBitLength (numSamples length : ℕ) : Prop where
  /-- Transitions are looked for in the last quarter of the window. -/
  long : threeQuarters (withMargin numSamples) ≤ length + 1
  /-- The window is a tenth longer than the half-bit. -/
  short : 10 * length ≤ 11 * numSamples

omit [Arithmetic F] in
/-- A half-bit ends as its length says, wherever the sample numbers wrap. -/
theorem bitEndAt_span (bitStart : ℕ) {numSamples : ℕ} {transitionPoint : ℤ} (some : 0 < numSamples)
    (inside : transitionPoint = -1 ∨
      (1 ≤ transitionPoint ∧ threeQuarters (withMargin numSamples) ≤ transitionPoint ∧
        transitionPoint < withMargin numSamples)) :
    ∃ length : ℕ, bitEndAt bitStart (u32 ((bitStart : ℤ) + numSamples - 1)) transitionPoint =
      u32 ((bitStart : ℤ) + length) ∧ HalfBitLength numSamples length := by
  have margin := withMargin_natCast numSamples
  have quarters := threeQuarters_natCast (11 * numSamples / 10)
  rw [← margin] at quarters
  unfold bitEndAt
  by_cases found : transitionPoint = -1
  · refine ⟨numSamples - 1, ?_, by omega, by omega⟩
    rw [if_pos found]
    unfold u32
    omega
  · refine ⟨(transitionPoint - 1).toNat, ?_, by omega, by omega⟩
    rw [if_neg found]
    unfold u32
    omega

omit [Arithmetic F] in
/-- The second half-bit of a symbol starts where the first one ends and has the rest of the
symbol. -/
theorem second_span {symStart length estSamplesPerSym : ℕ} (short : length < estSamplesPerSym) :
    u32 ((symStart : ℤ) + estSamplesPerSym - 1) =
      u32 ((u32 ((symStart : ℤ) + length) : ℤ) + (estSamplesPerSym - length : ℕ) - 1) := by
  unfold u32
  omega

/-- A value stored in an `unsigned int` never grows. -/
theorem u32_le (value : ℕ) : u32 value ≤ value := by
  unfold u32
  omega

/-- Truncation does not pass zero. -/
theorem tdiv_le_of_nonneg {value bound : ℤ} (nonnegative : 0 ≤ bound) (below : value ≤ 10 * bound) :
    value.tdiv 10 ≤ bound := by
  by_cases positive : 0 ≤ value
  · rw [Int.tdiv_eq_ediv_of_nonneg positive]
    omega
  · have mirrored : 0 ≤ (-value).tdiv 10 := Int.tdiv_nonneg (by omega) (by decide)
    rw [Int.neg_tdiv] at mirrored
    omega

/-- Truncation rounds towards zero. -/
theorem tdiv_nonneg_of_neg_ten_lt {value : ℤ} (above : -10 < value) : 0 ≤ value.tdiv 10 := by
  by_cases positive : 0 ≤ value
  · exact Int.tdiv_nonneg positive (by decide)
  · have mirrored : (-value).tdiv 10 = -value / 10 := Int.tdiv_eq_ediv_of_nonneg (by omega)
    rw [Int.neg_tdiv] at mirrored
    omega

/-- Rewinding does not pass the end of the cache. -/
theorem rewound_le {cacheCount : ℤ} (bitStart : ℕ) {numSamples length : ℕ}
    (nonnegative : 0 ≤ cacheCount)
    (short : 10 * length ≤ 11 * numSamples) :
    rewound cacheCount bitStart numSamples (u32 ((bitStart : ℤ) + length)) ≤ cacheCount := by
  have small := u32_le (bitStart + length)
  rw [Nat.cast_add] at small
  exact tdiv_le_of_nonneg nonnegative (by omega)

/-! ## Fetching samples -/

/-- If reading a sample establishes a condition, fetching at least one sample does. -/
theorem getSomeSamples_triple {assume guarantee : Event host → Prop}
    {before after : Reader host → Prop} {numSamples : ℤ} (positive : 0 < numSamples)
    (location : ℕ)
    (sample : Triple assume guarantee (fun state : State host => before state.reader)
      getNextSample fun _ state => after state.reader)
    (again : ∀ reader, after reader → before reader)
    (allocate : ∀ reader allocations, before reader →
      before { reader with allocations := allocations })
    (visit : ∀ state : State host, before state.reader → guarantee (.visit state))
    (enter : ∀ state, guarantee (.enterFetch numSamples location state)) :
    Triple assume guarantee (fun state => before state.reader)
      (getSomeSamples numSamples location) fun buffer state =>
        buffer ≠ none → after state.reader := by
  have keeps : Keeps assume guarantee (fun state : State host => before state.reader)
      getNextSample := sample.weaken (fun _ holds => holds) fun _ _ holds => again _ holds
  refine Triple.get_keep fun start _ => ?_
  refine Triple.bind (emit_keeps (enter start)) fun _ => ?_
  refine Triple.bind (skipTo_keeps keeps location) fun skipped => ?_
  split
  · exact Triple.pure fun _ _ some => absurd rfl some
  · refine Triple.get_keep fun later _ => ?_
    refine Triple.bind (assign_keeps (fun state holds => allocate _ _ holds)
      fun state holds => visit _ (allocate _ _ holds)) fun _ => ?_
    rw [if_neg (by omega)]
    obtain ⟨count, more⟩ : ∃ count, numSamples.toNat = count + 1 :=
      ⟨numSamples.toNat - 1, by omega⟩
    rw [more]
    have others : Keeps assume guarantee (fun state : State host => after state.reader)
        getNextSample := sample.weaken (fun _ holds => again _ holds) fun _ _ holds => holds
    have collected : Triple assume guarantee (fun state : State host => before state.reader)
        (collect (count + 1)) fun _ state => after state.reader := by
      refine Triple.bind sample fun sample => ?_
      cases sample with
      | none => exact Triple.pure fun _ holds => holds
      | some _ =>
                exact Triple.bind (collect_keeps others count) fun _ => pure_keeps _
    exact Triple.bind collected fun _ => Triple.pure fun _ holds _ => holds

/-! ## The modes -/

/-- The events that concern neither states nor indices nor pointers. -/
def Event.Silent : Event host → Prop
  | .visit _ | .cacheIndex _ | .nullDereference => False
  | _ => True

/-- The reader after the first attempt at a prelude started the cache. -/
def Reader.fresh (reader : Reader host) : Reader host :=
  { reader with writeToCache := true, cacheLoc := 0, cacheLocInFile := reader.totalSamplesIn }

/-- Invariants of the sample reader, one for each mode. -/
structure Modes (assume guarantee : Event host → Prop)
    (known idle ready replaying : Reader host → Prop)
    (fetched : ℕ → ℕ → Reader host → Prop) : Prop where
  /-- The guarantee concerns states, indices and pointers only. -/
  silent : ∀ event : Event host, event.Silent → guarantee event
  /-- It holds of every state in which the cache is not replayed, -/
  visitFile : ∀ state : State host, state.reader.readFromCache = false → guarantee (.visit state)
  /-- of every state that is ready -/
  visitReady : ∀ state : State host, ready state.reader → guarantee (.visit state)
  /-- and of every state after samples were fetched. -/
  visitFetched : ∀ bitStart numSamples (state : State host),
    fetched bitStart numSamples state.reader → guarantee (.visit state)
  /-- An idle reader reads the file. -/
  idleFile : ∀ reader, idle reader → reader.readFromCache = false
  /-- A replaying reader replays. -/
  replayingCache : ∀ reader, replaying reader → reader.readFromCache = true
  /-- What is known holds of an idle reader -/
  idleKnown : ∀ reader, idle reader → known reader
  /-- and of a replaying one. -/
  replayingKnown : ∀ reader, replaying reader → known reader
  /-- A replaying reader is ready. -/
  replayingReady : ∀ reader, replaying reader → ready reader
  /-- A round of the search makes the reader idle. -/
  clear : ∀ reader, known reader →
    idle { reader with readFromCache := false, writeToCache := false }
  /-- An idle reader stays idle while it reads -/
  sample : Keeps assume guarantee (fun state => idle state.reader)
    (getNextSample : Decode host (Option (Cplx F)))
  /-- and while a prelude is measured. -/
  valid : Keeps assume guarantee (fun state => idle state.reader)
    (isValidPrelude : Decode host Bool)
  /-- The first attempt at a prelude makes the reader ready, -/
  start : ∀ (state : State host) estimate, idle state.reader →
    assume (.enterAttempt estimate state) → Admitted estimate → ready state.reader.fresh
  /-- or, if it is rejected at once, leaves a reader that can be replayed. -/
  refuse : ∀ (state : State host) estimate, idle state.reader →
    assume (.enterAttempt estimate state) → ¬ Admitted estimate →
    replaying { state.reader.fresh with readFromCache := true }
  /-- A later attempt does not record -/
  unrecorded : ∀ reader, replaying reader → replaying { reader with writeToCache := false }
  /-- and replays from the start of the cache. -/
  restart : ∀ reader, replaying reader → replaying { reader with cacheLoc := 0 }
  /-- Samples are fetched for a half-bit, -/
  fetch : ∀ bitStart numSamples : ℕ, 0 < numSamples → numSamples ≤ 2 ^ 16 →
    Triple assume guarantee (fun state => ready state.reader)
      (getSomeSamples (withMargin numSamples) bitStart) fun buffer state =>
        (buffer = none → guarantee .nullDereference) ∧
          (buffer ≠ none → fetched bitStart numSamples state.reader)
  /-- either recorded or replayed; -/
  recorded : ∀ bitStart numSamples reader, fetched bitStart numSamples reader →
    reader.writeToCache = false → reader.readFromCache = true
  /-- then the reader turns to the cache -/
  turn : ∀ bitStart numSamples reader writeToCache, fetched bitStart numSamples reader →
    fetched bitStart numSamples { reader with readFromCache := true, writeToCache := writeToCache }
  /-- and rewinds it to the end of the half-bit. -/
  rewind : ∀ bitStart numSamples length reader, fetched bitStart numSamples reader →
    reader.readFromCache = true → HalfBitLength numSamples length →
    replaying { reader with
      cacheLoc := rewound reader.cacheCount bitStart numSamples (u32 ((bitStart : ℤ) + length)) }

/-- A reader from which the cache can be replayed. -/
def CanReplay (replaying : Reader host → Prop) (reader : Reader host) : Prop :=
  replaying { reader with readFromCache := true }

omit [Arithmetic F] in
/-- A replaying reader can be replayed. -/
theorem canReplay_of_replaying {replaying : Reader host → Prop} {reader : Reader host}
    (kept : replaying reader) (cached : reader.readFromCache = true) :
    CanReplay replaying reader := by
  have same : ({ reader with readFromCache := true } : Reader host) = reader := by
    rw [← cached]
  rw [CanReplay, same]
  exact kept

namespace Modes

variable {assume guarantee : Event host → Prop} {known idle ready replaying : Reader host → Prop}
  {fetched : ℕ → ℕ → Reader host → Prop}
  (modes : Modes assume guarantee known idle ready replaying fetched)

include modes

/-- Deciding a half-bit leaves the reader replaying. -/
theorem getBit_triple (bitStart numSamples : ℕ) (some : 0 < numSamples)
    (few : numSamples ≤ 2 ^ 16) :
    Triple assume guarantee (fun state => ready state.reader)
      (getBit bitStart (u32 ((bitStart : ℤ) + numSamples - 1))) fun _ state =>
        replaying state.reader ∧ ∃ length : ℕ,
          state.packet.actualBitEnd = u32 ((bitStart : ℤ) + length) ∧
            HalfBitLength numSamples length := by
  rw [getBit]
  dsimp only
  rw [int32_span few]
  refine Triple.bind (modes.fetch bitStart numSamples some few) fun buffer => ?_
  cases buffer with
  | none =>
    refine Triple.intro fun start null => ?_
    exact nullDereference_triple (null.1 rfl)
  | some buffer =>
    refine Triple.intro fun start both => Attains.triple ?_
    have obtained := both.2 (Option.some_ne_none buffer)
    have inside := scanSamples_bounds start.prelude.highFreq start.prelude.lowFreq buffer.samples
      (withMargin numSamples)
    simp only [attains_bind, attains_get, attains_emit, attains_assignPacket, turnToCache,
      rewindCache]
    generalize scanSamplesForEobTransition start.prelude.highFreq start.prelude.lowFreq
      buffer.samples (withMargin numSamples) = transitionPoint at inside ⊢
    obtain ⟨length, ends, spans⟩ := bitEndAt_span bitStart some inside
    rw [ends]
    have silent := modes.silent (.halfBit buffer.first buffer.recorded.length
      (elementsUsed (withMargin numSamples) transitionPoint)) True.intro
    have turned := modes.turn _ _ _ false obtained
    have rewound := modes.rewind _ _ length _ turned rfl spans
    have final (state : State host) (same : replaying state.reader) :=
      modes.visitReady state (modes.replayingReady _ same)
    by_cases storing : start.reader.writeToCache = true
    · have turning := modes.turn _ _ _ true obtained
      simp only [storing, if_true, attains_bind, attains_assignReader, Bool.not_true,
        attains_pure, List.forall_mem_append, List.forall_mem_cons, List.not_mem_nil,
        false_implies, implies_true, and_true, true_and]
      exact ⟨⟨silent, modes.visitFetched _ _ _ obtained, ⟨modes.visitFetched _ _ _ turning,
        modes.visitFetched _ _ _ turned⟩, final _ rewound, final _ rewound⟩, rewound, length, rfl,
        spans⟩
    · have replays := modes.recorded _ _ _ obtained (eq_false_of_ne_true storing)
      simp only [storing, replays, if_true, if_false, Bool.false_eq_true, attains_assignReader,
        attains_pure, List.forall_mem_append, List.forall_mem_cons, List.not_mem_nil,
        false_implies, implies_true, and_true, true_and]
      exact ⟨⟨silent, modes.visitFetched _ _ _ obtained, final _ rewound, final _ rewound⟩, rewound,
        length, rfl, spans⟩

/-- A condition on the sample reader is not touched by recording symbols. -/
theorem packetFree (holds : Reader host → Prop)
    (visit : ∀ state : State host, holds state.reader → guarantee (.visit state)) :
    PacketFree guarantee fun state => holds state.reader :=
  ⟨fun _ _ kept => kept, visit, fun _ _ => modes.silent _ True.intro⟩

theorem replaying_packetFree : PacketFree guarantee fun state => replaying state.reader :=
  modes.packetFree replaying fun state same =>
    modes.visitReady state (modes.replayingReady _ same)

/-- Assigning the flag keeps the reader replaying. -/
theorem setValidPkt_keeps (value : Bool) :
    Keeps assume guarantee (fun state => replaying state.reader)
      (setValidPkt value : Decode host Unit) :=
  assign_keeps (fun _ kept => kept) fun state kept => modes.replaying_packetFree.visit
    { state with validPkt := value } kept

/-- The second symbol leaves the reader replaying. -/
theorem getSecondSymbol_triple (symStart estSamplesPerSym : ℕ)
    (admitted : Admitted estSamplesPerSym) :
    Triple assume guarantee (fun state => ready state.reader)
      (getSecondSymbol symStart estSamplesPerSym) fun _ state => replaying state.reader := by
  have few : estSamplesPerSym / 2 ≤ 2 ^ 16 ∧ 0 < estSamplesPerSym / 2 := by
    unfold Admitted minSamplesPerSymbol maxSamplesPerSymbol at admitted
    omega
  refine Triple.bind ((modes.packetFree ready modes.visitReady).assignPacket_keeps _) fun _ => ?_
  refine Triple.bind ((modes.getBit_triple _ _ few.2 few.1).weaken (fun _ kept => kept)
    fun _ _ both => both.1) fun secondBit => ?_
  refine Triple.get_keep fun _ _ => ?_
  split
  · dsimp only
    split
    · exact modes.replaying_packetFree.recordSecondSymbol_keeps _ _
    · exact Triple.bind (modes.setValidPkt_keeps false) fun _ => pure_keeps _
  · exact modes.replaying_packetFree.recordSecondSymbol_keeps _ _

/-- A symbol leaves the reader replaying. -/
theorem getSymbol_triple (symStart estSamplesPerSym : ℕ) (admitted : Admitted estSamplesPerSym) :
    Triple assume guarantee (fun state => ready state.reader)
      (getSymbol symStart estSamplesPerSym) fun _ state => replaying state.reader := by
  have few :
      estSamplesPerSym / 2 ≤ 2 ^ 16 ∧ 0 < estSamplesPerSym / 2 ∧ estSamplesPerSym ≤ 2 ^ 16 := by
    unfold Admitted minSamplesPerSymbol maxSamplesPerSymbol at admitted
    omega
  refine Triple.bind (modes.getBit_triple _ _ few.2.1 few.1) fun firstBit => ?_
  refine Triple.get_bind fun first decided => ?_
  obtain ⟨length, ends, spans⟩ := decided.2
  have short := spans.short
  have rest : length < estSamplesPerSym := by omega
  rw [ends, second_span rest]
  have second := modes.getBit_triple (u32 ((symStart : ℤ) + length)) (estSamplesPerSym - length)
    (by omega) (by omega)
  refine Triple.bind (second.weaken (fun state same => ?_) fun _ _ both => both.1)
    fun secondBit => ?_
  · rw [same]
    exact modes.replayingReady _ decided.1
  refine Triple.get_keep fun _ _ => ?_
  split
  · exact Triple.bind (modes.setValidPkt_keeps false) fun _ => pure_keeps _
  · exact modes.replaying_packetFree.recordSymbol_keeps _ _

/-- The loop over the symbols keeps the reader replaying. -/
theorem collectSymbols_keeps (estSamplesPerSym count : ℕ) (packetSyms : List ℤ)
    (admitted : Admitted estSamplesPerSym) :
    Keeps assume guarantee (fun state => replaying state.reader)
      (collectSymbols estSamplesPerSym count packetSyms : Decode host (Option (List ℤ))) := by
  induction count generalizing packetSyms with
  | zero => exact pure_keeps _
  | succ count ih =>
    refine Triple.get_keep fun _ _ => ?_
    refine Triple.bind ((modes.getSymbol_triple _ _ admitted).weaken
      (fun _ kept => modes.replayingReady _ kept) fun _ _ kept => kept) fun _ => ?_
    refine Triple.get_keep fun _ _ => ?_
    split
    · exact pure_keeps _
    · exact ih _

/-- Collecting the symbols leaves the reader replaying. -/
theorem getPacketSymbols_triple (pktStart numSyms estSamplesPerSym : ℕ)
    (admitted : Admitted estSamplesPerSym) :
    Triple assume guarantee (fun state => ready state.reader)
      (getPacketSymbols pktStart numSyms estSamplesPerSym) fun _ state =>
        replaying state.reader := by
  have free := modes.packetFree ready modes.visitReady
  refine Triple.bind (free.strcpyFrom_keeps _ _ _) fun _ => ?_
  refine Triple.bind (free.strcpyFrom_keeps _ _ _) fun _ => ?_
  refine Triple.bind (modes.getSecondSymbol_triple _ _ admitted) fun _ => ?_
  refine Triple.get_keep fun _ _ => ?_
  split
  · exact pure_keeps _
  · refine Triple.bind (modes.collectSymbols_keeps _ _ _ admitted) fun result => ?_
    cases result with
    | none => exact pure_keeps _
    | some packetSyms =>
      refine Triple.bind (modes.setValidPkt_keeps _) fun _ => ?_
      refine Triple.get_keep fun _ _ => ?_
      split
      · exact pure_keeps _
      · exact pure_keeps _

/-! ## Attempts -/

/-- The part of an attempt after the cache was started. -/
theorem restOfAttempt_triple {pre : Reader host → Prop} (pktStart estSamplesPerSym : ℕ)
    (visit : ∀ state : State host, pre state.reader → guarantee (.visit state))
    (prepared : ∀ reader, pre reader → Admitted estSamplesPerSym → ready reader) :
    Triple assume guarantee (fun state => pre state.reader)
      (do
        setValidPkt true
        if estSamplesPerSym > maxSamplesPerSymbol ∨ estSamplesPerSym < minSamplesPerSymbol then
          return none
        match ← getPacketSymbols pktStart symbolsPerMsg estSamplesPerSym with
        | none => return none
        | some pktSymbols =>
          if (← Prog.get).validPkt then return some pktSymbols
          return none : Decode host (Option (List ℤ)))
      fun result state => (Admitted estSamplesPerSym → replaying state.reader) ∧
        (¬ Admitted estSamplesPerSym → result = none ∧ pre state.reader) := by
  refine Triple.bind (assign_keeps (fun _ kept => kept)
    fun state kept => visit { state with validPkt := true } kept) fun _ => ?_
  by_cases admitted : Admitted estSamplesPerSym
  · rw [if_neg (by unfold Admitted at admitted; omega)]
    refine Triple.bind ((modes.getPacketSymbols_triple _ _ _ admitted).weaken
      (fun state kept => prepared _ kept admitted) fun _ _ kept => kept) fun result => ?_
    cases result with
    | none => exact Triple.pure fun state kept => ⟨fun _ => kept, absurd admitted⟩
    | some packetSyms =>
      refine Triple.get_keep fun state _ => ?_
      split
      · exact Triple.pure fun state kept => ⟨fun _ => kept, absurd admitted⟩
      · exact Triple.pure fun state kept => ⟨fun _ => kept, absurd admitted⟩
  · rw [if_pos (by unfold Admitted at admitted; omega)]
    exact Triple.pure fun state kept => ⟨fun yes => absurd yes admitted, fun _ => ⟨rfl, kept⟩⟩

omit modes in
/-- What an attempt leaves behind, its caller leaves behind. -/
theorem attempt_of_try {estimate : ℕ} {pre : State host → Prop} {failed : Reader host → Prop}
    (tries : ∀ pktStart, Triple assume guarantee pre
      (tryToGetPacketSymbols pktStart symbolsPerMsg estimate) fun result state =>
        failed state.reader ∧ (result ≠ none → replaying state.reader)) :
    Triple assume guarantee pre (attempt estimate) fun result state =>
      failed state.reader ∧ (result ≠ none → replaying state.reader) := by
  refine Triple.get_keep fun start _ => Triple.bind (tries _) fun result => ?_
  cases result with
  | none => exact Triple.pure fun _ both => ⟨both.1, fun none => absurd rfl none⟩
  | some packetSyms =>
    refine Triple.get_keep fun _ _ => ?_
    split
    · exact Triple.pure fun _ both => ⟨both.1, fun _ => both.2 (Option.some_ne_none _)⟩
    · exact Triple.pure fun _ both => ⟨both.1, fun none => absurd rfl none⟩

/-- The first attempt at a prelude, made by an idle reader, leaves one that can be replayed. -/
theorem firstAttempt_triple (estimate : ℕ) :
    Triple assume guarantee (fun state : State host => idle state.reader) (attempt estimate)
      fun result state => CanReplay replaying state.reader ∧
        (result ≠ none → replaying state.reader) := by
  refine attempt_of_try fun pktStart => Triple.get_bind fun entered reading => ?_
  have file := modes.idleFile _ reading
  let pre : Reader host → Prop := fun reader => reader.readFromCache = false ∧
    (Admitted estimate → ready reader) ∧ (¬ Admitted estimate → CanReplay replaying reader)
  refine Triple.through (fun _ state => state = entered ∧ pre entered.reader.fresh) ?_ fun _ => ?_
  · refine Triple.emit.weaken (fun state same assumed => ?_) fun _ _ both => both
    exact ⟨modes.silent _ True.intro, same, file,
      fun admitted => modes.start entered estimate reading assumed admitted,
      fun refused => modes.refuse entered estimate reading assumed refused⟩
  refine Triple.through (fun _ state => pre state.reader) ?_ fun _ => ?_
  · refine Triple.intro fun state both => Attains.triple ?_
    rcases both with ⟨rfl, prepared⟩
    rw [Reader.fresh, file] at prepared
    simp only [startCache, attains_bind, attains_assignReader, attains_get, file, Bool.not_false,
      if_true]
    refine ⟨?_, prepared⟩
    simp only [List.forall_mem_append, List.forall_mem_cons, List.not_mem_nil, false_implies,
      implies_true, and_true, true_and]
    exact ⟨modes.visitFile _ rfl, modes.visitFile _ rfl, modes.visitFile _ rfl⟩
  · refine (modes.restOfAttempt_triple _ _ (fun state kept => modes.visitFile _ kept.1)
      fun _ kept => kept.2.1).weaken (fun _ kept => kept) fun result state both => ?_
    by_cases admitted : Admitted estimate
    · have kept := both.1 admitted
      exact ⟨canReplay_of_replaying kept (modes.replayingCache _ kept), fun _ => kept⟩
    · have refused := both.2 admitted
      exact ⟨refused.2.2.2 admitted, fun some => absurd refused.1 some⟩

/-- A later attempt keeps the reader replaying. -/
theorem laterAttempt_triple (estimate : ℕ) :
    Triple assume guarantee (fun state : State host => replaying state.reader) (attempt estimate)
      fun result state => replaying state.reader ∧
        (result ≠ none → replaying state.reader) := by
  have free := modes.replaying_packetFree
  refine attempt_of_try fun pktStart => Triple.get_keep fun _ _ => ?_
  refine Triple.bind (emit_keeps (modes.silent _ True.intro)) fun _ => ?_
  refine Triple.through (fun _ state => replaying state.reader) ?_ fun _ => ?_
  · refine Triple.intro fun state kept => Attains.triple ?_
    have cached := modes.replayingCache _ kept
    have unrecorded := modes.unrecorded _ kept
    have restarted := modes.restart _ unrecorded
    rw [cached] at unrecorded restarted
    simp only [startCache, attains_bind, attains_assignReader, attains_get, cached, Bool.not_true,
      Bool.false_eq_true, if_false, attains_pure]
    refine ⟨?_, restarted⟩
    simp only [List.forall_mem_append, List.forall_mem_cons, List.not_mem_nil, false_implies,
      implies_true, and_true]
    exact ⟨free.visit _ unrecorded, free.visit _ restarted⟩
  · refine (modes.restOfAttempt_triple _ _ free.visit
      fun reader kept _ => modes.replayingReady reader kept).weaken (fun _ kept => kept)
        fun result state both => ?_
    have kept : replaying state.reader := by
      by_cases admitted : Admitted estimate
      · exact both.1 admitted
      · exact (both.2 admitted).2
    exact ⟨kept, fun _ => kept⟩

/-- The retry loops keep the reader replaying. -/
theorem retry_keeps (continues : ℕ → Bool) (next : ℕ → ℕ) (estimate : ℕ) :
    Keeps assume guarantee (fun state => replaying state.reader)
      (retry continues next estimate : Decode host (Option (List ℤ))) := by
  refine Triple.loop (fun _ (state : State host) => replaying state.reader) (fun estimate => ?_)
    estimate
  split
  · exact Triple.pure fun _ kept => kept
  · refine Triple.bind (modes.laterAttempt_triple estimate) fun result => ?_
    cases result with
    | none => exact Triple.pure fun _ both => both.1
    | some packetSyms => exact Triple.pure fun _ both => both.1

/-- The attempts at one prelude leave the reader replaying. -/
theorem tryEstimates_triple (origSamplesPerSym : ℕ) :
    Triple assume guarantee (fun state : State host => idle state.reader)
      (tryEstimates origSamplesPerSym) fun _ state => replaying state.reader := by
  have free := modes.replaying_packetFree
  refine Triple.bind (modes.firstAttempt_triple _) fun result => ?_
  cases result with
  | some packetSyms => exact Triple.pure fun _ both => both.2 (Option.some_ne_none _)
  | none =>
    refine Triple.through (fun _ state => replaying state.reader) ?_ fun _ => ?_
    · exact Triple.update.weaken (fun state both _ => ⟨free.visit _ both.1, both.1⟩)
        fun _ _ kept => kept
    refine Triple.bind (modes.retry_keeps _ _ _) fun result => ?_
    cases result with
    | some packetSyms => exact pure_keeps _
    | none => exact modes.retry_keeps _ _ _

/-- One round of the search keeps what is known of the reader. -/
theorem searchPrelude_keeps :
    Keeps assume guarantee (fun state => known state.reader)
      (searchPrelude : Decode host (Unit ⊕ Option (List ℤ))) := by
  refine Triple.through (fun _ state => state.reader.readFromCache = false ∧
    idle { state.reader with readFromCache := false, writeToCache := false }) ?_ fun _ => ?_
  · exact Triple.update.weaken (fun state kept _ =>
      ⟨modes.visitFile _ rfl, rfl, modes.clear state.reader kept⟩) fun _ _ both => both
  refine Triple.through (fun _ state => idle state.reader) ?_ fun _ => ?_
  · refine Triple.update.weaken (fun state both _ => ?_) fun _ _ kept => kept
    simp only [both.1]
    exact ⟨modes.visitFile _ rfl, both.2⟩
  refine Triple.bind (findPreludeStart_keeps modes.sample) fun _ => ?_
  refine Triple.get_keep fun _ _ => ?_
  split
  · exact Triple.pure fun _ kept => modes.idleKnown _ kept
  · refine Triple.bind modes.valid fun valid => ?_
    split
    · refine Triple.get_keep fun _ _ => ?_
      refine Triple.bind (modes.tryEstimates_triple _) fun result => ?_
      cases result with
      | none => exact Triple.pure fun _ kept => modes.replayingKnown _ kept
      | some packetSyms => exact Triple.pure fun _ kept => modes.replayingKnown _ kept
    · exact Triple.pure fun _ kept => modes.idleKnown _ kept

/-- A run of `get_packet` respects the modes: what is known of the reader at its start is known at
its end, and the guarantee holds of all its events. -/
theorem getPacket_keeps :
    Keeps assume guarantee (fun state => known state.reader)
      (getPacket : Decode host (Option (List ℤ))) := by
  refine Triple.loop (fun _ (state : State host) => known state.reader) (fun _ => ?_) ()
  exact modes.searchPrelude_keeps.weaken (fun _ kept => kept) fun answer _ kept => by
    cases answer with
    | inl _ => exact kept
    | inr _ => exact kept

end Modes

end FcTpms.Decoder

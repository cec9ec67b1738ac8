import Mathlib.Algebra.Order.Group.Nat
import FcTpms.Decoder.Exact
import FcTpms.Verif.Acceptance
import FcTpms.Verif.Reading

/-!
# Termination

Every loop that reads samples ends because each of its rounds uses up a sample that is left: one
of the file or, while the cache is replayed, one of the cache (`Reader.left`). The retry loops
count towards a bound. A round of the outer loop that does not end the search has used up at least
one sample of the file.
-/

namespace FcTpms.Decoder

open Program Program.Prog

variable {F : Type} [Arithmetic F] {host : Host F}

/-! ## Reading uses up samples -/

/-- The number of samples that can be read before the file ends. -/
def Reader.left (reader : Reader host) : ℕ :=
  reader.upcoming.length +
    if reader.readFromCache then (reader.cacheCount - reader.cacheLoc).toNat else 0

/-- A sample that was read is no longer left. -/
theorem left_next {reader : Reader host} {sample : Cplx F} (read : reader.next.1 = some sample) :
    reader.next.2.left < reader.left := by
  by_cases replays : reader.Replays
  · have cached := replays.1
    have before := replays.2
    have same : reader.replayed.upcoming = reader.upcoming := rfl
    rw [Reader.next, if_pos replays, Reader.left, Reader.left, same, if_pos cached,
      if_pos (show reader.replayed.readFromCache = true from cached)]
    simp only [Reader.replayed]
    omega
  · rw [Reader.next, if_neg replays] at read ⊢
    have holds := upcoming_of_nextOfFile read
    rw [upcoming_leftCache] at holds
    have used : reader.upcoming.tail.length < reader.upcoming.length := by
      have positive := List.length_pos_of_ne_nil holds
      rw [List.length_tail]
      omega
    simp only [Reader.left, upcoming_nextOfFile, upcoming_leftCache, readFromCache_nextOfFile,
      readFromCache_leftCache, Bool.false_eq_true, if_false]
    omega

variable (host) in
theorem getNextSample_halts : (getNextSample : Decode host (Option (Cplx F))).AlwaysHalts :=
  fun start => (getNextSample_attains start).halts

/-- Reading a sample, and what it leaves to be read. -/
theorem getNextSample_uses (state : State host) :
    (getNextSample : Decode host (Option (Cplx F))).Ensures state fun result later _ =>
      ∀ sample, result = some sample → later.reader.left < state.reader.left := by
  refine (getNextSample_attains state).ensures.mono ?_
  rintro result later _ ⟨rfl, rfl, _⟩ sample read
  rw [reader_afterNext]
  exact left_next read

/-- A loop that goes on only after reading a sample ends. -/
theorem loop_halts {α β : Type} {body : β → Decode host (β ⊕ α)}
    (halts : ∀ counter, (body counter).AlwaysHalts)
    (uses : ∀ counter state, (body counter).Ensures state fun answer later _ =>
      ∀ next, answer = .inl next → later.reader.left < state.reader.left) (counter : β) :
    (Prog.loop body counter).AlwaysHalts := by
  intro start
  refine Halts.loop (Nat.lt_wfRel.wf) (fun _ state => state.reader.left) (fun _ _ => True)
    (fun counter state _ => halts counter state) ?_ True.intro
  intro counter state next later trace _ evaluates
  exact ⟨True.intro, uses counter state _ _ _ evaluates next rfl⟩

/-! ## The loops that read samples -/

variable (host) in
theorem findPreludeStart_halts : (findPreludeStart : Decode host ℕ).AlwaysHalts := by
  refine loop_halts (fun _ => ?_) (fun _ state => ?_) ()
  · refine (getNextSample_halts host).bind fun sample => ?_
    cases sample with
    | none => exact AlwaysHalts.pure _
    | some x =>
      refine AlwaysHalts.get.bind fun _ => ?_
      dsimp only
      split
      · exact AlwaysHalts.pure _
      · split
        · exact AlwaysHalts.pure _
        · exact AlwaysHalts.pure _
  · rw [ensures_bind]
    refine (getNextSample_uses state).mono fun sample later _ used => ?_
    cases sample with
    | none => simp
    | some x =>
      have fewer := used x rfl
      simp only [ensures_bind, ensures_get]
      split
      · simp
      · split
        · simp
        · simp [fewer]

theorem measurePhase_halts (store : F → Prelude F → Prelude F) (phaseStart least most : ℕ)
    (inside : F → Prelude F → Bool) (prevPhi : F) :
    (measurePhase store phaseStart least most inside prevPhi :
      Decode host (Option F)).AlwaysHalts := by
  refine loop_halts (fun _ => ?_) (fun _ state => ?_) _
  · refine (getNextSample_halts host).bind fun sample => ?_
    cases sample with
    | none => exact AlwaysHalts.pure _
    | some x =>
      refine AlwaysHalts.get.bind fun _ => ?_
      split
      · exact AlwaysHalts.pure _
      · refine (AlwaysHalts.update _ _).bind fun _ => ?_
        split
        · exact AlwaysHalts.pure _
        · refine AlwaysHalts.get.bind fun _ => ?_
          split
          · exact AlwaysHalts.pure _
          · exact AlwaysHalts.pure _
  · rw [ensures_bind]
    refine (getNextSample_uses state).mono fun sample later _ used => ?_
    cases sample with
    | none => simp
    | some x =>
      have fewer := used x rfl
      simp only [ensures_bind, ensures_get]
      split
      · simp
      · simp only [ensures_bind, ensures_assignPrelude]
        split
        · simp
        · simp only [ensures_bind, ensures_get]
          split
          · simp [fewer]
          · simp

theorem skipSyncBits_halts (prevPhi : F) :
    (skipSyncBits prevPhi : Decode host Bool).AlwaysHalts := by
  refine loop_halts (fun _ => ?_) (fun _ state => ?_) _
  · refine (getNextSample_halts host).bind fun sample => ?_
    cases sample with
    | none => exact AlwaysHalts.pure _
    | some x =>
      refine AlwaysHalts.get.bind fun _ => ?_
      split
      · exact AlwaysHalts.pure _
      · dsimp only
        split
        · exact AlwaysHalts.pure _
        · exact AlwaysHalts.pure _
  · rw [ensures_bind]
    refine (getNextSample_uses state).mono fun sample later _ used => ?_
    cases sample with
    | none => simp
    | some x =>
      have fewer := used x rfl
      simp only [ensures_bind, ensures_get]
      split
      · simp
      · split
        · simp [fewer]
        · simp

theorem skipTo_halts (location : ℕ) : (skipTo location : Decode host Bool).AlwaysHalts := by
  refine loop_halts (fun _ => ?_) (fun _ state => ?_) _
  · refine AlwaysHalts.get.bind fun _ => ?_
    split
    · refine (getNextSample_halts host).bind fun sample => ?_
      cases sample with
      | none => exact AlwaysHalts.pure _
      | some x => exact AlwaysHalts.pure _
    · exact AlwaysHalts.pure _
  · simp only [ensures_bind, ensures_get]
    split
    · rw [ensures_bind]
      refine (getNextSample_uses state).mono fun sample later _ used => ?_
      cases sample with
      | none => simp
      | some x => simp [used x rfl]
    · simp

/-! ## Half-bits, symbols and attempts -/

theorem collect_halts (count : ℕ) : (collect count : Decode host (List (Cplx F))).AlwaysHalts := by
  induction count with
  | zero => exact AlwaysHalts.pure _
  | succ count ih =>
    refine (getNextSample_halts host).bind fun sample => ?_
    cases sample with
    | none => exact AlwaysHalts.pure _
    | some x => exact ih.bind fun _ => AlwaysHalts.pure _

theorem getSomeSamples_halts (numSamples : ℤ) (location : ℕ) :
    (getSomeSamples numSamples location : Decode host (Option (Buffer F))).AlwaysHalts := by
  refine AlwaysHalts.get.bind fun _ => ?_
  refine (AlwaysHalts.emit _).bind fun _ => ?_
  refine (skipTo_halts location).bind fun skipped => ?_
  split
  · exact AlwaysHalts.pure _
  · refine AlwaysHalts.get.bind fun _ => ?_
    refine (AlwaysHalts.update _ _).bind fun _ => ?_
    split
    · exact AlwaysHalts.pure _
    · exact (collect_halts _).bind fun _ => AlwaysHalts.pure _

theorem getBit_halts (bitStart bitEnd : ℕ) :
    (getBit bitStart bitEnd : Decode host ℤ).AlwaysHalts := by
  refine (getSomeSamples_halts _ _).bind fun buffer => ?_
  cases buffer with
  | none => exact (AlwaysHalts.emit _).bind fun _ => AlwaysHalts.crash
  | some buffer =>
    refine AlwaysHalts.get.bind fun _ => ?_
    refine (AlwaysHalts.emit _).bind fun _ => ?_
    refine (AlwaysHalts.update _ _).bind fun _ => ?_
    refine AlwaysHalts.bind ?_ fun _ => ?_
    · refine AlwaysHalts.get.bind fun _ => ?_
      split
      · exact (AlwaysHalts.update _ _).bind fun _ => AlwaysHalts.update _ _
      · exact AlwaysHalts.pure _
    refine AlwaysHalts.bind ?_ fun _ => ?_
    · refine AlwaysHalts.get.bind fun _ => ?_
      split
      · exact AlwaysHalts.update _ _
      · exact AlwaysHalts.pure _
    exact (AlwaysHalts.update _ _).bind fun _ => AlwaysHalts.pure _

omit [Arithmetic F] in
theorem storeChar_halts (array : CharArray) (index : ℕ) (char : Char) :
    (storeChar array index char : Decode host Unit).AlwaysHalts :=
  (AlwaysHalts.emit _).bind fun _ => AlwaysHalts.update _ _

omit [Arithmetic F] in
theorem strcpyFrom_halts (array : CharArray) (index : ℕ) (text : List Char) :
    (strcpyFrom array index text : Decode host Unit).AlwaysHalts := by
  induction text generalizing index with
  | nil => exact storeChar_halts _ _ _
  | cons char rest ih => exact (storeChar_halts _ _ _).bind fun _ => ih _

theorem getSecondSymbol_halts (symStart estSamplesPerSym : ℕ) :
    (getSecondSymbol symStart estSamplesPerSym : Decode host ℤ).AlwaysHalts := by
  have record (firstBit secondBit : ℤ) :
      (recordSecondSymbol firstBit secondBit : Decode host ℤ).AlwaysHalts := by
    refine (storeChar_halts _ _ _).bind fun _ => (storeChar_halts _ _ _).bind fun _ => ?_
    refine AlwaysHalts.get.bind fun _ => ?_
    refine (storeChar_halts _ _ _).bind fun _ => (storeChar_halts _ _ _).bind fun _ => ?_
    exact (AlwaysHalts.update _ _).bind fun _ => AlwaysHalts.pure _
  refine (AlwaysHalts.update _ _).bind fun _ => (getBit_halts _ _).bind fun _ => ?_
  refine AlwaysHalts.get.bind fun _ => ?_
  split
  · dsimp only
    split
    · exact record _ _
    · exact (AlwaysHalts.update _ _).bind fun _ => AlwaysHalts.pure _
  · exact record _ _

theorem getSymbol_halts (symStart estSamplesPerSym : ℕ) :
    (getSymbol symStart estSamplesPerSym : Decode host ℤ).AlwaysHalts := by
  refine (getBit_halts _ _).bind fun _ => AlwaysHalts.get.bind fun _ => ?_
  refine (getBit_halts _ _).bind fun _ => AlwaysHalts.get.bind fun _ => ?_
  split
  · exact (AlwaysHalts.update _ _).bind fun _ => AlwaysHalts.pure _
  · refine AlwaysHalts.get.bind fun _ => (storeChar_halts _ _ _).bind fun _ => ?_
    refine (storeChar_halts _ _ _).bind fun _ => (storeChar_halts _ _ _).bind fun _ => ?_
    refine AlwaysHalts.get.bind fun _ => AlwaysHalts.get.bind fun _ => ?_
    refine (storeChar_halts _ _ _).bind fun _ => (storeChar_halts _ _ _).bind fun _ => ?_
    exact (AlwaysHalts.update _ _).bind fun _ => AlwaysHalts.pure _

theorem collectSymbols_halts (estSamplesPerSym count : ℕ) (packetSyms : List ℤ) :
    (collectSymbols estSamplesPerSym count packetSyms :
      Decode host (Option (List ℤ))).AlwaysHalts := by
  induction count generalizing packetSyms with
  | zero => exact AlwaysHalts.pure _
  | succ count ih =>
    refine AlwaysHalts.get.bind fun _ => (getSymbol_halts _ _).bind fun _ => ?_
    refine AlwaysHalts.get.bind fun _ => ?_
    split
    · exact AlwaysHalts.pure _
    · exact ih _

theorem getPacketSymbols_halts (pktStart numSyms estSamplesPerSym : ℕ) :
    (getPacketSymbols pktStart numSyms estSamplesPerSym :
      Decode host (Option (List ℤ))).AlwaysHalts := by
  refine (strcpyFrom_halts _ _ _).bind fun _ => (strcpyFrom_halts _ _ _).bind fun _ => ?_
  refine (getSecondSymbol_halts _ _).bind fun _ => AlwaysHalts.get.bind fun _ => ?_
  split
  · exact AlwaysHalts.pure _
  · refine (collectSymbols_halts _ _ _).bind fun result => ?_
    cases result with
    | none => exact AlwaysHalts.pure _
    | some packetSyms =>
      refine (AlwaysHalts.update _ _).bind fun _ => AlwaysHalts.get.bind fun _ => ?_
      split
      · exact AlwaysHalts.pure _
      · exact AlwaysHalts.pure _

theorem attempt_halts (estimate : ℕ) :
    (attempt estimate : Decode host (Option (List ℤ))).AlwaysHalts := by
  refine AlwaysHalts.get.bind fun _ => AlwaysHalts.bind ?_ fun result => ?_
  · refine AlwaysHalts.get.bind fun _ => (AlwaysHalts.emit _).bind fun _ => ?_
    refine AlwaysHalts.bind ?_ fun _ => (AlwaysHalts.update _ _).bind fun _ => ?_
    · refine (AlwaysHalts.update _ _).bind fun _ => (AlwaysHalts.update _ _).bind fun _ => ?_
      refine AlwaysHalts.get.bind fun _ => ?_
      split
      · exact AlwaysHalts.update _ _
      · exact AlwaysHalts.pure _
    split
    · exact AlwaysHalts.pure _
    · refine (getPacketSymbols_halts _ _ _).bind fun result => ?_
      cases result with
      | none => exact AlwaysHalts.pure _
      | some packetSyms =>
        refine AlwaysHalts.get.bind fun _ => ?_
        split
        · exact AlwaysHalts.pure _
        · exact AlwaysHalts.pure _
  · cases result with
    | none => exact AlwaysHalts.pure _
    | some packetSyms =>
      refine AlwaysHalts.get.bind fun _ => ?_
      split
      · exact AlwaysHalts.pure _
      · exact AlwaysHalts.pure _

/-! ## The retry loops -/

/-- A retry loop whose estimates approach a bound ends. -/
theorem retry_halts {continues : ℕ → Bool} {next : ℕ → ℕ} (rank : ℕ → ℕ)
    (approaches : ∀ estimate, continues estimate = true → rank (next estimate) < rank estimate)
    (estimate : ℕ) :
    (retry continues next estimate : Decode host (Option (List ℤ))).AlwaysHalts := by
  intro start
  refine Halts.loop (Nat.lt_wfRel.wf) (fun estimate _ => rank estimate) (fun _ _ => True)
    (fun estimate state _ => ?_) ?_ True.intro
  · split
    · exact AlwaysHalts.pure _ state
    · refine AlwaysHalts.bind (attempt_halts estimate) (fun result => ?_) state
      cases result with
      | none => exact AlwaysHalts.pure _
      | some packetSyms => exact AlwaysHalts.pure _
  · intro estimate state following later trace _ evaluates
    refine ⟨True.intro, ?_⟩
    split at evaluates
    · have answer := (evaluates.unique (Evaluates.pure _ _)).1
      cases answer
    · rename_i going
      rw [Bool.not_eq_true, Bool.not_eq_false'] at going
      obtain ⟨result, middle, early, late, _, last, _⟩ := evaluates.of_bind
      cases result with
      | some packetSyms =>
        have answer := ((Evaluates.pure middle _).unique last).1
        cases answer
      | none =>
        have answer := ((Evaluates.pure middle _).unique last).1
        cases answer
        exact approaches estimate going

/-- The estimates below the first one come down to the lower tolerance. -/
theorem shorter_approaches (origSamplesPerSym estimate : ℕ)
    (continues : aboveShortest origSamplesPerSym estimate = true) :
    u32 ((estimate : ℤ) - 1) < estimate := by
  unfold aboveShortest at continues
  have bound := of_decide_eq_true continues
  have limit := u32_lt ((estimate : ℤ) - 1)
  by_cases small : estimate < 2 ^ 32
  · have stored := u32_of_lt (show 0 ≤ (estimate : ℤ) - 1 by omega)
      (show (estimate : ℤ) - 1 < 2 ^ 32 by omega)
    omega
  · omega

/-- The estimates above the first one come up to the upper tolerance. -/
theorem longer_approaches {origSamplesPerSym : ℕ} (small : origSamplesPerSym ≤ 2 ^ 31)
    (estimate : ℕ) (continues : belowLongest origSamplesPerSym estimate = true) :
    2 ^ 32 - u32 (estimate + 1) < 2 ^ 32 - estimate := by
  unfold belowLongest at continues
  have bound := of_decide_eq_true continues
  have stored := u32_of_lt (show 0 ≤ (estimate : ℤ) + 1 by omega)
    (show (estimate : ℤ) + 1 < 2 ^ 32 by omega)
  omega

/-- The attempts at a prelude end. -/
theorem tryEstimates_halts {origSamplesPerSym : ℕ} (small : origSamplesPerSym ≤ 2 ^ 31) :
    (tryEstimates origSamplesPerSym : Decode host (Option (List ℤ))).AlwaysHalts := by
  refine (attempt_halts _).bind fun result => ?_
  cases result with
  | some packetSyms => exact AlwaysHalts.pure _
  | none =>
    refine (AlwaysHalts.update _ _).bind fun _ => ?_
    refine (retry_halts id (shorter_approaches origSamplesPerSym) _).bind fun result => ?_
    cases result with
    | some packetSyms => exact AlwaysHalts.pure _
    | none => exact retry_halts (2 ^ 32 - ·) (longer_approaches small) _

/-! ## The outer loop -/

/-- Counting: samples read and samples of the file that are left have a constant sum. -/
def Counted (sum most : ℕ) (state : State host) : Prop :=
  state.reader.totalSamplesIn + state.reader.upcoming.length = sum ∧
    state.reader.upcoming.length ≤ most

/-- Reading a sample counts it. -/
theorem counted_next {sum most : ℕ} {state : State host} (counted : Counted sum most state) :
    Counted sum most state.afterNext ∧
      state.reader.totalSamplesIn ≤ state.afterNext.reader.totalSamplesIn := by
  unfold Counted at counted ⊢
  rw [reader_afterNext]
  by_cases replays : state.reader.Replays
  · rw [Reader.next, if_pos replays]
    exact ⟨counted, le_refl _⟩
  · have sameTotal : state.reader.leftCache.totalSamplesIn = state.reader.totalSamplesIn := by
      unfold Reader.leftCache
      split <;> rfl
    have total := totalSamplesIn_nextOfFile state.reader.leftCache
    rw [Reader.next, if_neg replays, upcoming_nextOfFile]
    rw [upcoming_leftCache] at total ⊢
    have shorter : state.reader.upcoming.tail.length ≤ state.reader.upcoming.length := by
      rw [List.length_tail]
      omega
    omega

/-- Reading a sample keeps whatever follows from counting. -/
theorem getNextSample_counted {sum most : ℕ} {also : State host → Prop}
    (kept : ∀ state, Counted sum most state → also state → also state.afterNext) :
    Keeps (fun _ => True) (fun _ => True) (fun state => Counted sum most state ∧ also state)
      (getNextSample : Decode host (Option (Cplx F))) := by
  refine Triple.intro fun start holds => ?_
  refine Attains.triple ((getNextSample_attains start).mono ?_)
  rintro _ _ trace ⟨rfl, rfl, _⟩
  exact ⟨fun _ _ => True.intro, (counted_next holds.1).1, kept start holds.1 holds.2⟩

variable (host) in
/-- Counting survives every function of the decoder. -/
theorem counted_attemptFree (sum most : ℕ) :
    AttemptFree (fun _ => True) (fun _ => True) (fun state : State host => Counted sum most state)
      fun _ _ => True := by
  have sampleFree : SampleFree (fun _ => True) (fun _ => True)
      fun state : State host => Counted sum most state :=
    { sample := (getNextSample_counted fun _ _ kept => kept).weaken
        (fun _ counted => ⟨counted, True.intro⟩) fun _ _ both => both.1
      bookkeeping := fun state reader file dsp total counted => by
        have upcoming : reader.upcoming = state.reader.upcoming := by
          rw [Reader.upcoming, Reader.upcoming, Reader.device, Reader.device, file, dsp]
        unfold Counted at counted ⊢
        rw [upcoming, total]
        exact counted
      invalid := fun _ counted => counted
      plain := fun _ _ => True.intro }
  have symbolFree : SymbolFree (fun _ => True) (fun _ => True)
      fun state : State host => Counted sum most state :=
    { sampleFree with
      packet := fun _ _ counted => counted
      store := fun _ _ => True.intro }
  exact { sampleFree with
    valid := fun _ counted => counted
    enter := fun _ _ _ => True.intro
    collects := fun pktStart estSamplesPerSym =>
      (symbolFree.getPacketSymbols_keeps (fun _ counted => counted) pktStart symbolsPerMsg
        estSamplesPerSym).weaken (fun _ counted => counted)
        fun _ _ counted => ⟨counted, fun _ _ => True.intro⟩ }

variable (host) in
/-- Counting survives the measurements. -/
theorem counted_preludeFree (sum most : ℕ) :
    PreludeFree (fun _ => True) (fun _ => True) fun state : State host => Counted sum most state :=
  ⟨(counted_attemptFree host sum most).sample, fun _ _ counted => counted, fun _ _ => True.intro⟩

/-- The measured symbol length is no longer than the file. -/
theorem measurePrelude_counted {sum most : ℕ} (few : most < 2 ^ 31) (prevPhi : F) :
    Triple (fun _ => True) (fun _ => True) (fun state : State host => Counted sum most state)
      (measurePrelude prevPhi) fun valid state => Counted sum most state ∧
        (valid = true → state.prelude.samplesPerSym ≤ 2 ^ 31) := by
  have free := counted_preludeFree host sum most
  refine Triple.get_keep fun _ _ => ?_
  refine Triple.bind (free.measurePhase_keeps _ _ _ _ _ _) fun high => ?_
  cases high with
  | none => exact Triple.pure fun _ counted => ⟨counted, fun none => by cases none⟩
  | some phi =>
    refine Triple.bind (free.assignPrelude_keeps _) fun _ => ?_
    refine Triple.get_keep fun _ _ => ?_
    refine Triple.bind (free.assignPrelude_keeps _) fun _ => ?_
    refine Triple.get_keep fun _ _ => ?_
    refine Triple.bind (free.measurePhase_keeps _ _ _ _ _ _) fun low => ?_
    cases low with
    | none => exact Triple.pure fun _ counted => ⟨counted, fun none => by cases none⟩
    | some phi =>
      refine Triple.bind (free.assignPrelude_keeps _) fun _ => ?_
      refine Triple.get_bind fun started counted => ?_
      split
      · exact Triple.pure fun _ same => ⟨by rw [same]; exact counted, fun none => by cases none⟩
      · -- From here on the number of the first sync sample is remembered.
        have skipping : Keeps (fun _ => True) (fun _ => True)
            (fun state : State host => Counted sum most state ∧
              started.reader.totalSamplesIn ≤ state.reader.totalSamplesIn ∧
                state.prelude.syncBitsStart = u32 started.reader.totalSamplesIn)
            (skipSyncBits phi : Decode host Bool) := by
          refine skipSyncBits_keeps (getNextSample_counted ?_) phi
          intro state here later
          refine ⟨later.1.trans (counted_next here).2, ?_⟩
          rw [← later.2, State.afterNext]
          split <;> rfl
        refine Triple.through (fun _ state => Counted sum most state ∧
          started.reader.totalSamplesIn ≤ state.reader.totalSamplesIn ∧
            state.prelude.syncBitsStart = u32 started.reader.totalSamplesIn) ?_ fun _ => ?_
        · refine Triple.update.weaken (fun state same => ?_) fun _ _ holds => holds
          rw [same]
          exact fun _ => ⟨True.intro, counted, le_refl _, rfl⟩
        · refine Triple.bind skipping fun skipped => ?_
          split
          · exact Triple.pure fun _ holds => ⟨holds.1, fun none => by cases none⟩
          · refine Triple.get_bind fun ended holds => Attains.triple ?_
            have start := holds.2.2
            have length : u32 ((u32 ended.reader.totalSamplesIn : ℤ) -
                u32 started.reader.totalSamplesIn + 1) ≤ 2 ^ 31 := by
              have counted' := holds.1
              unfold Counted at counted counted'
              have later := holds.2.1
              unfold u32
              omega
            simp only [attains_bind, attains_assignPrelude, attains_get, start]
            split
            · simp only [attains_pure]
              exact ⟨fun _ _ => True.intro, holds.1, fun _ => length⟩
            · simp only [attains_pure]
              exact ⟨fun _ _ => True.intro, holds.1, fun _ => length⟩

/-- Measuring a prelude keeps the count and bounds the symbol length. -/
theorem isValidPrelude_counted {sum most : ℕ} (few : most < 2 ^ 31) :
    Triple (fun _ => True) (fun _ => True) (fun state : State host => Counted sum most state)
      isValidPrelude fun valid state => Counted sum most state ∧
        (valid = true → state.prelude.samplesPerSym ≤ 2 ^ 31) := by
  have free := counted_preludeFree host sum most
  refine Triple.get_keep fun _ _ => ?_
  refine Triple.bind (emit_keeps True.intro) fun _ => ?_
  refine Triple.bind (free.assignPrelude_keeps _) fun _ => ?_
  refine Triple.get_keep fun _ _ => ?_
  refine Triple.bind (free.assignPrelude_keeps _) fun _ => ?_
  refine Triple.bind free.sample fun sample => ?_
  cases sample with
  | none => exact nullDereference_triple True.intro
  | some x => exact measurePrelude_counted few _

variable (host) in
theorem isValidPrelude_halts : (isValidPrelude : Decode host Bool).AlwaysHalts := by
  refine AlwaysHalts.get.bind fun _ => (AlwaysHalts.emit _).bind fun _ => ?_
  refine (AlwaysHalts.update _ _).bind fun _ => AlwaysHalts.get.bind fun _ => ?_
  refine (AlwaysHalts.update _ _).bind fun _ => (getNextSample_halts host).bind fun sample => ?_
  cases sample with
  | none => exact (AlwaysHalts.emit _).bind fun _ => AlwaysHalts.crash
  | some x =>
    refine AlwaysHalts.get.bind fun _ => (measurePhase_halts _ _ _ _ _ _).bind fun high => ?_
    cases high with
    | none => exact AlwaysHalts.pure _
    | some phi =>
      refine (AlwaysHalts.update _ _).bind fun _ => AlwaysHalts.get.bind fun _ => ?_
      refine (AlwaysHalts.update _ _).bind fun _ => AlwaysHalts.get.bind fun _ => ?_
      refine (measurePhase_halts _ _ _ _ _ _).bind fun low => ?_
      cases low with
      | none => exact AlwaysHalts.pure _
      | some phi =>
        refine (AlwaysHalts.update _ _).bind fun _ => AlwaysHalts.get.bind fun _ => ?_
        split
        · exact AlwaysHalts.pure _
        · refine (AlwaysHalts.update _ _).bind fun _ => (skipSyncBits_halts _).bind fun _ => ?_
          split
          · exact AlwaysHalts.pure _
          · refine AlwaysHalts.get.bind fun _ => (AlwaysHalts.update _ _).bind fun _ => ?_
            refine (AlwaysHalts.update _ _).bind fun _ => AlwaysHalts.get.bind fun _ => ?_
            split
            · exact AlwaysHalts.pure _
            · exact AlwaysHalts.pure _

/-- When the search for a prelude goes on, a sample of the file was used up. -/
theorem findPreludeStart_uses (state : State host) (idle : state.reader.Idle) :
    (findPreludeStart : Decode host ℕ).Ensures state fun _ later _ =>
      later.reader.upcoming.length ≤ state.reader.upcoming.length ∧
        (later.reader.file.eof = false →
          later.reader.upcoming.length < state.reader.upcoming.length) := by
  refine Ensures.loop (fun _ later _ => later.reader.Idle ∧
    later.reader.upcoming.length ≤ state.reader.upcoming.length) ?_ ⟨idle, le_refl _⟩
  intro _ here before holds
  rw [ensures_bind]
  refine (getNextSample_attains here).ensures.mono ?_
  rintro sample later trace ⟨rfl, rfl, _⟩
  have keeps := holds.1.idleNext
  rw [holds.1.next, holds.1.afterNext]
  cases upcoming : here.reader.upcoming with
  | nil =>
    have ended : here.reader.idleNext = here.reader.ended := if_pos upcoming
    rw [List.head?_nil]
    simp only [ensures_pure, ended, upcoming_ended, List.length_nil]
    exact ⟨Nat.zero_le _, fun more => by cases more⟩
  | cons x rest =>
    have advanced : here.reader.idleNext = here.reader.advanced :=
      if_neg (by rw [upcoming]; exact List.cons_ne_nil _ _)
    rw [advanced] at keeps
    have shorter : here.reader.advanced.upcoming.length < state.reader.upcoming.length := by
      have most := holds.2
      rw [upcoming, List.length_cons] at most
      rw [upcoming_advanced upcoming]
      omega
    rw [List.head?_cons]
    simp only [ensures_bind, ensures_get, advanced]
    split
    · rw [ensures_pure]
      exact ⟨le_of_lt shorter, fun _ => shorter⟩
    · split
      · rw [ensures_pure]
        exact ⟨le_of_lt shorter, fun _ => shorter⟩
      · rw [ensures_pure]
        exact ⟨keeps, le_of_lt shorter⟩

/-- The state in which a round of the outer loop starts to read. -/
def State.searching (state : State host) : State host :=
  { state with reader := { state.reader with readFromCache := false, writeToCache := false } }

omit [Arithmetic F] in
theorem idle_searching (state : State host) : state.searching.reader.Idle := ⟨rfl, rfl⟩

/-- A round of the outer loop ends, if the file is not too long. -/
theorem searchPrelude_halts (state : State host) (few : state.reader.upcoming.length < 2 ^ 31) :
    (searchPrelude : Decode host _).Halts state := by
  refine Halts.bind (AlwaysHalts.update _ _ _) fun _ first _ cleared => ?_
  obtain ⟨rfl, rfl, rfl⟩ := (Evaluates.update _ _ _).unique cleared
  refine Halts.bind (AlwaysHalts.update _ _ _) fun _ second _ cleared => ?_
  obtain ⟨rfl, rfl, rfl⟩ := (Evaluates.update _ _ _).unique cleared
  change Halts _ state.searching
  refine Halts.bind (findPreludeStart_halts host _) fun _ found _ foundRun => ?_
  have used := findPreludeStart_uses _ (idle_searching state) _ _ _ foundRun
  have fewer : found.reader.upcoming.length < 2 ^ 31 := lt_of_le_of_lt used.1 few
  refine Halts.bind (AlwaysHalts.get _) fun _ same _ got => ?_
  obtain ⟨rfl, rfl, rfl⟩ := (Evaluates.get _).unique got
  split
  · exact AlwaysHalts.pure _ _
  · refine Halts.bind (isValidPrelude_halts host _) fun valid measured _ measuredRun => ?_
    split
    · rename_i isValid
      have bound := ((isValidPrelude_counted fewer).ensures ⟨rfl, le_refl _⟩ _ _ _
        measuredRun).2.2 isValid
      refine Halts.bind (AlwaysHalts.get _) fun _ same _ got => ?_
      obtain ⟨rfl, rfl, rfl⟩ := (Evaluates.get _).unique got
      refine (tryEstimates_halts bound).bind (fun result => ?_) _
      cases result with
      | some packetSyms => exact AlwaysHalts.pure _
      | none => exact AlwaysHalts.pure _
    · exact AlwaysHalts.pure _ _

/-- A round of the outer loop that goes on used up a sample of the file. -/
theorem searchPrelude_uses (state : State host) :
    (searchPrelude : Decode host _).Ensures state fun answer later _ =>
      ∀ next, answer = .inl next →
        later.reader.upcoming.length < state.reader.upcoming.length := by
  simp only [searchPrelude, ensures_bind, ensures_get, ensures_assignReader]
  change Ensures _ state.searching _
  refine (findPreludeStart_uses _ (idle_searching state)).mono fun _ found _ used => ?_
  split
  · rw [ensures_pure]
    exact fun _ going => by cases going
  · rename_i more
    have fewer : found.reader.upcoming.length < state.reader.upcoming.length :=
      used.2 (eq_false_of_ne_true more)
    have attempts := counted_attemptFree host
      (found.reader.totalSamplesIn + found.reader.upcoming.length) found.reader.upcoming.length
    have measuring := counted_preludeFree host
      (found.reader.totalSamplesIn + found.reader.upcoming.length) found.reader.upcoming.length
    rw [ensures_bind]
    refine ((measuring.isValidPrelude_keeps (fun _ _ => True.intro) True.intro).ensures
      ⟨rfl, le_refl _⟩).mono fun valid measured _ counted => ?_
    split
    · simp only [ensures_bind, ensures_get]
      refine ((attempts.tryEstimates_keeps _).ensures counted.2).mono fun result later _ ended => ?_
      cases result with
      | some packetSyms =>
        rw [ensures_pure]
        exact fun _ going => by cases going
      | none =>
        rw [ensures_pure]
        exact fun _ _ => lt_of_le_of_lt ended.2.1.2 fewer
    · rw [ensures_pure]
      exact fun _ _ => lt_of_le_of_lt counted.2.2 fewer

/-- Two bytes make a sample. -/
theorem process_length (dsp : Dsp host) (bytes : List UInt8) :
    (dsp.process bytes).length = bytes.length / 2 := by
  induction bytes using List.twoStepInduction generalizing dsp with
  | nil => rfl
  | singleton byte => simp [Dsp.process]
  | cons_cons first second rest ih _ =>
    rw [Dsp.process, List.length_cons, ih]
    simp only [List.length_cons]
    omega

/-- `get_packet` ends on every file with fewer than 2³¹ samples, from every state; each of its loops
ends, and each round of the outer loop that goes on uses up a sample of the file. -/
theorem getPacket_halts (start : State host)
    (finite : start.reader.file.rest.length / 2 < 2 ^ 31) :
    (getPacket : Decode host _).Halts start ∧
      (∀ state, (searchPrelude : Decode host _).Ensures state fun answer later _ =>
        ∀ next, answer = .inl next →
          later.reader.file.rest.length / 2 < state.reader.file.rest.length / 2) ∧
      (findPreludeStart : Decode host ℕ).AlwaysHalts ∧
      (∀ phaseStart prevPhi,
        (measureHighPhase phaseStart prevPhi : Decode host (Option F)).AlwaysHalts ∧
        (measureLowPhase phaseStart prevPhi : Decode host (Option F)).AlwaysHalts ∧
        (skipSyncBits prevPhi : Decode host Bool).AlwaysHalts) ∧
      (∀ location, (skipTo location : Decode host Bool).AlwaysHalts) ∧
      ∀ origSamplesPerSym ≤ 2 ^ 31,
        (retry (aboveShortest origSamplesPerSym) (fun est => u32 ((est : ℤ) - 1))
          (u32 ((origSamplesPerSym : ℤ) - 1)) : Decode host _).AlwaysHalts ∧
        (retry (belowLongest origSamplesPerSym) (fun est => u32 (est + 1))
          (u32 (origSamplesPerSym + 1)) : Decode host _).AlwaysHalts := by
  have count (state : State host) :
      state.reader.upcoming.length = state.reader.file.rest.length / 2 := process_length _ _
  refine ⟨?_, ?_, findPreludeStart_halts host, ?_, skipTo_halts, ?_⟩
  · refine Halts.loop (Nat.lt_wfRel.wf) (fun _ state => state.reader.upcoming.length)
      (fun _ state => state.reader.upcoming.length < 2 ^ 31) (fun _ => searchPrelude_halts)
      ?_ (by rw [count]; exact finite)
    intro _ state next later trace few evaluates
    have fewer := searchPrelude_uses state _ _ _ evaluates next rfl
    exact ⟨lt_trans fewer few, fewer⟩
  · intro state
    refine (searchPrelude_uses state).mono fun answer later _ used next going => ?_
    rw [← count, ← count]
    exact used next going
  · intro phaseStart prevPhi
    exact ⟨measurePhase_halts _ _ _ _ _ _, measurePhase_halts _ _ _ _ _ _, skipSyncBits_halts _⟩
  · intro origSamplesPerSym small
    exact ⟨retry_halts id (shorter_approaches _) _,
      retry_halts (2 ^ 32 - ·) (longer_approaches small) _⟩

end FcTpms.Decoder

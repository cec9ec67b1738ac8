import FcTpms.Program.Sequences
import FcTpms.Verif.Success

/-!
# The last estimate

Where no packet is found at a prelude, the last estimate tried is the largest that the tolerance
allows. It is a possible symbol length if and only if the prelude has measured no more than 488
samples for a symbol. So `get_success` tells the result of every analysis whose last prelude has
measured so few; an analysis without a prelude leaves the flag of the one before it.
-/

namespace FcTpms.Decoder

open Program Program.Prog

variable {F : Type} {host : Host F}

/-- The calls of `try_to_get_packet_symbols`: their estimates, and `samples_per_sym` before. -/
def tries (trace : List (Event host)) : List (ℕ × ℕ) :=
  trace.filterMap fun event =>
    match event with
    | .enterAttempt estimate state => some (estimate, state.prelude.samplesPerSym)
    | _ => none

@[simp] theorem tries_append (trace more : List (Event host)) :
    tries (trace ++ more) = tries trace ++ tries more := List.filterMap_append

@[simp] theorem tries_nil : tries ([] : List (Event host)) = [] := rfl

@[simp] theorem tries_visit (state : State host) (trace : List (Event host)) :
    tries (Event.visit state :: trace) = tries trace := rfl

@[simp] theorem tries_enterAttempt (estimate : ℕ) (state : State host)
    (trace : List (Event host)) :
    tries (Event.enterAttempt estimate state :: trace) =
      (estimate, state.prelude.samplesPerSym) :: tries trace := rfl

/-- Their estimates are the attempts. -/
theorem attempts_eq_tries (trace : List (Event host)) :
    attempts trace = (tries trace).map Prod.fst := by
  rw [attempts, tries, List.map_filterMap]
  apply List.filterMap_congr
  intro event _
  cases event with
  | _ => rfl

theorem tries_of_calm {trace : List (Event host)} (calm : ∀ event ∈ trace, event.Calm) :
    tries trace = [] := by
  have none := attempts_eq_nil calm
  rw [attempts_eq_tries] at none
  exact List.map_eq_nil_iff.mp none

/-- No packet of a prelude can be longer, if the last estimate at it is to be possible. -/
def longestMeasured : ℕ := 488

/-- The last estimate tried is possible if and only if the prelude has measured few samples. -/
def Settled (trace : List (Event host)) : Prop :=
  ∀ last ∈ (tries trace).getLast?, Admitted last.1 ↔ last.2 ≤ longestMeasured

theorem Settled.append {early late : List (Event host)} (former : Settled early)
    (latter : Settled late) : Settled (early ++ late) := by
  unfold Settled at former latter ⊢
  rw [tries_append, List.getLast?_append]
  cases last : (tries late).getLast? with
  | none =>
    rw [Option.none_or]
    exact former
  | some pair =>
    rw [last] at latter
    rw [Option.some_or]
    exact latter

section Attempts

variable [Arithmetic F]

variable (host) in
/-- Collecting symbols does not change what the prelude has measured. -/
theorem measured_symbolFree (measured : ℕ) : SymbolFree (fun _ => True) Event.Calm
    fun state : State host => state.prelude.samplesPerSym = measured := by
  have free : ReaderFree Event.Calm
      fun state : State host => state.prelude.samplesPerSym = measured :=
    { reader := fun _ _ same => same
      invalid := fun _ same => same
      plain := (calm_symbolFree host).plain }
  exact { free.sampleFree with
    packet := fun _ _ same => same
    store := (calm_symbolFree host).store }

/-- One attempt is one call, which comes first. -/
theorem attempt_opens (estimate : ℕ) (state : State host) :
    (attempt estimate : Decode host _).Ensures state fun _ later trace =>
      later.prelude.samplesPerSym = state.prelude.samplesPerSym ∧
        ∃ rest, trace = Event.enterAttempt estimate state :: rest ∧ ∀ event ∈ rest, event.Calm := by
  have free := measured_symbolFree host state.prelude.samplesPerSym
  simp only [attempt, tryToGetPacketSymbols, ensures_bind, ensures_get, ensures_emit]
  refine (free.startCache_keeps.ensures rfl).mono fun _ started early kept => ?_
  have calm (late : List (Event host)) (silent : ∀ event ∈ late, event.Calm) :
      ∀ event ∈ early ++ ([.visit { started with validPkt := true }] ++ late), event.Calm := by
    simp only [List.forall_mem_append, List.forall_mem_cons, List.not_mem_nil, false_implies,
      implies_true, and_true]
    exact ⟨kept.1, True.intro, silent⟩
  simp only [ensures_setValidPkt]
  split
  · simp only [ensures_pure, List.nil_append, List.append_nil]
    exact ⟨kept.2, _, rfl, calm [] (fun event member => absurd member List.not_mem_nil)⟩
  · rw [ensures_bind]
    have collects := free.getPacketSymbols_keeps (fun _ same => same) state.prelude.syncBitsEnd
      symbolsPerMsg estimate
    have measured : ({ started with validPkt := true } : State host).prelude.samplesPerSym =
      state.prelude.samplesPerSym := kept.2
    refine (collects.ensures measured).mono fun result later late collected => ?_
    have quiet := calm late collected.1
    cases result with
    | none =>
      simp only [ensures_pure, List.append_nil, List.nil_append]
      exact ⟨collected.2, _, rfl, quiet⟩
    | some packetSyms =>
      simp only [ensures_bind, ensures_get]
      split
      · simp only [ensures_pure, ensures_bind, ensures_get]
        split
        · simp only [ensures_pure, List.append_nil, List.nil_append]
          exact ⟨collected.2, _, rfl, quiet⟩
        · simp only [ensures_pure, List.append_nil, List.nil_append]
          exact ⟨collected.2, _, rfl, quiet⟩
      · simp only [ensures_pure, List.append_nil, List.nil_append]
        exact ⟨collected.2, _, rfl, quiet⟩

variable (host) in
/-- A process handles its files one after the other. -/
theorem analyzeFiles_eq (files : List SourceFile) :
    (analyzeFiles files : Decode host _) = each analyzeFile files := by
  induction files with
  | nil => rfl
  | cons file rest ih => rw [analyzeFiles, each, ih]

end Attempts

end FcTpms.Decoder

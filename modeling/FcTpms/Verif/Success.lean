import FcTpms.Verif.Acceptance
import FcTpms.Verif.Reading

/-!
# The success flag

`valid_pkt` after an analysis is decided by the last call of `try_to_get_packet_symbols`. Where
its estimate is a possible symbol length, the flag tells whether a packet was found; where it is
not, the flag stays true although nothing was found. An analysis without any such call leaves the
flag of the analysis before it.
-/

namespace FcTpms.Decoder

open Program Program.Prog

variable {F : Type} {host : Host F}

/-- The estimates with which `try_to_get_packet_symbols` was called. -/
def attempts (trace : List (Event host)) : List ℕ :=
  trace.filterMap fun event =>
    match event with
    | .enterAttempt estimate _ => some estimate
    | _ => none

@[simp] theorem attempts_nil : attempts ([] : List (Event host)) = [] := rfl

@[simp] theorem attempts_enterAttempt (estimate : ℕ) (state : State host)
    (trace : List (Event host)) :
    attempts (Event.enterAttempt estimate state :: trace) = estimate :: attempts trace := rfl

/-- An event other than a call of `try_to_get_packet_symbols`. -/
def Event.Calm : Event host → Prop
  | .enterAttempt .. => False
  | _ => True

/-- Without a call there is no estimate. -/
theorem attempts_eq_nil {trace : List (Event host)} (calm : ∀ event ∈ trace, event.Calm) :
    attempts trace = [] := by
  rw [attempts, List.filterMap_eq_nil_iff]
  intro event member
  have here := calm event member
  cases event <;> first | rfl | exact here.elim

/-- An estimate that `try_to_get_packet_symbols` does not reject at once. -/
def Admitted (estimate : ℕ) : Prop :=
  minSamplesPerSymbol ≤ estimate ∧ estimate ≤ maxSamplesPerSymbol

instance (estimate : ℕ) : Decidable (Admitted estimate) := inferInstanceAs (Decidable (_ ∧ _))

/-- How the flag before and after, the finding of a packet and the estimates tried are related. -/
def Agrees (before valid found : Bool) (estimates : List ℕ) : Prop :=
  match estimates.getLast? with
  | none => found = false ∧ valid = before
  | some estimate =>
    if Admitted estimate then valid = found else found = false ∧ valid = true

/-- Nothing tried, nothing found, nothing changed. -/
theorem Agrees.nothing (valid : Bool) : Agrees valid valid false [] := ⟨rfl, rfl⟩

/-- A part that found nothing, followed by another part. -/
theorem Agrees.append {before middle valid found : Bool} {early late : List ℕ}
    (first : Agrees before middle false early) (second : Agrees middle valid found late) :
    Agrees before valid found (early ++ late) := by
  unfold Agrees at second ⊢
  rw [List.getLast?_append]
  cases last : late.getLast? with
  | some estimate =>
    rw [last] at second
    exact second
  | none =>
    rw [last] at second
    rw [Option.none_or, second.1, second.2]
    exact first

/-! ## Parts without a call -/

variable (host) in
/-- Collecting symbols involves no call. -/
theorem calm_symbolFree [Arithmetic F] :
    SymbolFree (fun _ => True) Event.Calm fun _ : State host => True := by
  have free : ReaderFree Event.Calm fun _ : State host => True :=
    { reader := fun _ _ _ => True.intro
      invalid := fun _ _ => True.intro
      plain := fun event plain => by
        cases event <;> first | exact True.intro | exact plain.elim }
  exact { free.sampleFree with
    packet := fun _ _ _ => True.intro
    store := fun _ _ => True.intro }

variable [Arithmetic F]

/-- While a prelude is sought the flag does not change. -/
def Searching (valid : Bool) (state : State host) : Prop :=
  state.reader.Idle ∧ state.validPkt = valid

variable (host) in
/-- Reading for a prelude keeps the flag and involves no call. -/
theorem searching_preludeFree (valid : Bool) :
    PreludeFree (fun _ => True) Event.Calm (Searching valid : State host → Prop) where
  sample := by
    refine Triple.intro fun start searching => ?_
    refine Attains.triple ((getNextSample_attains start).mono ?_)
    rintro _ _ trace ⟨rfl, rfl, reading⟩
    rw [searching.1.afterNext]
    refine ⟨fun event member => ?_, searching.1.idleNext, searching.2⟩
    have here := reading event member
    cases event with
    | enterAttempt => exact here.elim
    | _ => exact True.intro
  prelude _ _ searching := searching
  visit _ _ := True.intro

/-! ## Parts with calls -/

/-- The static variables once `fopen` has opened a file. -/
def State.opened (state : State host) (bytes : List UInt8) : State host :=
  { state with reader := { state.reader with file := { rest := bytes, eof := false } } }

/-- The name under which single files are analysed in the other modules fits. -/
theorem exampleName_fits : "/tmp/a".toList.length < srcNameSize := by decide

end FcTpms.Decoder

import FcTpms.Verif.LiquidPackets

/-!
# What `liquid_analysis.c` publishes was sent

Whatever calls of `update_state` were made, the last ones are those that the state was measured or
collected from. So a packet that is published was the end of a transmission.
-/

namespace FcTpms.Liquid

open Decoder Legacy

/-! ## Calls that a state comes from -/

/-- Calls with the high bits of a period from a sample on. -/
structure HighRun (start : ℕ) (calls : List (Bool × ℕ)) : Prop where
  first : calls.head? = some (true, start)
  bits : ∀ call ∈ calls, call.1 = true

/-- Calls in which a high period was long enough. -/
structure HighHeard (start : ℕ) (calls : List (Bool × ℕ)) : Prop extends HighRun start calls where
  long : ∃ call ∈ calls, inWindow start call.2 = true

/-- Calls with low bits, and high bits that are in the window of the high period. -/
def LowRun (highStart : ℕ) (calls : List (Bool × ℕ)) : Prop :=
  ∀ call ∈ calls, call.1 = true → inWindow highStart call.2 = true

/-- Calls in which a low period was long enough. -/
structure LowHeard (highStart start : ℕ) (calls : List (Bool × ℕ)) : Prop where
  first : (false, start) ∈ calls
  run : LowRun highStart calls
  long : ∃ call ∈ calls, call.1 = false ∧ inWindow start call.2 = true

/-- What was heard before a state: the last calls are those that it was measured or collected
from. -/
inductive Heard (past : List (Bool × ℕ)) (state : State) : Prop
  | waiting (seeks : SeeksHigh unk state)
  | high (before high : List (Bool × ℕ)) (start : ℕ) (seeks : SeeksHigh start state)
      (calls : past = before ++ high) (run : HighRun start high)
  | low (before high low : List (Bool × ℕ)) (highStart lowStart : ℕ)
      (seeks : SeeksLow highStart lowStart state) (calls : past = before ++ (high ++ low))
      (heard : HighHeard highStart high) (run : LowRun highStart low)
      (first : lowStart ≠ unk → (false, lowStart) ∈ low)
  | ready (before high low : List (Bool × ℕ)) (highStart lowStart : ℕ)
      (seeks : SeeksPacket lowStart state) (calls : past = before ++ (high ++ low))
      (heard : HighHeard highStart high) (heardLow : LowHeard highStart lowStart low)
  | packet (before high low packet : List (Bool × ℕ)) (highStart lowStart start : ℕ)
      (highSet : state.highFreqSet = true) (lowSet : state.lowFreqSet = true)
      (current : state.currState = state.basebitVals.length)
      (calls : past = before ++ (high ++ (low ++ (true, start) :: packet)))
      (heard : HighHeard highStart high) (heardLow : LowHeard highStart lowStart low)
      (inTime : inWindow lowStart start = true)
      (bits : state.basebitVals = false :: true :: packet.map Prod.fst)

theorem seeksHigh_resetVars : SeeksHigh unk State.resetVars := ⟨rfl, rfl, rfl, rfl, rfl⟩

theorem HighRun.snoc {start : ℕ} {calls : List (Bool × ℕ)} (run : HighRun start calls)
    (number : ℕ) :
    HighRun start (calls ++ [(true, number)]) := by
  constructor
  · rw [List.head?_append, run.first]
    rfl
  · intro call member
    rcases List.mem_append.mp member with old | new
    · exact run.bits call old
    · rw [List.mem_singleton.mp new]

theorem LowRun.snoc {highStart : ℕ} {calls : List (Bool × ℕ)} (run : LowRun highStart calls)
    {call : Bool × ℕ} (fits : call.1 = true → inWindow highStart call.2 = true) :
    LowRun highStart (calls ++ [call]) := by
  intro other member
  rcases List.mem_append.mp member with old | new
  · exact run other old
  · rw [List.mem_singleton.mp new]
    exact fits

/-- A high bit while no high period is measured. -/
theorem Heard.begins {past : List (Bool × ℕ)} {state later : State} {number : ℕ} {found : Bool}
    (seeks : SeeksHigh unk state)
    (called : updateState state true number = some (later, found)) :
    Heard (past ++ [(true, number)]) later := by
  have call := @updateState_high_first state number seeks.high seeks.low seeks.empty
  have start : startedAt unk number = number := if_pos rfl
  have fresh : inWindow number number = false := by
    rw [← Bool.not_eq_true, inWindow_iff]
    omega
  rw [seeks.highStart, start, fresh] at call
  cases call.symm.trans called
  apply Heard.high past [(true, number)] number
  case seeks => exact ⟨rfl, seeks.low, seeks.empty, rfl, seeks.lowStart⟩
  case calls => rfl
  case run => exact ⟨rfl, fun call member => by rw [List.mem_singleton.mp member]⟩

/-- A high bit while a high period is measured. -/
theorem Heard.high_step {before high : List (Bool × ℕ)} {state later : State} {start number : ℕ}
    {found : Bool} (seeks : SeeksHigh start state) (run : HighRun start high)
    (called : updateState state true number = some (later, found)) :
    Heard (before ++ high ++ [(true, number)]) later := by
  by_cases unset : start = unk
  · rw [unset] at seeks
    exact Heard.begins seeks called
  have call := @updateState_high_first state number seeks.high seeks.low seeks.empty
  rw [seeks.highStart, startedAt_of_set unset] at call
  have calls : before ++ high ++ [(true, number)] = before ++ (high ++ [(true, number)]) :=
    List.append_assoc _ _ _
  by_cases reached : inWindow start number = true
  · rw [reached] at call
    cases call.symm.trans called
    apply Heard.low before (high ++ [(true, number)]) [] start unk
    case seeks => exact ⟨rfl, seeks.low, seeks.empty, rfl, seeks.lowStart⟩
    case calls => rw [calls, List.append_nil]
    case heard =>
      exact ⟨run.snoc number, (true, number), List.mem_append_right high List.mem_cons_self,
        reached⟩
    case run =>
      intro call member
      cases member
    case first => exact fun set => absurd rfl set
  · rw [Bool.eq_false_of_not_eq_true reached] at call
    cases call.symm.trans called
    apply Heard.high before (high ++ [(true, number)]) start
    case seeks => exact ⟨rfl, seeks.low, seeks.empty, rfl, seeks.lowStart⟩
    case calls => exact calls
    case run => exact run.snoc number

/-- A call while a low period is measured. -/
theorem Heard.low_step {before high low : List (Bool × ℕ)} {state later : State}
    {highStart lowStart number : ℕ} {b found : Bool} (seeks : SeeksLow highStart lowStart state)
    (heard : HighHeard highStart high) (run : LowRun highStart low)
    (first : lowStart ≠ unk → (false, lowStart) ∈ low)
    (called : updateState state b number = some (later, found)) :
    Heard (before ++ (high ++ low) ++ [(b, number)]) later := by
  have calls : before ++ (high ++ low) ++ [(b, number)] =
      before ++ (high ++ (low ++ [(b, number)])) := by
    rw [List.append_assoc, List.append_assoc]
  cases b with
  | true =>
    have call := @updateState_high_second state number seeks.high seeks.low
    rw [seeks.highStart] at call
    by_cases inside : inWindow highStart number = true
    · rw [if_pos inside] at call
      cases call.symm.trans called
      apply Heard.low before high (low ++ [(true, number)]) highStart lowStart
      case seeks => exact ⟨seeks.high, seeks.low, seeks.empty, rfl, seeks.lowStart⟩
      case calls => exact calls
      case heard => exact heard
      case run => exact run.snoc fun _ => inside
      case first => exact fun set => List.mem_append_left _ (first set)
    · rw [if_neg inside] at call
      cases call.symm.trans called
      exact Heard.waiting seeksHigh_resetVars
  | false =>
    have call := @updateState_low_second state number seeks.high seeks.low seeks.empty
    have begun : (false, startedAt lowStart number) ∈ low ++ [(false, number)] := by
      unfold startedAt
      split
      · exact List.mem_append_right low List.mem_cons_self
      · rename_i set
        exact List.mem_append_left _ (first set)
    have further : LowRun highStart (low ++ [(false, number)]) :=
      run.snoc fun impossible => by cases impossible
    rw [seeks.lowStart] at call
    by_cases reached : inWindow (startedAt lowStart number) number = true
    · rw [reached] at call
      cases call.symm.trans called
      apply Heard.ready before high (low ++ [(false, number)]) highStart (startedAt lowStart number)
      case seeks => exact ⟨seeks.high, rfl, seeks.empty, rfl, rfl⟩
      case calls => exact calls
      case heard => exact heard
      case heardLow =>
        have last : (false, number) ∈ low ++ [(false, number)] :=
          List.mem_append_right low List.mem_cons_self
        exact ⟨begun, further, (false, number), last, rfl, reached⟩
    · rw [Bool.eq_false_of_not_eq_true reached] at call
      cases call.symm.trans called
      apply Heard.low before high (low ++ [(false, number)]) highStart (startedAt lowStart number)
      case seeks => exact ⟨seeks.high, rfl, seeks.empty, seeks.highStart, rfl⟩
      case calls => exact calls
      case heard => exact heard
      case run => exact further
      case first => exact fun _ => begun

/-- A call behind the low period. -/
theorem Heard.ready_step {before high low : List (Bool × ℕ)} {state later : State}
    {highStart lowStart number : ℕ} {b found : Bool} (seeks : SeeksPacket lowStart state)
    (heard : HighHeard highStart high) (heardLow : LowHeard highStart lowStart low)
    (called : updateState state b number = some (later, found)) :
    Heard (before ++ (high ++ low) ++ [(b, number)]) later := by
  have calls : before ++ (high ++ low) ++ [(b, number)] =
      before ++ (high ++ (low ++ [(b, number)])) := by
    rw [List.append_assoc, List.append_assoc]
  cases b with
  | false =>
    cases (updateState_low_third seeks.high seeks.low seeks.current).symm.trans called
    apply Heard.ready before high (low ++ [(false, number)]) highStart lowStart
    case seeks => exact seeks
    case calls => exact calls
    case heard => exact heard
    case heardLow =>
      rcases heardLow.long with ⟨call, member, bit, inside⟩
      have further : LowRun highStart (low ++ [(false, number)]) :=
        heardLow.run.snoc fun impossible => by cases impossible
      exact ⟨List.mem_append_left _ heardLow.first, further,
        call, List.mem_append_left _ member, bit, inside⟩
  | true =>
    have call := @updateState_high_third state number seeks.high seeks.low seeks.current seeks.empty
    rw [seeks.lowStart] at call
    by_cases inside : inWindow lowStart number = true
    · rw [if_pos inside] at call
      cases call.symm.trans called
      apply Heard.packet before high low [] highStart lowStart number
      case highSet => exact seeks.high
      case lowSet => exact seeks.low
      case current => rfl
      case calls => exact calls
      case heard => exact heard
      case heardLow => exact heardLow
      case inTime => exact inside
      case bits => rfl
    · rw [if_neg inside] at call
      cases call.symm.trans called
      exact Heard.waiting seeksHigh_resetVars

/-- One more call is heard. -/
theorem Heard.step {past : List (Bool × ℕ)} {state later : State} {input : Bool × ℕ} {found : Bool}
    (heard : Heard past state)
    (called : updateState state input.1 input.2 = some (later, found)) :
    Heard (past ++ [input]) later := by
  rcases input with ⟨b, number⟩
  cases heard with
  | waiting seeks =>
    cases b with
    | false =>
      cases (updateState_low_first seeks.high seeks.low).symm.trans called
      exact Heard.waiting seeksHigh_resetVars
    | true => exact Heard.begins seeks called
  | high before high start seeks calls run =>
    cases b with
    | false =>
      cases (updateState_low_first seeks.high seeks.low).symm.trans called
      exact Heard.waiting seeksHigh_resetVars
    | true =>
      rw [calls]
      exact Heard.high_step seeks run called
  | low before high low highStart lowStart seeks calls heard run first =>
    rw [calls]
    exact Heard.low_step seeks heard run first called
  | ready before high low highStart lowStart seeks calls heard heardLow =>
    rw [calls]
    exact Heard.ready_step seeks heard heardLow called
  | packet before high low packet highStart lowStart start highSet lowSet current calls heard
      heardLow inTime bits =>
    have long : 2 ≤ state.basebitVals.length := by
      rw [bits, List.length_cons, List.length_cons]
      omega
    have further (after : State) (high' : after.highFreqSet = true) (low' : after.lowFreqSet = true)
        (current' : after.currState = after.basebitVals.length)
        (bits' : after.basebitVals = state.basebitVals ++ [b]) :
        Heard (past ++ [(b, number)]) after := by
      apply Heard.packet before high low (packet ++ [(b, number)]) highStart lowStart start
      case highSet => exact high'
      case lowSet => exact low'
      case current => exact current'
      case calls =>
        rw [calls, List.append_assoc, List.append_assoc, List.append_assoc, List.cons_append]
      case heard => exact heard
      case heardLow => exact heardLow
      case inTime => exact inTime
      case bits =>
        rw [bits', bits, List.map_append, List.cons_append, List.cons_append]
        rfl
    rw [updateState_packet highSet lowSet current long] at called
    split at called
    · rcases Option.map_eq_some_iff.mp called with ⟨saved, kept, reply⟩
      have same := (saveBit_eq_some.mp kept).2
      split at reply
      · rcases publish_cases (state.withBits saved) with reset | published
        · cases reset.symm.trans reply
          exact Heard.waiting seeksHigh_resetVars
        · cases published.symm.trans reply
          exact further _ highSet lowSet rfl same
      · cases reply
        exact further _ highSet lowSet rfl same
    · cases called
      exact Heard.waiting seeksHigh_resetVars

/-- What was heard before the state after some calls. -/
theorem Heard.feed {past inputs : List (Bool × ℕ)} {state later : State} (heard : Heard past state)
    (fed : liquidAnalysis.feed state inputs = some later) : Heard (past ++ inputs) later := by
  induction inputs generalizing past state with
  | nil =>
    cases fed
    rw [List.append_nil]
    exact heard
  | cons input rest ih =>
    rw [PacketDecoder.feed] at fed
    cases called : liquidAnalysis.updateState state input with
    | none =>
      rw [called] at fed
      cases fed
    | some reply =>
      rw [called] at fed
      have next := ih (heard.step called) fed
      rw [List.append_assoc, List.singleton_append] at next
      exact next

/-- Whatever calls were made since the process started: a packet that is published was sent. The
last calls are a high period and a low period of the right lengths, a high bit in the window of the
low period, and 136 bits; the half-bits are those of a packet but for the last symbol, and the
symbols published are those of the only such packet. -/
theorem published_transmitted {inputs : List (Bool × ℕ)} {input : Bool × ℕ} {state later : State}
    (fed : liquidAnalysis.feed liquidAnalysis.initial inputs = some state)
    (called : liquidAnalysis.updateState state input = some (later, true)) :
    ∃ before high low packet highStart lowStart start,
      inputs ++ [input] = before ++ (high ++ (low ++ (true, start) :: packet)) ∧
      HighHeard highStart high ∧ LowHeard highStart lowStart low ∧
      inWindow lowStart start = true ∧ packet.length = 136 ∧
      ∃ symbols, IsPacket (false :: true :: packet.map Prod.fst) symbols ∧
        later.symbols = symbols.map digit ∧
        ∀ other, IsPacket (false :: true :: packet.map Prod.fst) other → other = symbols := by
  have quiet : Heard [] State.initial := Heard.waiting ⟨rfl, rfl, rfl, rfl, rfl⟩
  have sound := Liquid.collects.feed Liquid.collects.initial fed
  have published := Liquid.collects.published state input later sound called
  have begun := (Liquid.collects.step state input later true sound called).begun
  have complete : later.basebitVals.length = 2 * symbolsPerMsg := published.complete
  have started : later.basebitVals ≠ [] := by
    intro empty
    rw [empty] at complete
    cases complete
  have heard := (quiet.feed fed).step called
  rw [List.nil_append] at heard
  cases heard with
  | waiting seeks => exact absurd seeks.empty started
  | high _ _ _ seeks => exact absurd seeks.empty started
  | low _ _ _ _ _ seeks => exact absurd seeks.empty started
  | ready _ _ _ _ _ seeks => exact absurd seeks.empty started
  | packet before high low packet highStart lowStart start _ _ _ calls heard heardLow inTime bits =>
    refine ⟨before, high, low, packet, highStart, lowStart, start, calls, heard, heardLow, inTime,
      ?_, ?_⟩
    · rw [bits, List.length_cons, List.length_cons, List.length_map] at complete
      unfold symbolsPerMsg at complete
      omega
    · rw [← bits]
      rcases (begun_iff_isPacket complete).mp begun with ⟨symbols, sent⟩
      refine ⟨symbols, sent, sent.published published, ?_⟩
      intro other packet
      exact packet.unique sent complete

/-- A packet that was published. -/
theorem published_transmitted_packet :
    ∃ state later, liquidAnalysis.feed liquidAnalysis.initial almostPacket = some state ∧
      liquidAnalysis.updateState state (false, 2344) = some (later, true) ∧
      ∃ before high low packet highStart lowStart start,
        almostPacket ++ [(false, 2344)] = before ++ (high ++ (low ++ (true, start) :: packet)) ∧
        HighHeard highStart high ∧ LowHeard highStart lowStart low ∧
        inWindow lowStart start = true ∧ packet.length = 136 ∧
        ∃ symbols, IsPacket (false :: true :: packet.map Prod.fst) symbols ∧
          later.symbols = symbols.map digit := by
  have run : ((liquidAnalysis.feed liquidAnalysis.initial almostPacket).bind fun state =>
      liquidAnalysis.updateState state (false, 2344)).any Prod.snd = true := by
    decide +kernel
  cases fed : liquidAnalysis.feed liquidAnalysis.initial almostPacket with
  | none =>
    rw [fed] at run
    cases run
  | some state =>
    rw [fed, Option.bind_some] at run
    cases called : liquidAnalysis.updateState state (false, 2344) with
    | none =>
      rw [called] at run
      cases run
    | some reply =>
      rcases reply with ⟨later, found⟩
      rw [called] at run
      cases found with
      | false => cases run
      | true =>
        rcases published_transmitted fed called with
          ⟨before, high, low, packet, highStart, lowStart,
          start, calls, heard, heardLow, inTime, complete, symbols, sent, decoded, _⟩
        exact ⟨state, later, rfl, called, before, high, low, packet, highStart, lowStart, start,
          calls, heard, heardLow, inTime, complete, symbols, sent, decoded⟩

end FcTpms.Liquid

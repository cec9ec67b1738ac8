import FcTpms.Decoder.Exact
import FcTpms.Verif.HalfBitStrings

/-!
# Packets of the older decoders

`update_state` returns 1 only with a complete string whose symbols are decoded from it, all but
the last one. The second half-bit of the last symbol is not compared with the first, and the last
symbol is set to `1` unread. A process that goes on after a published packet, or begins a capture
in the middle of one, still has the old half-bits.
-/

namespace FcTpms.Legacy

open Decoder

/-- Whatever a decoder was called with before, the call that returns 1 publishes a packet. -/
def PacketDecoder.Publishes {σ ι : Type} (decoder : PacketDecoder σ ι) : Prop :=
  ∀ inputs input state later, decoder.feed decoder.initial inputs = some state →
    decoder.updateState state input = some (later, true) →
      Published (decoder.basebitVals later) (decoder.symbols later)

/-- A decoder that collects packets publishes packets. -/
theorem PacketDecoder.Collects.publishes {σ ι : Type} {decoder : PacketDecoder σ ι}
    {sound : σ → Prop} (collects : decoder.Collects sound) : decoder.Publishes := by
  intro inputs input state later fed called
  exact collects.published state input later (collects.feed collects.initial fed) called

/-- The arithmetic of `analyze_tpms.c` without rounding. -/
noncomputable instance exactWindowing : AnalyzeTpms.Windowing ℝ where
  toArithmetic := exactArithmetic
  toUnsigned value := u32 (if 0 ≤ value then ⌊value⌋ else ⌈value⌉)

/-- What both older decoders publish. -/
theorem legacy_publishes (F : Type) [AnalyzeTpms.Windowing F] :
    liquidAnalysis.Publishes ∧ (analyzeTpms F).Publishes :=
  ⟨Liquid.collects.publishes, AnalyzeTpms.collects.publishes⟩

example : (analyzeTpms ℝ).Publishes := AnalyzeTpms.collects.publishes

/-- A prelude and the half-bits of a packet up to the last one. -/
def almostPacket : List (Bool × ℕ) :=
  [(true, 1000), (true, 1512), (false, 1552), (false, 2064), (true, 2104), (true, 2144),
    (false, 2184)] ++
  (List.replicate 66 [(true, 2224), (false, 2264)]).flatten ++ [(true, 2304)]

/-- A packet whose last symbol is no symbol is published. -/
theorem publishes_equal_halves :
    ¬ ∀ inputs input state later,
      liquidAnalysis.feed liquidAnalysis.initial inputs = some state →
        liquidAnalysis.updateState state input = some (later, true) →
          ∀ index, index < symbolsPerMsg → (liquidAnalysis.basebitVals later)[2 * index]? ≠
            (liquidAnalysis.basebitVals later)[2 * index + 1]? := by
  intro differ
  have run : ((liquidAnalysis.feed liquidAnalysis.initial almostPacket).bind fun state =>
      liquidAnalysis.updateState state (true, 2344)).any (fun reply => reply.2 &&
        decide (reply.1.basebitVals[136]? = reply.1.basebitVals[137]?)) = true := by
    decide +kernel
  cases fed : liquidAnalysis.feed liquidAnalysis.initial almostPacket with
  | none =>
    rw [fed] at run
    cases run
  | some state =>
    rw [fed, Option.bind_some] at run
    cases called : liquidAnalysis.updateState state (true, 2344) with
    | none =>
      rw [called] at run
      cases run
    | some reply =>
      obtain ⟨later, found⟩ := reply
      rw [called, Option.any_some, Bool.and_eq_true, decide_eq_true_eq] at run
      obtain ⟨rfl, same⟩ := run
      exact differ almostPacket (true, 2344) state later fed called 68 (by decide) same

/-- The half-bit string stays within its buffer, and every capture starts anew, exactly when no
capture is begun while `high_freq_set` still stands. -/
theorem legacy_withinBuffer_iff (F : Type) [AnalyzeTpms.Windowing F] :
    (∀ captures, liquidAnalysis.WithinBuffer captures ↔ liquidAnalysis.StartsQuiet captures) ∧
      ∀ captures, (analyzeTpms F).WithinBuffer captures ↔ (analyzeTpms F).StartsQuiet captures :=
  ⟨Liquid.collects.withinBuffer_iff, AnalyzeTpms.collects.withinBuffer_iff⟩

/-- A packet and two samples of the next capture. -/
def packetAndMore : List (List (Bool × ℕ)) :=
  [almostPacket ++ [(false, 2344)], [(false, 41), (true, 81)]]

/-- The capture after a published packet starts with the half-bits of that packet, and its second
call writes outside of the buffer. -/
theorem outgrows_after_packet :
    ¬ liquidAnalysis.WithinBuffer packetAndMore ∧
      liquidAnalysis.process liquidAnalysis.initial packetAndMore = none := by
  have overflow : liquidAnalysis.process liquidAnalysis.initial packetAndMore = none := by
    decide +kernel
  have left : (liquidAnalysis.before packetAndMore 1).any
      (fun state => decide (state.basebitVals ≠ [])) = true := by
    decide +kernel
  refine ⟨fun within => ?_, overflow⟩
  cases begun : liquidAnalysis.before packetAndMore 1 with
  | none =>
    rw [begun] at left
    cases left
  | some state =>
    rw [begun, Option.any_some, decide_eq_true_eq] at left
    exact left (within.anew 1 state (by decide) begun).1

end FcTpms.Legacy

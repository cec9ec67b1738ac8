import FcTpms.Program.Returns
import FcTpms.Decoder.Symbols

/-!
# Single steps

What an assignment and a store attain and ensure, so that straight-line parts of the decoder are
computed by `simp`.
-/

namespace FcTpms.Decoder

open Program Program.Prog

variable {F : Type} {host : Host F} {state : State host}
  {goal : Unit → State host → List (Event host) → Prop}

@[simp] theorem attains_assign (change : State host → State host) :
    (assign change).Attains state goal ↔ goal () (change state) [.visit (change state)] :=
  attains_update _ _

@[simp] theorem ensures_assign (change : State host → State host) :
    (assign change).Ensures state goal ↔ goal () (change state) [.visit (change state)] :=
  ensures_update _ _

@[simp] theorem attains_assignReader (change : Reader host → Reader host) :
    (assignReader change).Attains state goal ↔
      goal () { state with reader := change state.reader }
        [.visit { state with reader := change state.reader }] :=
  attains_assign _

@[simp] theorem ensures_assignReader (change : Reader host → Reader host) :
    (assignReader change).Ensures state goal ↔
      goal () { state with reader := change state.reader }
        [.visit { state with reader := change state.reader }] :=
  ensures_assign _

@[simp] theorem attains_assignPrelude (change : Prelude F → Prelude F) :
    (assignPrelude change).Attains state goal ↔
      goal () { state with prelude := change state.prelude }
        [.visit { state with prelude := change state.prelude }] :=
  attains_assign _

@[simp] theorem ensures_assignPrelude (change : Prelude F → Prelude F) :
    (assignPrelude change).Ensures state goal ↔
      goal () { state with prelude := change state.prelude }
        [.visit { state with prelude := change state.prelude }] :=
  ensures_assign _

@[simp] theorem attains_assignPacket (change : Packet F → Packet F) :
    (assignPacket change).Attains state goal ↔
      goal () { state with packet := change state.packet }
        [.visit { state with packet := change state.packet }] :=
  attains_assign _

@[simp] theorem ensures_assignPacket (change : Packet F → Packet F) :
    (assignPacket change).Ensures state goal ↔
      goal () { state with packet := change state.packet }
        [.visit { state with packet := change state.packet }] :=
  ensures_assign _

@[simp] theorem attains_setValidPkt (value : Bool) :
    (setValidPkt value).Attains state goal ↔
      goal () { state with validPkt := value } [.visit { state with validPkt := value }] :=
  attains_assign _

@[simp] theorem ensures_setValidPkt (value : Bool) :
    (setValidPkt value).Ensures state goal ↔
      goal () { state with validPkt := value } [.visit { state with validPkt := value }] :=
  ensures_assign _

@[simp] theorem attains_storeChar (array : CharArray) (index : ℕ) (char : Char) :
    (storeChar array index char).Attains state goal ↔
      goal () { state with packet := state.packet.write array index char }
        [.store array index,
          .visit { state with packet := state.packet.write array index char }] := by
  simp only [storeChar, attains_bind, attains_emit, attains_assignPacket, List.singleton_append]

@[simp] theorem ensures_nullDereference {α : Type}
    {goal : α → State host → List (Event host) → Prop} :
    (nullDereference : Decode host α).Ensures state goal := by
  simp only [nullDereference, ensures_bind, ensures_emit, ensures_crash]

end FcTpms.Decoder

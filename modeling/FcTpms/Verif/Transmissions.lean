import FcTpms.Verif.IdealFile
import FcTpms.Verif.Replies
import FcTpms.Verif.SensorMessages
import FcTpms.Verif.Termination

/-!
# From sensors to the job

A file transmits a message if, however the filter and the oscillator begin, it carries an ideal
signal of the message. A process that analyses such files one after the other replies with each
message, and a job reads each reply.
-/

namespace FcTpms.Decoder

open Program Program.Prog Arithmetic Text Job

variable {host : Host ℝ} {message : SensorMessage}

/-- A file transmits a message to a filter and an oscillator. -/
def TransmitsTo (dsp : Dsp host) (bytes : List UInt8) (message : SensorMessage) : Prop :=
  ∃ lead trigger rest freq halfLength lowStart syncStart,
    Carries dsp bytes message.payload lead trigger rest freq halfLength lowStart syncStart

/-- A file that transmits a message, however the filter and the oscillator begin. -/
def Transmits (host : Host ℝ) (bytes : List UInt8) (message : SensorMessage) : Prop :=
  ∀ dsp : Dsp host, TransmitsTo dsp bytes message

/-! ## One file -/

/-- The search finds the message of a file. -/
theorem getPacket_transmits {bytes : List UInt8} {start : State host}
    (transmits : TransmitsTo start.reader.device bytes message)
    (counted : start.reader.totalSamplesIn + bytes.length / 2 ≤ 2 ^ 32) :
    (getPacket : Decode host _).Attains (start.opened bytes) fun result later _ =>
      (∃ packetSyms, result = some packetSyms) ∧ later.validPkt = true ∧
        Holds later.packet message := by
  obtain ⟨lead, trigger, rest, freq, halfLength, lowStart, syncStart, carries⟩ := transmits
  apply getPacket_measures carries counted
  intro measured early found _ _
  apply found.finds.mono
  rintro result later late ⟨some, valid, collected⟩
  exact ⟨some, some, valid, holds_of_symbols collected.symbols⟩

/-- The search counts no more samples than the file has. -/
theorem getPacket_counts (bytes : List UInt8) (start : State host) :
    (getPacket : Decode host _).Ensures (start.opened bytes) fun _ later _ =>
      later.reader.totalSamplesIn ≤ start.reader.totalSamplesIn + bytes.length / 2 := by
  have opened : Counted (start.reader.totalSamplesIn + bytes.length / 2) (bytes.length / 2)
      (start.opened bytes) := by
    have samples : (start.opened bytes).reader.upcoming.length = bytes.length / 2 :=
      process_length _ _
    unfold Counted
    rw [samples]
    exact ⟨rfl, le_refl _⟩
  have counts := ((counted_attemptFree host (start.reader.totalSamplesIn + bytes.length / 2)
    (bytes.length / 2)).getPacket_keeps (counted_preludeFree host _ _)
      fun _ _ => True.intro).ensures opened
  refine Ensures.mono counts ?_
  rintro result later trace ⟨_, ⟨sum, _⟩, _⟩
  omega

/-- The analysis of such a file, and how many samples it counts at most. -/
theorem analyzeFile_transmits {file : SourceFile} {bytes : List UInt8} {start : State host}
    (contents : file.contents = some bytes)
    (transmits : TransmitsTo start.reader.device bytes message)
    (counted : start.reader.totalSamplesIn + bytes.length / 2 ≤ 2 ^ 32) :
    (analyzeFile file).Attains start fun result later _ =>
      result = 1 ∧ later.validPkt = true ∧ Holds later.packet message ∧
        later.reader.totalSamplesIn ≤ start.reader.totalSamplesIn + bytes.length / 2 := by
  simp only [analyzeFile_opened contents, attains_bind, attains_assignReader]
  apply ((getPacket_transmits transmits counted).and_ensures (getPacket_counts bytes start)).mono
  rintro result later trace ⟨⟨⟨packetSyms, rfl⟩, valid, holds⟩, count⟩
  rw [attains_pure]
  exact ⟨rfl, valid, holds, count⟩

/-! ## Whole processes -/

/-- A file that can be opened and transmits a message, however the filter and the oscillator
begin. -/
def Delivers (host : Host ℝ) (file : SourceFile) (message : SensorMessage) : Prop :=
  ∃ bytes, file.contents = some bytes ∧ Transmits host bytes message

/-- The samples of the files still to come have numbers below 2³². -/
def Room (files : List SourceFile) (state : State host) : Prop :=
  state.reader.totalSamplesIn + (files.map fun file => (file.contents.getD []).length / 2).sum ≤
    2 ^ 32

/-- A message with the address 0ABCDE12, 25 degrees and 220 kPa. -/
def shownMessage : SensorMessage where
  address := 0xABCDE12
  flags := 0
  pressure := 128
  temperature := 65
  trailer := 0
  measurable := by decide

/-- A file that transmits it. -/
def shownFile : List UInt8 := toneFile (idealTone shownMessage.payload 200 1024 2048) 0 30500

theorem length_shownFile : shownFile.length / 2 = 30501 := by rw [shownFile, length_toneFile]

end FcTpms.Decoder

import FcTpms.Program.Rules
import FcTpms.Decoder.Arithmetic

/-!
# State of the decoder

The static variables of the decoder, grouped by the functions that own them: the sample reader
with its cache, the prelude measurements, and the packet under construction. What lies outside
the repository's own code is a `Host`: the liquid-dsp filter and oscillator are deterministic
state machines, a fresh `malloc` block holds arbitrary values, and so does the memory around the
sample cache. An access to the cache outside its bounds touches that memory and nothing else;
every index is observed, so that a run shows whether it happened.
-/

namespace FcTpms.Decoder

open Program

variable {F : Type}

/-- What the decoder uses from outside its own source. -/
structure Host (F : Type) where
  /-- `iirfilt_crcf`. -/
  Filter : Type
  /-- `nco_crcf`. -/
  Nco : Type
  /-- `iirfilt_crcf_create_lowpass`. -/
  iirfiltCreateLowpass : ℕ → F → Filter
  /-- `iirfilt_crcf_execute`. -/
  iirfiltExecute : Filter → Cplx F → Filter × Cplx F
  /-- `nco_crcf_create(LIQUID_VCO)`. -/
  ncoCreate : Nco
  /-- `nco_crcf_set_frequency`. -/
  ncoSetFrequency : Nco → F → Nco
  /-- `nco_crcf_mix_down`. -/
  ncoMixDown : Nco → Cplx F → Nco × Cplx F
  /-- `nco_crcf_step`. -/
  ncoStep : Nco → Nco
  /-- What the block of the given allocation holds at an index before it is written. -/
  uninitialized : ℕ → ℕ → Cplx F
  /-- What lies at an index outside of `symbol_cache` when the process starts. -/
  aroundCache : ℤ → Cplx F

/-- The filter and the oscillator once they exist. -/
structure Dsp (host : Host F) where
  /-- `filter`. -/
  filter : host.Filter
  /-- `nco`. -/
  nco : host.Nco

/-- An open file: the bytes not yet read and the end-of-file indicator. -/
structure File where
  /-- The bytes after the read position. -/
  rest : List UInt8
  /-- `feof`. -/
  eof : Bool

/-- The sample reader and its cache. -/
structure Reader (host : Host F) where
  /-- `file`. -/
  file : File
  /-- `filter` and `nco`; they exist once `initialized` is true. -/
  dsp : Option (Dsp host)
  /-- `total_samples_in`. -/
  totalSamplesIn : ℕ
  /-- `read_from_cache`. -/
  readFromCache : Bool
  /-- `write_to_cache`. -/
  writeToCache : Bool
  /-- `cache_loc`. -/
  cacheLoc : ℤ
  /-- `cache_count`. -/
  cacheCount : ℤ
  /-- `symbol_cache` and the memory around it. -/
  symbolCache : ℤ → Cplx F
  /-- `cache_loc_in_file`. -/
  cacheLocInFile : ℕ
  /-- Number of sample buffers allocated so far. -/
  allocations : ℕ

/-- What `is_valid_prelude` measures. -/
structure Prelude (F : Type) where
  /-- `samples_per_sym`. -/
  samplesPerSym : ℕ
  /-- `sync_bits_start`. -/
  syncBitsStart : ℕ
  /-- `sync_bits_end`. -/
  syncBitsEnd : ℕ
  /-- `high_freq_known`. -/
  highFreqKnown : Bool
  /-- `low_freq_known`. -/
  lowFreqKnown : Bool
  /-- `high_freq`. -/
  highFreq : F
  /-- `low_freq`. -/
  lowFreq : F
  /-- `prelude_hf_start`. -/
  preludeHfStart : ℕ
  /-- `prelude_lf_start`. -/
  preludeLfStart : ℕ

/-- The two character arrays of a packet. -/
inductive CharArray where
  /-- `bits`. -/
  | bits
  /-- `symbols`. -/
  | symbols
  deriving DecidableEq

/-- Declared sizes: `2 * SYMBOLS_PER_MSG + 3` and `SYMBOLS_PER_MSG + 1`. -/
def CharArray.size : CharArray → ℕ
  | .bits => 2 * symbolsPerMsg + 3
  | .symbols => symbolsPerMsg + 1

/-- The packet under construction. -/
structure Packet (F : Type) where
  /-- `symbols`. -/
  symbols : Vector Char CharArray.symbols.size
  /-- `bits`. -/
  bits : Vector Char CharArray.bits.size
  /-- `preceding_bit`. -/
  precedingBit : ℤ
  /-- `bit_confidence`. -/
  bitConfidence : F
  /-- `actual_bit_end`. -/
  actualBitEnd : ℕ

/-- The static variables of `analyze_tpms2.c`. -/
structure State (host : Host F) where
  /-- The sample reader. -/
  reader : Reader host
  /-- The prelude measurements. -/
  prelude : Prelude F
  /-- The packet under construction. -/
  packet : Packet F
  /-- `valid_pkt`. -/
  validPkt : Bool

/-- What can be observed of a run. -/
inductive Event (host : Host F) where
  /-- An assignment left this state. -/
  | visit (state : State host)
  /-- `symbol_cache` was accessed at this index. -/
  | cacheIndex (index : ℤ)
  /-- A character array was written at this index. -/
  | store (array : CharArray) (index : ℕ)
  /-- A null pointer was dereferenced. -/
  | nullDereference
  /-- `is_valid_prelude` was called in this state. -/
  | enterPrelude (state : State host)
  /-- `try_to_get_packet_symbols` was called with this estimate in this state. -/
  | enterAttempt (estimate : ℕ) (state : State host)
  /-- `get_some_samples` was called for so many samples from this location in this state. -/
  | enterFetch (numSamples : ℤ) (location : ℕ) (state : State host)
  /-- A half-bit was decided on samples from number `first` on: `obtained` samples were read
  for it, `used` elements of the buffer were examined. -/
  | halfBit (first obtained used : ℕ)

/-- A function of the decoder. -/
abbrev Decode (host : Host F) (α : Type) : Type := Prog (State host) (Event host) α

variable {host : Host F}

/-- An assignment to static variables. -/
def assign (change : State host → State host) : Decode host Unit := Prog.update Event.visit change

/-- An assignment to variables of the sample reader. -/
def assignReader (change : Reader host → Reader host) : Decode host Unit :=
  assign fun state => { state with reader := change state.reader }

/-- An assignment to prelude measurements. -/
def assignPrelude (change : Prelude F → Prelude F) : Decode host Unit :=
  assign fun state => { state with prelude := change state.prelude }

/-- An assignment to variables of the packet. -/
def assignPacket (change : Packet F → Packet F) : Decode host Unit :=
  assign fun state => { state with packet := change state.packet }

/-- Assignment to `valid_pkt`. -/
def setValidPkt (value : Bool) : Decode host Unit :=
  assign fun state => { state with validPkt := value }

/-- The process dies on a null pointer. -/
def nullDereference {α : Type} : Decode host α := do
  Prog.emit .nullDereference
  Prog.crash

/-- The static variables when the process starts. -/
def State.initial (host : Host F) [Arithmetic F] : State host where
  reader :=
    { file := { rest := [], eof := false }
      dsp := none
      totalSamplesIn := 0
      readFromCache := false
      writeToCache := true
      cacheLoc := 0
      cacheCount := 0
      symbolCache := fun index =>
        if 0 ≤ index ∧ index < cacheSize then ⟨Arithmetic.ofInt 0, Arithmetic.ofInt 0⟩
        else host.aroundCache index
      cacheLocInFile := 0
      allocations := 0 }
  prelude :=
    { samplesPerSym := 0, syncBitsStart := 0, syncBitsEnd := 0
      highFreqKnown := false, lowFreqKnown := false
      highFreq := Arithmetic.ofInt 0, lowFreq := Arithmetic.ofInt 0
      preludeHfStart := 0, preludeLfStart := 0 }
  packet :=
    { symbols := Vector.replicate _ '\x00'
      bits := Vector.replicate _ '\x00'
      precedingBit := -1
      bitConfidence := Arithmetic.ofInt 0
      actualBitEnd := 0 }
  validPkt := false

end FcTpms.Decoder

import FcTpms.Decoder.State

/-!
# Reading samples

`get_next_sample` replays the cache or reads and preprocesses two bytes of the file;
`get_some_samples` skips to a location and collects a buffer of samples.
-/

namespace FcTpms.Decoder

open Program

variable {F : Type} [Arithmetic F] {host : Host F}

/-- `SAMPLE_RATE`. -/
def sampleRate : F := Arithmetic.literal 1024000

/-- The filter and the oscillator that the first `get_next_sample` creates. -/
def Dsp.initial (host : Host F) : Dsp host where
  filter := host.iirfiltCreateLowpass 7 (Arithmetic.literal (5 / 100))
  nco := host.ncoSetFrequency host.ncoCreate
    (Arithmetic.toFloat (Arithmetic.div (Arithmetic.literal (-102400)) sampleRate))

/-- Two bytes as a complex sample:
`(((float)(buf[0]) - 127.0) + ((float)(buf[1]) - 127.0) * _Complex_I) / 128.0`. -/
def toSample (first second : UInt8) : Cplx F :=
  let part (byte : UInt8) : F := Arithmetic.div
    (Arithmetic.sub (Arithmetic.ofInt byte.toNat) (Arithmetic.literal 127))
    (Arithmetic.literal 128)
  ⟨part first, part second⟩

/-- Filter the sample, remove the carrier offset, step the oscillator. -/
def Dsp.preprocess (dsp : Dsp host) (sample : Cplx F) : Dsp host × Cplx F :=
  let (filter, filtered) := host.iirfiltExecute dsp.filter sample
  let (nco, mixed) := host.ncoMixDown dsp.nco filtered
  (⟨filter, host.ncoStep nco⟩, mixed)

/-- `get_current_read_loc`. -/
def Reader.currentReadLoc (reader : Reader host) : ℕ :=
  if reader.readFromCache then u64 (reader.cacheLocInFile + reader.cacheLoc)
  else reader.totalSamplesIn

/-- `if (!initialized) { … }`: create the filter and the oscillator on the first call. -/
def initializeOnce : Decode host Unit := do
  match (← Prog.get).reader.dsp with
  | none => assignReader fun reader => { reader with dsp := some (Dsp.initial host) }
  | some _ => pure ()

/-- `fread(buf, sizeof(unsigned char), 2, file) != 2` as `none`. -/
def readTwoBytes : Decode host (Option (UInt8 × UInt8)) := do
  match (← Prog.get).reader.file.rest with
  | first :: second :: rest =>
    assignReader fun reader => { reader with file := { reader.file with rest := rest } }
    return some (first, second)
  | _ =>
    assignReader fun reader => { reader with file := { rest := [], eof := true } }
    return none

/-- The part of `get_next_sample` that stores a sample in the cache; `none` when the cache is
full. -/
def storeInCache (sample : Cplx F) : Decode host (Option (Cplx F)) := do
  Prog.emit (.cacheIndex (← Prog.get).reader.cacheLoc)
  assignReader fun reader =>
    { reader with symbolCache := Function.update reader.symbolCache reader.cacheLoc sample }
  assignReader fun reader => { reader with cacheLoc := reader.cacheLoc + 1 }
  assignReader fun reader => { reader with cacheCount := reader.cacheLoc }
  if (← Prog.get).reader.cacheLoc ≥ cacheSize then
    setValidPkt false
    return none
  return some sample

/-- The part of `get_next_sample` that reads the file. -/
def readFromFile : Decode host (Option (Cplx F)) := do
  match ← readTwoBytes with
  | none => return none
  | some (first, second) =>
    assignReader fun reader => { reader with totalSamplesIn := reader.totalSamplesIn + 1 }
    match (← Prog.get).reader.dsp with
    | none => nullDereference
    | some dsp =>
      let (dsp, sample) := dsp.preprocess (toSample first second)
      assignReader fun reader => { reader with dsp := some dsp }
      if (← Prog.get).reader.writeToCache then storeInCache sample else return some sample

/-- `get_next_sample`; a null pointer is `none`. -/
def getNextSample : Decode host (Option (Cplx F)) := do
  initializeOnce
  let reader := (← Prog.get).reader
  if reader.readFromCache then
    if reader.cacheLoc ≥ reader.cacheCount then
      assignReader fun reader => { reader with readFromCache := false }
      assignReader fun reader => { reader with writeToCache := true }
      readFromFile
    else
      Prog.emit (.cacheIndex reader.cacheLoc)
      assignReader fun reader => { reader with cacheLoc := reader.cacheLoc + 1 }
      return some (reader.symbolCache reader.cacheLoc)
  else readFromFile

/-- A buffer of samples: those read into it and, after them, what its memory held before. -/
structure Buffer (F : Type) where
  /-- Number of the first sample read into the buffer. -/
  first : ℕ
  /-- The samples read. -/
  recorded : List (Cplx F)
  /-- The rest of the buffer, never written. -/
  tail : List (Cplx F)

/-- All elements of the buffer. -/
def Buffer.samples (buffer : Buffer F) : List (Cplx F) := buffer.recorded ++ buffer.tail

/-- The loop of `get_some_samples` that skips to the start location; `false` on a null sample. -/
def skipTo (startSampleLocation : ℕ) : Decode host Bool :=
  Prog.loop (fun _ => do
    if startSampleLocation > (← Prog.get).reader.currentReadLoc then
      match ← getNextSample with
      | none => return .inr false
      | some _ => return .inl ()
    else return .inr true) ()

/-- The loop of `get_some_samples` that collects samples until the buffer is full or a null
sample comes. -/
def collect : ℕ → Decode host (List (Cplx F))
  | 0 => return []
  | count + 1 => do
    match ← getNextSample with
    | none => return []
    | some sample => return sample :: (← collect count)

/-- `get_some_samples`; a null pointer is `none`. -/
def getSomeSamples (numSamples : ℤ) (startSampleLocation : ℕ) :
    Decode host (Option (Buffer F)) := do
  Prog.emit (.enterFetch numSamples startSampleLocation (← Prog.get))
  if !(← skipTo startSampleLocation) then return none
  let reader := (← Prog.get).reader
  assignReader fun reader => { reader with allocations := reader.allocations + 1 }
  -- A negative size is a request for almost all of memory, which `malloc` refuses.
  if numSamples < 0 then return none
  let recorded ← collect numSamples.toNat
  return some
    { first := reader.currentReadLoc + 1
      recorded := recorded
      tail := (List.range' recorded.length (numSamples.toNat - recorded.length)).map
        (host.uninitialized reader.allocations) }

end FcTpms.Decoder

import FcTpms.Decoder.Prelude
import FcTpms.Decoder.Symbols

/-!
# Analysis of a file

`get_packet` searches a file for preludes and tries each with the estimated symbol length first
and then with the lengths up to a twentieth shorter and longer. `analyze_file` opens a file and
reports whether a packet was found; the getters read the packet afterwards.
-/

namespace FcTpms.Decoder

open Program

variable {F : Type} [Arithmetic F] {host : Host F}

/-- The assignments with which `try_to_get_packet_symbols` starts the cache. -/
def startCache : Decode host Unit := do
  assignReader fun reader => { reader with writeToCache := !reader.readFromCache }
  assignReader fun reader => { reader with cacheLoc := 0 }
  if (← Prog.get).reader.writeToCache then
    assignReader fun reader => { reader with cacheLocInFile := reader.totalSamplesIn }
  else pure ()

/-- `try_to_get_packet_symbols`; a null pointer is `none`. -/
def tryToGetPacketSymbols (pktStart numSyms estSamplesPerSym : ℕ) :
    Decode host (Option (List ℤ)) := do
  Prog.emit (.enterAttempt estSamplesPerSym (← Prog.get))
  startCache
  setValidPkt true
  if estSamplesPerSym > maxSamplesPerSymbol ∨ estSamplesPerSym < minSamplesPerSymbol then
    return none
  match ← getPacketSymbols pktStart numSyms estSamplesPerSym with
  | none => return none
  | some pktSymbols =>
    if (← Prog.get).validPkt then return some pktSymbols
    return none

/-- One attempt of `get_packet`: the packet if there is one and it is valid. -/
def attempt (samplesPerSymEst : ℕ) : Decode host (Option (List ℤ)) := do
  match ← tryToGetPacketSymbols (← Prog.get).prelude.syncBitsEnd symbolsPerMsg
      samplesPerSymEst with
  | none => return none
  | some pktSymbols =>
    if (← Prog.get).validPkt then return some pktSymbols
    return none

/-- A retry loop of `get_packet`: attempts from `samplesPerSymEst` on while `continues`. -/
def retry (continues : ℕ → Bool) (next : ℕ → ℕ) (samplesPerSymEst : ℕ) :
    Decode host (Option (List ℤ)) :=
  Prog.loop (fun samplesPerSymEst => do
    if !continues samplesPerSymEst then return .inr none
    match ← attempt samplesPerSymEst with
    | some pktSymbols => return .inr (some pktSymbols)
    | none => return .inl (next samplesPerSymEst)) samplesPerSymEst

/-- `samples_per_sym_est > (1.0 - tolerance) * orig_samples_per_sym`, where the tolerance is the
`float` nearest to `0.05`. -/
def aboveShortest (origSamplesPerSym samplesPerSymEst : ℕ) : Bool :=
  samplesPerSymEst * 2 ^ 28 > (2 ^ 28 - 13421773) * origSamplesPerSym

/-- `samples_per_sym_est < (1.0 + tolerance) * orig_samples_per_sym`. -/
def belowLongest (origSamplesPerSym samplesPerSymEst : ℕ) : Bool :=
  samplesPerSymEst * 2 ^ 28 < (2 ^ 28 + 13421773) * origSamplesPerSym

/-- The attempts of `get_packet` at one prelude. -/
def tryEstimates (origSamplesPerSym : ℕ) : Decode host (Option (List ℤ)) := do
  match ← attempt origSamplesPerSym with
  | some pktSymbols => return some pktSymbols
  | none =>
    assignReader fun reader => { reader with readFromCache := true }
    match ← retry (aboveShortest origSamplesPerSym) (fun est => u32 ((est : ℤ) - 1))
        (u32 ((origSamplesPerSym : ℤ) - 1)) with
    | some pktSymbols => return some pktSymbols
    | none =>
      retry (belowLongest origSamplesPerSym) (fun est => u32 (est + 1))
        (u32 (origSamplesPerSym + 1))

/-- One round of the outer loop of `get_packet`: the next prelude and the attempts at it. -/
def searchPrelude : Decode host (Unit ⊕ Option (List ℤ)) := do
  assignReader fun reader => { reader with readFromCache := false }
  assignReader fun reader => { reader with writeToCache := reader.readFromCache }
  let _possiblePreludeLoc ← findPreludeStart
  if (← Prog.get).reader.file.eof then return .inr none
  if ← isValidPrelude then
    match ← tryEstimates (← Prog.get).prelude.samplesPerSym with
    | some pktSymbols => return .inr (some pktSymbols)
    | none => return .inl ()
  else return .inl ()

/-- `get_packet`; a null pointer is `none`. -/
def getPacket : Decode host (Option (List ℤ)) := Prog.loop (fun _ => searchPrelude) ()

/-- Declared size of `src_name`. -/
def srcNameSize : ℕ := 200

/-- A file that `analyze_file` can be called for. It copies the name into `src_name`, which only
messages show; a longer name would be written over what lies behind. -/
structure SourceFile where
  /-- `src_filename`. -/
  srcFilename : List Char
  /-- The contents, or none when the file cannot be opened. -/
  contents : Option (List UInt8)
  /-- The name and its terminator fit into `src_name`. -/
  fits : srcFilename.length < srcNameSize

/-- `analyze_file`. -/
def analyzeFile (file : SourceFile) : Decode host ℤ := do
  match file.contents with
  | none => return 0
  | some bytes =>
    assignReader fun reader => { reader with file := { rest := bytes, eof := false } }
    match ← getPacket with
    | some _ => return 1
    | none => return 0

/-- A file that cannot be opened is not analysed. -/
theorem analyzeFile_missing {file : SourceFile} (missing : file.contents = none) :
    (analyzeFile file : Decode host ℤ) = pure 0 := by
  rw [analyzeFile, missing]

/-- Any other file is opened and searched. -/
theorem analyzeFile_opened {file : SourceFile} {bytes : List UInt8}
    (contents : file.contents = some bytes) :
    (analyzeFile file : Decode host ℤ) = do
      assignReader fun reader => { reader with file := { rest := bytes, eof := false } }
      let packet ← getPacket
      return if packet.isSome then 1 else 0 := by
  rw [analyzeFile, contents]
  apply congrArg (Bind.bind _)
  funext _
  apply congrArg (Bind.bind getPacket)
  funext packet
  cases packet with
  | none => rfl
  | some packetSyms => rfl

/-- A process that analyses files one after the other, and the results. -/
def analyzeFiles : List SourceFile → Decode host (List ℤ)
  | [] => return []
  | file :: rest => do
    let result ← analyzeFile file
    return result :: (← analyzeFiles rest)

/-- `get_success`. -/
def State.getSuccess (state : State host) : ℤ := if state.validPkt then 1 else 0

/-- The value of the symbols from `first` to `last`, most significant first. -/
def symbolsValue (symbols : List Char) (first last : ℕ) : ℕ :=
  (List.range' first (last + 1 - first)).foldl
    (fun value j => value * 2 + if symbols[j]? = some '1' then 1 else 0) 0

/-- `get_dec_address_val`. -/
def getDecAddressVal (symbols : List Char) : ℕ := symbolsValue symbols 2 29

/-- `get_temp_c`. -/
def getTempC (symbols : List Char) : ℤ := symbolsValue symbols 52 59 - 40

/-- `get_pressure_kpa`, which is exact in doubles. -/
def getPressureKpa (symbols : List Char) : ℚ := symbolsValue symbols 36 43 * (25 / 10) - 100

end FcTpms.Decoder

import FcTpms.Decoder.Analysis
import FcTpms.Program.Sequences
import FcTpms.Text.Formats

/-!
# The replies of the analysis

`fleet_analysis` writes what an analysis found into a text, which the FTP server sends with the code
226. The native method `analyzeFile` of the application returns a text of the same form.
-/

namespace FcTpms.Decoder

open Program Text

/-- `get_hex_address_str`. -/
def getHexAddressStr (symbols : List Char) : List Char := hexText (getDecAddressVal symbols)

/-- `"%s,%ld,%lf,"` with the values of a packet. -/
def readingText (symbols : List Char) : List Char :=
  terminated ',' []
    [getHexAddressStr symbols, integerText (getTempC symbols), fixedText (getPressureKpa symbols)]

/-- What `fleet_analysis` returns for what `analyze_file` returned. -/
def fleetReply (analyzedOk : ℤ) (symbols fn : List Char) : List Char :=
  let returnedString := if analyzedOk = 1 then readingText symbols else ",,,".toList
  returnedString ++ fn.take (249 - returnedString.length)

/-- What the native method returns. -/
def nativeReply (analyzedOk : ℤ) (symbols : List Char) : List Char :=
  if analyzedOk = 1 then "226 ".toList ++ readingText symbols else "226 ,,,".toList

/-- `vsf_cmdio_write` with the code of a transfer that was successful. -/
def vsfCmdioWrite (text : List Char) : List Char :=
  let escaped := text.flatMap fun c => if c = '\u00ff' then ['\u00ff', '\u00ff'] else [c]
  let mangled := escaped.map fun c => if c = '\n' then '\x00' else c
  "226 ".toList ++ mangled ++ "\r\n".toList

variable {F : Type} [Arithmetic F] {host : Host F}

/-- `fleet_analysis`. -/
def fleetAnalysis (file : SourceFile) : Decode host (List Char) := do
  let analyzedOk ← analyzeFile file
  return fleetReply analyzedOk ((← Prog.get).packet.array .symbols) file.srcFilename

/-- A process that analyses files one after the other and replies to each, like an FTP session. -/
def fleetAnalyses : List SourceFile → Decode host (List (List Char)) := Prog.each fleetAnalysis

end FcTpms.Decoder

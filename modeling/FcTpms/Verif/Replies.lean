import FcTpms.Decoder.Reply
import FcTpms.Job.Response
import FcTpms.Verif.PacketFormat
import Mathlib.Data.Char

/-!
# From a packet to the message of a job

The replies of the FTP server and of the native method carry the values of a packet as text. A job
takes both apart in the same way. It finds the address, the temperature and the pressure of the
packet again, unless the address has less than five hexadecimal digits: then it finds none, as it
does after an analysis that failed.
-/

namespace FcTpms.Decoder

open Text Job

/-! ## The characters of a reading -/

/-- Visible characters that occur in numbers. -/
def Plain (c : Char) : Prop := ' ' < c ∧ c ≤ 'F' ∧ c ≠ ','

instance (c : Char) : Decidable (Plain c) := inferInstanceAs (Decidable (_ ∧ _))

theorem plain_of_isDigit {c : Char} (digit : c.isDigit = true) : Plain c := by
  rw [Char.isDigit, Bool.and_eq_true, decide_eq_true_eq, decide_eq_true_eq] at digit
  have first : '0' ≤ c := digit.1
  have last : c ≤ '9' := digit.2
  constructor
  · exact lt_of_lt_of_le (by decide) first
  · constructor
    · exact le_trans last (by decide)
    · intro comma
      rw [comma] at first
      exact absurd first (by decide)

theorem plain_hexText {value : ℕ} {c : Char} (there : c ∈ hexText value) : Plain c := by
  rcases mem_hexText there with ⟨digit, small, rfl⟩
  interval_cases digit <;> decide

theorem plain_integerText {value : ℤ} {c : Char} (there : c ∈ integerText value) : Plain c := by
  unfold integerText at there
  split at there
  · rcases List.mem_cons.mp there with sign | digit
    · rw [sign]
      decide
    · exact plain_of_isDigit (isDigit_of_mem digit)
  · exact plain_of_isDigit (isDigit_of_mem there)

theorem plain_fixedText {value : ℚ} {c : Char} (there : c ∈ fixedText value) : Plain c := by
  rcases mem_fixedText there with digit | rfl | rfl
  · exact plain_of_isDigit digit
  · decide
  · decide

/-- The fields of a reading. -/
def readingFields (symbols : List Char) : List (List Char) :=
  [getHexAddressStr symbols, integerText (getTempC symbols), fixedText (getPressureKpa symbols)]

theorem plain_readingFields {symbols field : List Char} (member : field ∈ readingFields symbols)
    {c : Char} (there : c ∈ field) : Plain c := by
  rw [readingFields, List.mem_cons, List.mem_cons, List.mem_singleton] at member
  rcases member with rfl | rfl | rfl
  · exact plain_hexText there
  · exact plain_integerText there
  · exact plain_fixedText there

theorem trim_plain {text : List Char} (plain : ∀ c ∈ text, Plain c) : trim text = text :=
  trim_eq_self fun c there => not_le_of_gt (plain c there).1

/-! ## What is sent, and the line that is read -/

/-- A character that is sent as it is and does not end a line. -/
def Sendable (c : Char) : Prop := c ≠ '\u00ff' ∧ c ≠ '\n' ∧ c ≠ '\r'

instance (c : Char) : Decidable (Sendable c) := inferInstanceAs (Decidable (_ ∧ _))

theorem Plain.sendable {c : Char} (plain : Plain c) : Sendable c := by
  constructor
  · intro same
    rw [same] at plain
    exact absurd plain (by decide)
  · constructor
    · intro same
      rw [same] at plain
      exact absurd plain (by decide)
    · intro same
      rw [same] at plain
      exact absurd plain (by decide)

/-- What the server sends begins with the code and the front of the text. -/
theorem vsfCmdioWrite_append {front : List Char} (sendable : ∀ c ∈ front, Sendable c)
    (back : List Char) :
    ∃ more, vsfCmdioWrite (front ++ back) = "226 ".toList ++ front ++ more := by
  have escaped : (front.flatMap fun c => if c = '\u00ff' then ['\u00ff', '\u00ff'] else [c]) =
      front := by
    have one : ∀ c ∈ front, (if c = '\u00ff' then ['\u00ff', '\u00ff'] else [c]) = [c] :=
      fun c there => if_neg (sendable c there).1
    rw [List.flatMap_congr one, List.flatMap_singleton']
  have mangled : (front.map fun c => if c = '\n' then '\x00' else c) = front := by
    have one : ∀ c ∈ front, (if c = '\n' then '\x00' else c) = id c :=
      fun c there => if_neg (sendable c there).2.1
    rw [List.map_congr_left one, List.map_id]
  rw [vsfCmdioWrite, List.flatMap_append, List.map_append, escaped, mangled]
  simp only [List.append_assoc]
  exact ⟨_, rfl⟩

/-- The line that is read begins as it was sent. -/
theorem takeWhile_line {front : List Char} (sendable : ∀ c ∈ front, Sendable c)
    (back : List Char) :
    ∃ more, (front ++ back).takeWhile (fun c => c ≠ '\r' ∧ c ≠ '\n') = front ++ more := by
  rw [List.takeWhile_append_of_pos]
  · exact ⟨_, rfl⟩
  · intro c there
    exact decide_eq_true ⟨(sendable c there).2.2, (sendable c there).2.1⟩

/-! ## Taking a response apart -/

theorem terminated_append (separator : Char) (rest more : List Char) (fields : List (List Char)) :
    terminated separator rest fields ++ more = terminated separator (rest ++ more) fields := by
  induction fields with
  | nil => rfl
  | cons field fields ih => rw [terminated, terminated, List.append_assoc, List.cons_append, ih]

/-- A word reaches behind the fields. -/
theorem takeWhile_terminated (keep : Char → Bool) {separator : Char} (kept : keep separator = true)
    (rest : List Char) {fields : List (List Char)}
    (all : ∀ field ∈ fields, ∀ c ∈ field, keep c = true) :
    (terminated separator rest fields).takeWhile keep =
      terminated separator (rest.takeWhile keep) fields := by
  induction fields with
  | nil => rfl
  | cons field fields ih =>
    have first : ∀ c ∈ field, keep c = true := all field List.mem_cons_self
    rw [terminated, terminated, List.takeWhile_append_of_pos first,
      List.takeWhile_cons_of_pos kept,
      ih fun other member => all other (List.mem_cons_of_mem _ member)]

/-- What a job does with the word behind the code 226. -/
theorem foundIn_complete (text : List Char) (nonempty : text.takeWhile (· ≠ ' ') ≠ []) :
    foundIn ("226 ".toList ++ text) =
      if (relevantResponse (text.takeWhile (· ≠ ' '))).length > 14 then
        match messageValues (relevantResponse (text.takeWhile (· ≠ ' '))) with
        | .ok _ => .ok (1, relevantResponse (text.takeWhile (· ≠ ' ')))
        | .error _ => .ok (0, relevantResponse (text.takeWhile (· ≠ ' ')))
      else .ok (0, relevantResponse (text.takeWhile (· ≠ ' '))) := by
  have words := splitFields_second "226".toList text (by decide) nonempty
  have shape : "226 ".toList ++ text = "226".toList ++ ' ' :: text := rfl
  have code : (splitFields ' ' ("226 ".toList ++ text))[0]? = some "226".toList := by
    rw [shape, getElem?_of_prefix words (by simp)]
    rfl
  have word : (splitFields ' ' ("226 ".toList ++ text))[1]? = some (text.takeWhile (· ≠ ' ')) := by
    rw [shape, getElem?_of_prefix words (by simp)]
    rfl
  simp only [foundIn, elementAt, code, word, Option.elim_some, numberOf]
  rfl

/-- The fields of a reading are found in a response. -/
theorem splitFields_reading (symbols rest : List Char) :
    readingFields symbols <+: splitFields ',' (terminated ',' rest (readingFields symbols)) := by
  have long := fixedText_length (getPressureKpa symbols)
  exact splitFields_terminated rest [getHexAddressStr symbols, integerText (getTempC symbols)]
    (fun field member comma => (plain_readingFields member comma).2.2 rfl)
    (by intro empty; rw [empty] at long; exact absurd long (by decide))

/-- The relevant part of a response with the reading of a packet. -/
def relevantReading (symbols : List Char) : List Char :=
  terminated ',' (fixedText (getPressureKpa symbols))
    [getHexAddressStr symbols, integerText (getTempC symbols)]

theorem relevantResponse_reading (symbols rest : List Char) :
    relevantResponse (terminated ',' rest (readingFields symbols)) = relevantReading symbols := by
  have three : (readingFields symbols).length = 3 := rfl
  rw [relevantResponse, ← three, copyOfRange_of_prefix (splitFields_reading symbols rest)]
  simp [joinFields, readingFields, relevantReading, terminated, List.intercalate]

/-- The fields are found in the relevant part. -/
theorem elementAt_reading (symbols : List Char) {i : ℕ} {field : List Char}
    (there : (readingFields symbols)[i]? = some field) :
    elementAt (splitFields ',' (relevantReading symbols)) i = .ok field := by
  have long := fixedText_length (getPressureKpa symbols)
  have found : readingFields symbols <+: splitFields ',' (relevantReading symbols) :=
    splitFields_separated [getHexAddressStr symbols, integerText (getTempC symbols)]
      (List.cons_ne_nil _ _)
      (fun field member comma => (plain_readingFields member comma).2.2 rfl)
      (by intro empty; rw [empty] at long; exact absurd long (by decide))
  have inside : i < (readingFields symbols).length := (List.getElem?_eq_some_iff.mp there).1
  have same : (splitFields ',' (relevantReading symbols))[i]? = some field := by
    rw [← there]
    exact getElem?_of_prefix found inside
  rw [elementAt, same, Option.elim_some]

/-- The values of a packet, as the getters of a job read them. -/
structure Conveyed (symbols relevant : List Char) : Prop where
  /-- The digits of the address, behind a zero. -/
  hexAddress : getHexAddr relevant = .ok ('0' :: getHexAddressStr symbols)
  /-- The address. -/
  decAddress : getDecAddr relevant = .ok (getDecAddressVal symbols : ℤ)
  /-- The temperature. -/
  temperature : Job.getTempC relevant = .ok (getTempC symbols)
  /-- The pressure. -/
  pressure : getKpa relevant = .ok (getPressureKpa symbols)

/-- A job finds the reading of a packet. -/
def Reads (symbols resp : List Char) : Prop :=
  ∃ relevant, foundIn resp = .ok (1, relevant) ∧ Conveyed symbols relevant

/-- A job finds no reading, and throws nothing. -/
def Misses (resp : List Char) : Prop := ∃ relevant, foundIn resp = .ok (0, relevant)

/-- The address field is refused or read by its length. -/
theorem getHexAddr_reading (symbols : List Char) :
    getHexAddr (relevantReading symbols) =
      if getDecAddressVal symbols < 2 ^ 16 then .error .arrayIndexOutOfBounds
      else .ok ('0' :: getHexAddressStr symbols) := by
  have plain : trim (getHexAddressStr symbols) = getHexAddressStr symbols :=
    trim_plain fun c there => plain_hexText there
  have digits : (getHexAddressStr symbols).length ≤ 4 ↔ getDecAddressVal symbols < 2 ^ 16 :=
    hexText_length_le (by decide)
  rw [getHexAddr_of_element (elementAt_reading symbols (i := 0) rfl), plain]
  by_cases short : getDecAddressVal symbols < 2 ^ 16
  · rw [if_pos short, if_pos (digits.mpr short)]
  · rw [if_neg short, if_neg fun few => short (digits.mp few)]
    rfl

/-- The temperature comes back. -/
theorem getTempC_reading (symbols : List Char) :
    Job.getTempC (relevantReading symbols) = .ok (getTempC symbols) := by
  have plain : trim (integerText (getTempC symbols)) = integerText (getTempC symbols) :=
    trim_plain fun c there => plain_integerText there
  have bound := symbolsValue_lt symbols 52 59
  have fits : -2147483648 ≤ getTempC symbols ∧ getTempC symbols < 2147483648 := by
    unfold getTempC
    omega
  rw [getTempC_of_element (elementAt_reading symbols (i := 1) rfl), plain, parseInt_integerText,
    if_pos fits]
  rfl

/-- The pressure comes back. -/
theorem getKpa_reading (symbols : List Char) :
    getKpa (relevantReading symbols) = .ok (getPressureKpa symbols) := by
  have plain : trim (fixedText (getPressureKpa symbols)) = fixedText (getPressureKpa symbols) :=
    trim_plain fun c there => plain_fixedText there
  have exact : |getPressureKpa symbols| * 1000000 =
      (((symbolsValue symbols 36 43 : ℤ) * 25 - 1000).natAbs * 100000 : ℕ) := by
    have tenths : getPressureKpa symbols =
        (((symbolsValue symbols 36 43 : ℤ) * 25 - 1000 : ℤ) : ℚ) / 10 := by
      unfold getPressureKpa
      push_cast
      ring
    rw [tenths, abs_div, ← Int.cast_abs, Int.abs_eq_natAbs]
    norm_num
    ring
  rw [getKpa_of_element (elementAt_reading symbols (i := 2) rfl), plain,
    parseDouble_fixedText exact]
  rfl

/-- What a job makes of a response with the reading of a packet. -/
theorem foundIn_reading (symbols more : List Char) :
    foundIn ("226 ".toList ++ (readingText symbols ++ more)) =
      .ok (if getDecAddressVal symbols < 2 ^ 16 then 0 else 1, relevantReading symbols) := by
  have shape : readingText symbols ++ more = terminated ',' more (readingFields symbols) :=
    terminated_append ',' [] more (readingFields symbols)
  have word : (readingText symbols ++ more).takeWhile (· ≠ ' ') =
      terminated ',' (more.takeWhile (· ≠ ' ')) (readingFields symbols) := by
    rw [shape]
    apply takeWhile_terminated _ (by decide)
    intro field member c there
    have visible := (plain_readingFields member there).1
    exact decide_eq_true (ne_of_gt visible)
  have nonempty : (readingText symbols ++ more).takeWhile (· ≠ ' ') ≠ [] := by
    rw [word, readingFields, terminated]
    simp
  rw [foundIn_complete _ nonempty, word, relevantResponse_reading, messageValues,
    getHexAddr_reading]
  by_cases short : getDecAddressVal symbols < 2 ^ 16
  · rw [if_pos short, if_pos short]
    split
    · rfl
    · rfl
  · have four : ¬ (getHexAddressStr symbols).length ≤ 4 :=
      fun few => short ((hexText_length_le (by decide)).mp few)
    have long := fixedText_length (getPressureKpa symbols)
    have enough : (relevantReading symbols).length > 14 := by
      simp only [relevantReading, terminated, List.length_append, List.length_cons]
      omega
    rw [if_neg short, if_neg short, if_pos enough, getTempC_reading, getKpa_reading]
    rfl

/-- A response that carries a reading: what comes back, and when. -/
theorem reads_or_misses (symbols more : List Char) :
    (2 ^ 16 ≤ getDecAddressVal symbols →
        Reads symbols ("226 ".toList ++ (readingText symbols ++ more))) ∧
      (getDecAddressVal symbols < 2 ^ 16 →
        Misses ("226 ".toList ++ (readingText symbols ++ more))) := by
  have found := foundIn_reading symbols more
  constructor
  · intro enough
    rw [if_neg (Nat.not_lt_of_le enough)] at found
    apply Exists.intro (relevantReading symbols)
    apply And.intro found
    have hexAddress := getHexAddr_reading symbols
    rw [if_neg (Nat.not_lt_of_le enough)] at hexAddress
    constructor
    · exact hexAddress
    · have small : getDecAddressVal symbols < 2 ^ 31 :=
        lt_of_lt_of_le (symbolsValue_lt symbols 2 29) (by decide)
      have padded : parseHex ('0' :: hexText (getDecAddressVal symbols)) =
          some (getDecAddressVal symbols : ℤ) := parseHex_hexText small 1
      rw [getDecAddr_of_hexAddr hexAddress, getHexAddressStr, padded]
      rfl
    · exact getTempC_reading symbols
    · exact getKpa_reading symbols
  · intro short
    rw [if_pos short] at found
    exact ⟨_, found⟩

/-! ## The replies -/

/-- A failed analysis is replied to with three empty fields. -/
theorem misses_empty (more : List Char) : Misses ("226 ".toList ++ (",,,".toList ++ more)) := by
  have shape : ",,,".toList ++ more = terminated ',' more (List.replicate (2 + 1) []) := rfl
  have word : (",,,".toList ++ more).takeWhile (· ≠ ' ') =
      terminated ',' (more.takeWhile (· ≠ ' ')) (List.replicate (2 + 1) []) := by
    rw [shape]
    apply takeWhile_terminated _ (by decide)
    intro field member c there
    rw [List.eq_of_mem_replicate member] at there
    exact absurd there List.not_mem_nil
  have nonempty : (",,,".toList ++ more).takeWhile (· ≠ ' ') ≠ [] := by
    rw [word]
    exact List.cons_ne_nil _ _
  have short : (relevantResponse ((",,,".toList ++ more).takeWhile (· ≠ ' '))).length ≤ 14 := by
    rw [word, relevantResponse]
    rcases splitFields_empty ',' (more.takeWhile (· ≠ ' ')) 2 with none | empty
    · rw [none]
      decide
    · have three : (List.replicate (2 + 1) ([] : List Char)).length = 3 := rfl
      rw [← three, copyOfRange_of_prefix empty]
      decide
  have found := foundIn_complete (",,,".toList ++ more) nonempty
  rw [if_neg (Nat.not_lt_of_le short)] at found
  exact ⟨_, found⟩

/-- The FTP client hands on the line that the server sent, up to its end. -/
def HandsOn (getReplyString : List Char → List Char) : Prop :=
  ∀ sent, ∃ rest, getReplyString sent = sent.takeWhile (fun c => c ≠ '\r' ∧ c ≠ '\n') ++ rest

/-- The front of a text arrives behind the code. -/
theorem HandsOn.front {getReplyString : List Char → List Char} (hands : HandsOn getReplyString)
    {front : List Char} (sendable : ∀ c ∈ front, Sendable c) (back : List Char) :
    ∃ more, getReplyString (vsfCmdioWrite (front ++ back)) = "226 ".toList ++ (front ++ more) := by
  rcases vsfCmdioWrite_append sendable back with ⟨behind, sent⟩
  have whole : ∀ c ∈ "226 ".toList ++ front, Sendable c := by
    intro c there
    rcases List.mem_append.mp there with code | text
    · have each : ∀ c ∈ "226 ".toList, Sendable c := by simp [Sendable]
      exact each c code
    · exact sendable c text
  rcases hands (vsfCmdioWrite (front ++ back)) with ⟨rest, line⟩
  rcases takeWhile_line whole behind with ⟨middle, begins⟩
  rw [line, sent, begins]
  exact ⟨middle ++ rest, by simp only [List.append_assoc]⟩

theorem sendable_readingText {symbols : List Char} : ∀ c ∈ readingText symbols, Sendable c := by
  have all (fields : List (List Char)) (plain : ∀ field ∈ fields, ∀ c ∈ field, Plain c) :
      ∀ c ∈ terminated ',' [] fields, Sendable c := by
    induction fields with
    | nil => exact fun c there => absurd there List.not_mem_nil
    | cons field fields ih =>
      intro c there
      rcases List.mem_append.mp there with here | later
      · exact (plain field List.mem_cons_self c here).sendable
      · rcases List.mem_cons.mp later with rfl | rest
        · decide
        · exact ih (fun other member => plain other (List.mem_cons_of_mem _ member)) c rest
  exact all (readingFields symbols) fun field member c there => plain_readingFields member there

/-- Both replies to a successful analysis carry the reading, and both replies to a failed one are
read as such. -/
theorem replies_read {getReplyString : List Char → List Char} (hands : HandsOn getReplyString)
    (symbols fn : List Char) :
    (2 ^ 16 ≤ getDecAddressVal symbols →
        Reads symbols (getReplyString (vsfCmdioWrite (fleetReply 1 symbols fn))) ∧
          Reads symbols (nativeReply 1 symbols)) ∧
      (getDecAddressVal symbols < 2 ^ 16 →
        Misses (getReplyString (vsfCmdioWrite (fleetReply 1 symbols fn))) ∧
          Misses (nativeReply 1 symbols)) ∧
      ∀ analyzedOk, analyzedOk ≠ 1 →
        Misses (getReplyString (vsfCmdioWrite (fleetReply analyzedOk symbols fn))) ∧
          Misses (nativeReply analyzedOk symbols) := by
  have server : ∃ more, getReplyString (vsfCmdioWrite (fleetReply 1 symbols fn)) =
      "226 ".toList ++ (readingText symbols ++ more) := by
    rw [fleetReply, if_pos rfl]
    exact hands.front sendable_readingText _
  have native : nativeReply 1 symbols = "226 ".toList ++ (readingText symbols ++ []) := by
    rw [nativeReply, if_pos rfl, List.append_nil]
  rcases server with ⟨more, server⟩
  constructor
  · intro long
    rw [server, native]
    exact ⟨(reads_or_misses symbols more).1 long, (reads_or_misses symbols []).1 long⟩
  · constructor
    · intro short
      rw [server, native]
      exact ⟨(reads_or_misses symbols more).2 short, (reads_or_misses symbols []).2 short⟩
    · intro analyzedOk failed
      have commas : ∀ c ∈ ",,,".toList, Sendable c := by simp [Sendable]
      constructor
      · rw [fleetReply, if_neg failed]
        rcases hands.front commas (fn.take (249 - ",,,".toList.length)) with ⟨rest, line⟩
        rw [line]
        exact misses_empty rest
      · rw [nativeReply, if_neg failed]
        exact misses_empty []

/-- A packet with one address bit, which is set or not, and 220 kPa. -/
def shownPacket (high : Bool) : List Bool :=
  true :: true :: high :: (List.replicate 33 false ++ true :: List.replicate 8 false ++
    List.replicate 7 true ++ List.replicate 16 false ++ [true])

/-- An accepted packet whose reading arrives. -/
theorem replies_read_shown :
    validatePacket ((shownPacket true).map bitOf) = true ∧
      Reads ((shownPacket true).map digit)
        (vsfCmdioWrite (fleetReply 1 ((shownPacket true).map digit) "/tmp/sample".toList)) ∧
      Reads ((shownPacket true).map digit) (nativeReply 1 ((shownPacket true).map digit)) := by
  have hands : HandsOn (fun sent => sent) := by
    intro sent
    exact ⟨sent.dropWhile _, (List.takeWhile_append_dropWhile).symm⟩
  have long : 2 ^ 16 ≤ getDecAddressVal ((shownPacket true).map digit) := by decide
  constructor
  · decide +kernel
  · exact (replies_read hands ((shownPacket true).map digit) "/tmp/sample".toList).1 long

/-- An accepted packet whose address is zero is not found by a job. -/
theorem small_address_missed :
    ¬ ∀ decoded : List Bool, decoded.length = 69 → validatePacket (decoded.map bitOf) = true →
      Reads (decoded.map digit) (nativeReply 1 (decoded.map digit)) := by
  intro claim
  have accepted : validatePacket ((shownPacket false).map bitOf) = true := by decide +kernel
  rcases claim (shownPacket false) (by decide) accepted with ⟨relevant, found, -⟩
  have short : getDecAddressVal ((shownPacket false).map digit) < 2 ^ 16 := by decide
  rcases (reads_or_misses ((shownPacket false).map digit) []).2 short with ⟨other, missed⟩
  rw [List.append_nil] at missed
  rw [nativeReply, if_pos rfl, missed] at found
  exact absurd (congrArg Prod.fst (Except.ok.inj found)) Nat.zero_ne_one

end FcTpms.Decoder

import GoImap.Wire.Reading

/-!
# Where a command ends

A command is the text up to the first line end that does not close the
announcement of a literal, together with the payloads of its literals.  The
payload of a non-synchronizing literal follows its announcement at once; that
of a synchronizing one only when the server asks for it.

The scan follows this definition over the log of a decoder, without looking at
the decoder's own bookkeeping.
-/

namespace GoImap.Wire

/-! ## Announcements -/

def dropCR (line : Bytes) : Bytes :=
  if line.getLast? = some CR then line.dropLast else line

/-- Size and kind of the literal a line announces with its last octets, the
line end excluded.  The number of digits is not limited. -/
def announcement (line : Bytes) : Option (Nat × Bool) :=
  match line.reverse with
  | [] => none
  | last :: before =>
    let nonSync : Bool := before.head? = some plus
    let number := if nonSync then before.tail else before
    let digits := number.takeWhile isDigit
    if last = closeBrace ∧ digits ≠ [] ∧ (number.dropWhile isDigit).head? = some openBrace then
      some (decimal digits.reverse, nonSync)
    else none

def nonSyncSize (line : Bytes) : Option Nat :=
  match announcement (dropCR line) with
  | some (size, true) => some size
  | _ => none

/-- Some line end among the octets closes a line of the given kind, when they
are read on from the beginning of a line. -/
def closes (kind : Bytes → Bool) : Bytes → Bytes → Bool
  | _, [] => false
  | line, byte :: rest =>
    if byte = LF then kind line || closes kind [] rest
    else closes kind (line ++ [byte]) rest

variable {kind : Bytes → Bool} {bytes line digits : Bytes} {byte : UInt8}

theorem closes_of_no_LF (line : Bytes) (h : LF ∉ bytes) : closes kind line bytes = false := by
  induction bytes generalizing line with
  | nil => rfl
  | cons byte rest ih =>
    rw [List.mem_cons, not_or] at h
    rw [closes, if_neg (Ne.symm h.1)]
    exact ih _ h.2

theorem closes_line (line : Bytes) (h : LF ∉ bytes) :
    closes kind line (bytes ++ [LF]) = kind (line ++ bytes) := by
  induction bytes generalizing line with
  | nil => simp [closes]
  | cons byte rest ih =>
    rw [List.mem_cons, not_or] at h
    rw [List.cons_append, closes, if_neg (Ne.symm h.1), ih _ h.2]
    simp

theorem closes_mono {other : Bytes → Bool} (himp : ∀ line, other line = true → kind line = true)
    (h : closes kind line bytes = false) : closes other line bytes = false := by
  induction bytes generalizing line with
  | nil => rfl
  | cons byte rest ih =>
    rw [closes] at h ⊢
    split_ifs at h ⊢ with hbyte
    · rw [Bool.or_eq_false_iff] at h ⊢
      refine ⟨?_, ih h.2⟩
      cases hother : other line with
      | false => rfl
      | true => simp [himp line hother] at h
    · exact ih h

def announcesNonSync (line : Bytes) : Bool := (nonSyncSize line).isSome

def owesPayload (line : Bytes) : Bool := 0 < (nonSyncSize line).getD 0

theorem announcesNonSync_of_owesPayload (h : owesPayload line = true) :
    announcesNonSync line = true := by
  unfold owesPayload at h
  unfold announcesNonSync
  cases hsize : nonSyncSize line with
  | none => simp [hsize] at h
  | some size => rfl

theorem takeWhile_digits (stop : UInt8) (rest : Bytes)
    (hdigits : ∀ digit ∈ digits, isDigit digit = true) (hstop : isDigit stop = false) :
    (digits ++ stop :: rest).takeWhile isDigit = digits ∧
      (digits ++ stop :: rest).dropWhile isDigit = stop :: rest := by
  rw [List.takeWhile_append_of_pos hdigits, List.dropWhile_append_of_pos hdigits]
  simp [hstop]

theorem announcement_announced (line : Bytes) (nonSync : Bool)
    (hdigits : digits ≠ [] ∧ ∀ digit ∈ digits, isDigit digit = true) :
    announcement (line ++ Decoder.announced digits nonSync) = some (decimal digits, nonSync) := by
  have hreverse : ∀ digit ∈ digits.reverse, isDigit digit = true := by
    simpa using hdigits.2
  obtain ⟨htake, hdrop⟩ := takeWhile_digits openBrace line.reverse hreverse (by decide)
  have hhead : (digits.reverse ++ openBrace :: line.reverse).head? ≠ some plus := by
    cases hcases : digits.reverse with
    | nil => simp [hdigits.1] at hcases
    | cons digit rest =>
      have hdigit := hreverse digit (by simp [hcases])
      intro hplus
      have hsame : digit = plus := by simpa using hplus
      rw [hsame] at hdigit
      exact absurd hdigit (by decide)
  cases nonSync with
  | true =>
    have hline : (line ++ Decoder.announced digits true).reverse =
        closeBrace :: plus :: (digits.reverse ++ openBrace :: line.reverse) := by
      simp [Decoder.announced]
    simp [announcement, hline, htake, hdrop, hdigits.1]
  | false =>
    have hline : (line ++ Decoder.announced digits false).reverse =
        closeBrace :: (digits.reverse ++ openBrace :: line.reverse) := by
      simp [Decoder.announced]
    simp only [announcement, hline, hhead]
    simp [htake, hdrop, hdigits.1]

theorem announcement_other (line : Bytes) (h : byte ≠ closeBrace) :
    announcement (line ++ [byte]) = none := by
  simp [announcement, h]

theorem dropCR_CR (line : Bytes) : dropCR (line ++ [CR]) = line := by
  simp [dropCR]

theorem dropCR_other (line : Bytes) (h : byte ≠ CR) : dropCR (line ++ [byte]) = line ++ [byte] := by
  simp [dropCR, h]

theorem dropCR_announced (line digits : Bytes) (nonSync : Bool) :
    dropCR (line ++ Decoder.announced digits nonSync) =
      line ++ Decoder.announced digits nonSync := by
  rw [Decoder.announced, ← List.append_assoc]
  exact dropCR_other _ (by decide)

example : announcement (ascii "A1 LOGIN \x7b007+\x7d") = some (7, true) := by
  decide

/-! ## Scanning -/

inductive Place where
  | start
  | line (text : Bytes)
  | payload (left : Nat) (nonSync : Bool)
  | announced (size : Nat)
  deriving DecidableEq, Repr

namespace Place

def enter (size : Nat) (nonSync : Bool) : Place :=
  if size = 0 then .line [] else .payload size nonSync

def lineText : Place → Bytes
  | .line text => text
  | _ => []

def owed : Place → Nat
  | .payload left true => left
  | _ => 0

def inPayload : Place → Bool
  | .payload _ _ => true
  | _ => false

def afterLine : Place → Bool
  | .start => true
  | .announced _ => true
  | _ => false

end Place

/-- How many commands have ended, the current place, and whether octets of a
non-synchronizing literal were read as text. -/
structure Scan where
  ended : Nat := 0
  place : Place := .start
  misread : Bool := false
  deriving DecidableEq, Repr

namespace Scan

def closeLine (scan : Scan) (line : Bytes) : Scan :=
  match announcement (dropCR line) with
  | none =>
    { scan with ended := scan.ended + 1, place := .start }
  | some (size, true) => { scan with place := .enter size true }
  | some (size, false) =>
    { scan with ended := scan.ended + 1, place := .announced size }

def textOctet (scan : Scan) (byte : UInt8) : Scan :=
  match scan.place with
  | .payload left nonSync =>
    { scan with place := .enter (left - 1) nonSync, misread := scan.misread || nonSync }
  | _ =>
    if byte = LF then scan.closeLine scan.place.lineText
    else { scan with place := .line (scan.place.lineText ++ [byte]) }

/-- An octet that was not read as text.  Outside a payload it belongs to a
literal this definition does not know. -/
def dataOctet (scan : Scan) : Scan :=
  match scan.place with
  | .payload left nonSync => { scan with place := .enter (left - 1) nonSync }
  | _ => { scan with place := .line [] }

def accept (scan : Scan) : Scan :=
  match scan.place with
  | .announced size =>
    { scan with ended := scan.ended - 1, place := .enter size false }
  | _ => scan

def event (scan : Scan) : Event → Scan
  | .octet byte .text => scan.textOctet byte
  | .octet _ _ => scan.dataOctet
  | .accepted => scan.accept

def text (scan : Scan) (bytes : Bytes) : Scan := bytes.foldl textOctet scan

def data (scan : Scan) (bytes : Bytes) : Scan := bytes.foldl (fun scan _ => scan.dataOctet) scan

def AtEnd (scan : Scan) : Prop := scan.ended = 1 ∧ scan.place.afterLine = true

instance (scan : Scan) : Decidable scan.AtEnd := inferInstanceAs (Decidable (_ ∧ _))

end Scan

def scan (log : List Event) : Scan := log.foldl Scan.event {}

theorem scan_append (log events : List Event) :
    scan (log ++ events) = events.foldl Scan.event (scan log) := by
  simp [scan]

theorem scan_textEvents (log : List Event) (bytes : Bytes) :
    scan (log ++ textEvents bytes) = (scan log).text bytes := by
  rw [scan_append, textEvents, List.foldl_map]
  rfl

theorem scan_dataEvents (log : List Event) (bytes : Bytes) {role : Role} (hrole : role ≠ .text) :
    scan (log ++ bytes.map (Event.octet · role)) = (scan log).data bytes := by
  rw [scan_append, List.foldl_map]
  cases role with
  | text => exact absurd rfl hrole
  | data | skipped => rfl

theorem scan_accepted (log : List Event) : scan (log ++ [.accepted]) = (scan log).accept := by
  simp [scan_append, Scan.event]

def skippedOctets (log : List Event) : Nat := log.countP fun event =>
    match event with
    | .octet _ .skipped => true
    | _ => false

@[simp] theorem skippedOctets_append (log events : List Event) :
    skippedOctets (log ++ events) = skippedOctets log + skippedOctets events :=
  List.countP_append

@[simp] theorem skippedOctets_octets (bytes : Bytes) (role : Role) :
    skippedOctets (bytes.map (Event.octet · role)) =
      if role = .skipped then bytes.length else 0 := by
  cases role <;> simp [skippedOctets, List.countP_map, Function.comp_def]

@[simp] theorem skippedOctets_textEvents (bytes : Bytes) :
    skippedOctets (textEvents bytes) = 0 := by
  simp [textEvents]

namespace Place

theorem enter_pos {size : Nat} (nonSync : Bool) (h : 0 < size) :
    enter size nonSync = .payload size nonSync := by
  simp [enter, Nat.ne_of_gt h]

@[simp] theorem owed_enter (size : Nat) (nonSync : Bool) :
    (enter size nonSync).owed = if nonSync then size else 0 := by
  unfold enter
  cases nonSync <;> split_ifs <;> simp_all [owed]

@[simp] theorem afterLine_enter (size : Nat) (nonSync : Bool) :
    (enter size nonSync).afterLine = false := by
  unfold enter
  split_ifs <;> rfl

@[simp] theorem lineText_enter (size : Nat) (nonSync : Bool) :
    (enter size nonSync).lineText = [] := by
  unfold enter
  split_ifs <;> rfl

theorem owed_of_not_inPayload {place : Place} (h : place.inPayload = false) : place.owed = 0 := by
  cases place <;> simp_all [inPayload, owed]

end Place

namespace Scan

variable {scan : Scan}

theorem text_append (scan : Scan) (first second : Bytes) :
    scan.text (first ++ second) = (scan.text first).text second := by
  simp [text]

section

variable (hplace : scan.place.inPayload = false)

include hplace

theorem textOctet_char (hbyte : byte ≠ LF) :
    scan.textOctet byte = { scan with place := .line (scan.place.lineText ++ [byte]) } := by
  unfold textOctet
  cases hcases : scan.place <;> simp_all [Place.inPayload]

theorem textOctet_LF : scan.textOctet LF = scan.closeLine scan.place.lineText := by
  unfold textOctet
  cases hcases : scan.place <;> simp_all [Place.inPayload]

theorem text_line (hline : LF ∉ bytes) (hsome : bytes ≠ []) :
    scan.text bytes = { scan with place := .line (scan.place.lineText ++ bytes) } := by
  induction bytes generalizing scan with
  | nil => exact absurd rfl hsome
  | cons byte rest ih =>
    rw [List.mem_cons, not_or] at hline
    have hfirst := textOctet_char hplace (Ne.symm hline.1)
    rw [show scan.text (byte :: rest) = (scan.textOctet byte).text rest from rfl, hfirst]
    by_cases hrest : rest = []
    · subst hrest
      rfl
    · rw [ih rfl hline.2 hrest]
      simp [Place.lineText]

theorem text_closeLine (hline : LF ∉ bytes) :
    scan.text (bytes ++ [LF]) = scan.closeLine (scan.place.lineText ++ bytes) := by
  by_cases hsome : bytes = []
  · subst hsome
    simpa [text] using textOctet_LF hplace
  · rw [text_append, text_line hplace hline hsome]
    exact @textOctet_LF { scan with place := .line (scan.place.lineText ++ bytes) } rfl

end

theorem closeLine_announced (scan : Scan) (line : Bytes) {lead : Bytes} (nonSync : Bool)
    (hdigits : digits ≠ [] ∧ ∀ digit ∈ digits, isDigit digit = true)
    (hlead : lead ∈ Decoder.lineLeads) :
    scan.closeLine (line ++ (Decoder.announced digits nonSync ++ lead)) =
      if SP ∈ lead then { scan with ended := scan.ended + 1, place := .start }
      else if nonSync then
        { scan with place := .enter (decimal digits) true }
      else
        { scan with
          ended := scan.ended + 1
          place := .announced (decimal digits) } := by
  have hplain := announcement_announced line nonSync hdigits
  have hspace := announcement_other (line ++ Decoder.announced digits nonSync)
    (show SP ≠ closeBrace by decide)
  rw [← List.append_assoc, closeLine]
  simp only [Decoder.lineLeads, List.mem_cons, List.not_mem_nil, or_false] at hlead
  rcases hlead with rfl | rfl | rfl | rfl
  · rw [List.append_nil, dropCR_announced, hplain]
    cases nonSync <;> rfl
  · rw [dropCR_other _ (show SP ≠ CR by decide), hspace]
    rfl
  · rw [dropCR_CR, hplain]
    cases nonSync <;> rfl
  · rw [show [SP, CR] = [SP] ++ [CR] from rfl, ← List.append_assoc, dropCR_CR, hspace]
    rfl

theorem data_enter (bytes : Bytes) {left : Nat} {nonSync : Bool}
    (hplace : scan.place = .enter left nonSync) (hle : bytes.length ≤ left) :
    scan.data bytes = { scan with place := .enter (left - bytes.length) nonSync } := by
  induction bytes generalizing scan left with
  | nil => simp [data, ← hplace]
  | cons byte rest ih =>
    have hpos : 0 < left := by
      simp only [List.length_cons] at hle
      omega
    have hfirst : scan.dataOctet = { scan with place := .enter (left - 1) nonSync } := by
      rw [Place.enter_pos nonSync hpos] at hplace
      simp [dataOctet, hplace]
    rw [show scan.data (byte :: rest) = scan.dataOctet.data rest from rfl,
      hfirst, ih rfl (by simp only [List.length_cons] at hle; omega)]
    simp only [List.length_cons]
    congr 2
    omega

theorem data_outside (hplace : scan.place.inPayload = false) (hsome : bytes ≠ []) :
    scan.data bytes = { scan with place := .line [] } := by
  induction bytes generalizing scan with
  | nil => exact absurd rfl hsome
  | cons byte rest ih =>
    have hfirst : scan.dataOctet = { scan with place := .line [] } := by
      unfold dataOctet
      cases hcases : scan.place <;> simp_all [Place.inPayload]
    rw [show scan.data (byte :: rest) = scan.dataOctet.data rest from rfl, hfirst]
    by_cases hrest : rest = []
    · subst hrest
      rfl
    · exact @ih { scan with place := .line [] } rfl hrest

@[simp] theorem closeLine_lineText (scan : Scan) (line : Bytes) :
    (scan.closeLine line).place.lineText = [] := by
  unfold closeLine
  split
  · rfl
  · simp
  · rfl

theorem closeLine_place (scan : Scan) (place : Place) (line : Bytes) :
    { scan with place := place }.closeLine line = scan.closeLine line := by
  unfold closeLine
  split <;> rfl

@[simp] theorem closeLine_misread (scan : Scan) (line : Bytes) :
    (scan.closeLine line).misread = scan.misread := by
  unfold closeLine
  split <;> rfl

theorem closeLine_owed (scan : Scan) (line : Bytes) :
    (scan.closeLine line).place.owed = (nonSyncSize line).getD 0 := by
  unfold closeLine nonSyncSize
  generalize announcement (dropCR line) = found
  rcases found with _ | ⟨size, _ | _⟩
  · rfl
  · rfl
  · simp

theorem closeLine_inPayload (scan : Scan) (line : Bytes) :
    (scan.closeLine line).place.inPayload = owesPayload line := by
  unfold closeLine owesPayload nonSyncSize
  generalize announcement (dropCR line) = found
  rcases found with _ | ⟨size, _ | _⟩
  · rfl
  · rfl
  · cases size <;> rfl

theorem closeLine_atEnd (h : scan.ended = 0) :
    (scan.closeLine line).AtEnd ↔ announcesNonSync line = false := by
  unfold closeLine announcesNonSync nonSyncSize AtEnd
  generalize announcement (dropCR line) = found
  rcases found with _ | ⟨size, _ | _⟩
  · simp [h, Place.afterLine]
  · simp [h, Place.afterLine]
  · simp

@[simp] theorem data_ended (scan : Scan) (bytes : Bytes) :
    (scan.data bytes).ended = scan.ended := by
  induction bytes generalizing scan with
  | nil => rfl
  | cons byte rest ih =>
    rw [show scan.data (byte :: rest) = scan.dataOctet.data rest from rfl, ih]
    unfold dataOctet
    split <;> rfl

theorem text_outside (hplace : scan.place.inPayload = false)
    (hcloses : closes owesPayload scan.place.lineText bytes = false) :
    (scan.text bytes).place.inPayload = false ∧ (scan.text bytes).misread = scan.misread := by
  induction bytes generalizing scan with
  | nil => exact ⟨hplace, rfl⟩
  | cons byte rest ih =>
    rw [show scan.text (byte :: rest) = (scan.textOctet byte).text rest from rfl]
    by_cases hbyte : byte = LF
    · subst hbyte
      simp only [closes, if_true, Bool.or_eq_false_iff] at hcloses
      rw [textOctet_LF hplace, ← scan.closeLine_misread scan.place.lineText]
      exact ih (by rw [closeLine_inPayload]; exact hcloses.1)
        (by rw [closeLine_lineText]; exact hcloses.2)
    · rw [textOctet_char hplace hbyte]
      simp only [closes, hbyte, if_false] at hcloses
      exact @ih { scan with place := _ } rfl hcloses

end Scan

end GoImap.Wire

import GoImap.Wire.Facing
import GoImap.Wire.Script

/-!
# Writing in pieces

Calls that are in order write one piece each, and what they write together is
the pieces joined.
-/

namespace GoImap.Wire

namespace Op

variable (settings : EncoderOptions)

def form : Op → StringForm
  | .quoted s => .quoted s
  | .string s => settings.stringForm s
  | .number64 v => .atom (formatUint v.toNat)
  | .text s | .flag s | .numSet s => .atom s
  | _ => .atom []

def Sends : Op → Prop
  | .text _ | .quoted _ => True
  | .string s => settings.validQuoted s = true ∨ settings.MaySend s
  | .number64 v => 0 ≤ v
  | .flag f => f = flagWildcard ∨ isValidFlag f = true
  | .numSet s => s ≠ []
  | _ => False

def direct : Op → Bool
  | .text _ | .quoted _ | .string _ | .number64 _ | .flag _ | .numSet _ => true
  | _ => false

@[simp] theorem sends_text (s : Bytes) : (text s).Sends settings := trivial

@[simp] theorem sends_quoted (s : Bytes) : (quoted s).Sends settings := trivial

end Op

namespace Encoder

variable {settings : EncoderOptions}

theorem apply_sends (before : Bytes) {op : Op} (h : op.Sends settings) :
    apply settings ⟨before, none, false⟩ op =
      (⟨before ++ (op.form settings).bytes, none, false⟩, .done) := by
  cases op with
  | text s => simp [apply, Op.form]
  | quoted s =>
    simp [apply, Op.form, quoted, StringForm.quoted, StringForm.bytes]
  | string s => simp [apply, Op.form, string_ready before h]
  | number64 v =>
    have hpos := Int.not_lt.mpr h
    simp [apply, Op.form, hpos, number64]
  | flag flag =>
    have hvalid : ¬(flag ≠ flagWildcard ∧ !isValidFlag flag) := by
      rcases h with h | h
      · simp [h]
      · simp [h]
    rw [apply, Encoder.flag, if_neg hvalid]
    simp [Op.form]
  | numSet s =>
    have hne : s ≠ [] := h
    simp [apply, Op.form, numSet, hne]
  | _ => cases h

theorem run_sends (before : Bytes) {ops : List Op} (h : ∀ op ∈ ops, op.Sends settings) :
    run settings ⟨before, none, false⟩ ops =
      (⟨before ++ StringForm.joined (ops.map (Op.form settings)), none, false⟩, .done) := by
  induction ops generalizing before with
  | nil => simp [run]
  | cons op rest ih =>
    obtain ⟨hop, hrest⟩ := List.forall_mem_cons.mp h
    simp [run, apply_sends before hop, ih _ hrest]

theorem apply_refused (before : Bytes) {op : Op} (hdirect : op.direct = true)
    (h : ¬op.Sends settings) :
    (apply settings ⟨before, none, false⟩ op).2 ≠ .done ∨
      (apply settings ⟨before, none, false⟩ op).1.err.isSome = true := by
  cases op with
  | text s | quoted s => exact absurd trivial h
  | string s =>
    obtain ⟨hquoted, hsend⟩ := not_or.mp h
    simp only [Bool.not_eq_true] at hquoted
    rw [EncoderOptions.MaySend, not_or, not_or, not_or] at hsend
    obtain ⟨hserver, hplus, hminus, hgranted⟩ := hsend
    have hclient : settings.side = .client := by
      cases hside : settings.side with
      | client => rfl
      | server => exact absurd hside hserver
    have hsync : settings.needsSync s = true := by
      simp [EncoderOptions.needsSync]
      grind
    rw [apply, string, hquoted, stringLiteral, hsync]
    rcases hwait : settings.newContinuationRequest with _ | ⟨err⟩ | ⟨⟨⟩⟩
    · simp [setErr]
    · simp [openLiteral_ready, writeLiteral, setErr]
    · exact absurd hwait hgranted
  | number64 v =>
    simp [apply, Int.not_le.mp h]
  | flag flag =>
    right
    have hbad : flag ≠ flagWildcard ∧ !isValidFlag flag := by
      simpa [Op.Sends] using h
    rw [apply, Encoder.flag, if_pos hbad]
    exact setErr_isSome _ _
  | numSet s =>
    right
    have hempty : s = [] := by simpa [Op.Sends] using h
    rw [apply, Encoder.numSet, if_pos hempty]
    exact setErr_isSome _ _
  | _ => cases hdirect

theorem sends_of_run (before : Bytes) {ops : List Op} (hdirect : ∀ op ∈ ops, op.direct = true)
    (hdone : (run settings ⟨before, none, false⟩ ops).2 = .done)
    (herr : (run settings ⟨before, none, false⟩ ops).1.err = none) :
    ∀ op ∈ ops, op.Sends settings := by
  induction ops generalizing before with
  | nil => simp
  | cons op rest ih =>
    obtain ⟨hop, hrest⟩ := List.forall_mem_cons.mp hdirect
    by_cases hsends : op.Sends settings
    · rw [run, apply_sends before hsends] at hdone herr
      exact List.forall_mem_cons.mpr ⟨hsends, ih _ hrest hdone herr⟩
    · exfalso
      have hrefused := apply_refused before hop hsends
      rw [run] at hdone herr
      rcases happly : apply settings ⟨before, none, false⟩ op with
        ⟨next, outcome⟩
      rw [happly] at hdone herr hrefused
      cases outcome with
      | done =>
        have hkept := @run_keeps settings next rest (by simpa using hrefused)
        simp [herr] at hkept
      | failed err | panicked => cases hdone

theorem panics_notMem_of_done {enc : Encoder} {ops : List Op}
    (h : (run settings enc ops).2 = .done) : Op.panics ∉ ops := by
  induction ops generalizing enc with
  | nil => simp
  | cons op rest ih =>
    rw [run] at h
    rcases happly : enc.apply settings op with ⟨next, outcome⟩
    rw [happly] at h
    cases outcome with
    | done =>
      have hop : Op.panics ≠ op := by
        rintro rfl
        cases happly
      simpa [hop] using ih h
    | failed err | panicked => cases h

end Encoder

/-! ## Separators -/

section Intercalate

variable {α β : Type} {separator : List α}

theorem map_intercalate (f : α → β) (items : List (List α)) : (separator.intercalate items).map f =
      (separator.map f).intercalate (items.map (List.map f)) := by
  induction items with
  | nil => rfl
  | cons first rest ih =>
    cases rest with
    | nil => simp
    | cons second rest =>
      rw [List.intercalate_cons_cons, List.map_append, List.map_append, ih]
      simp

end Intercalate

end GoImap.Wire

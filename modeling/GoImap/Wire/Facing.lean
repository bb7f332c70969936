import GoImap.Wire.Flags

/-!
# Reading what was written in pieces

What is written in pieces is read in pieces.  The decoder faces some octets
when they are in front of it and it may read on; a literal counts with its
announcement only.
-/

namespace GoImap.Wire

namespace StringForm

def joined (forms : List StringForm) : Bytes := forms.flatMap bytes

def counted (forms : List StringForm) : Nat := (forms.flatMap text).length

@[simp] theorem joined_nil : joined [] = [] := rfl

@[simp] theorem joined_cons (form : StringForm) (forms : List StringForm) :
    joined (form :: forms) = form.bytes ++ joined forms := rfl

@[simp] theorem joined_append (first second : List StringForm) :
    joined (first ++ second) = joined first ++ joined second :=
  List.flatMap_append

@[simp] theorem counted_nil : counted [] = 0 := rfl

@[simp] theorem counted_cons (form : StringForm) (forms : List StringForm) :
    counted (form :: forms) = form.text.length + counted forms :=
  List.length_append

@[simp] theorem counted_append (first second : List StringForm) :
    counted (first ++ second) = counted first + counted second := by
  simp [counted]

@[simp] theorem bytes_atom (s : Bytes) : (atom s).bytes = s :=
  List.append_nil s

@[simp] theorem text_atom (s : Bytes) : (atom s).text = s := rfl

theorem joined_singleton (form : StringForm) : joined [form] = form.bytes :=
  List.append_nil _

theorem counted_singleton (form : StringForm) : counted [form] = form.text.length := by
  simp

theorem counted_of_no_payload {forms : List StringForm} (h : ∀ form ∈ forms, form.payload = []) :
    counted forms = (joined forms).length := by
  rw [counted, joined, List.flatMap_congr fun form hform => ?_]
  rw [bytes, h form hform, List.append_nil]

end StringForm

namespace Decoder

/-- These octets are in front of the decoder, and so many can be read. -/
structure Facing (options : Options) (dec : Decoder) (count : Nat)
    (rest : Bytes) : Prop extends Room options dec count where
  rest_eq : dec.rest = rest

variable {options : Options} {dec : Decoder} {count : Nat} {byte : UInt8} {bytes rest : Bytes}

theorem Facing.advance (h : Facing options dec (bytes.length + count) (bytes ++ rest)) :
    Facing options (dec.advance bytes) count rest :=
  ⟨h.toRoom.advance, advance_rest h.rest_eq⟩

theorem Facing.stay (h : Facing options dec count rest) :
    Facing options (dec.advance []) count rest :=
  Facing.advance (by simpa using h)

theorem Facing.room (h : Facing options dec count rest) : Room options dec 0 :=
  h.toRoom.mono (Nat.zero_le _)

theorem Facing.roomFor (h : Facing options dec (bytes.length + count) (bytes ++ rest)) :
    Room options dec bytes.length :=
  h.toRoom.mono (Nat.le_add_right _ _)

theorem peekByte_facing (h : Facing options dec count (byte :: rest)) :
    dec.peekByte options = (some byte, dec.advance []) := by
  rw [peekByte, readByte_advance h.room h.rest_eq]
  simp [unread_advance h.rest_eq]

theorem sp_hit (hbyte : isLineChar byte = true)
    (h : Facing options dec (1 + count) (SP :: byte :: rest)) :
    dec.sp options = (true, dec.advance [SP]) := by
  have hnext : Facing options (dec.advance [SP]) count (byte :: rest) := Facing.advance h
  rw [sp, acceptByte_hit h.room h.rest_eq]
  simp only [peekByte_facing hnext]
  rw [isLineChar, decide_eq_true_eq] at hbyte
  simp [hbyte, advance_advance]

theorem sp_miss (hspace : byte ≠ SP) (hparen : byte ≠ openParen)
    (h : Facing options dec count (byte :: rest)) :
    dec.sp options = (false, dec.advance []) := by
  rw [sp, acceptByte_miss SP h.room h.rest_eq hspace]
  simp only [peekByte_facing h.stay]
  simp [hparen, advance_advance]

end Decoder

end GoImap.Wire

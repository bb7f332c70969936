import GoImap.Lib.Parsing
import GoImap.Wire.Effect
import GoImap.Wire.Facing

/-!
# Parsers on top of the decoder

A parser is made of methods of the decoder.  It consumes some pieces if it
returns a value and leaves what is behind them, and refuses them if it fails.
An error of the decoder ends all reading, so a parser that goes on after it
fails as well, unless it is content with nothing.
-/

namespace GoImap.Wire

open Parsing StringForm
open Decoder (Facing)

/-! ## Methods as parsers -/

variable {read : Decoder → Bool × Decoder}

section Methods

variable {ε α : Type} {dec next : Decoder}

/-- An Expect method, which records an error where it returns nothing. -/
def demand (wire : Option DecoderError → ε)
    (read : Decoder → Option α × Decoder) : Parser Decoder ε α := fun dec =>
  match read dec with
  | (some a, dec) => (.ok a, dec)
  | (none, dec) => (.error (wire dec.err), dec)

def require (wire : Option DecoderError → ε)
    (read : Decoder → Bool × Decoder) : Parser Decoder ε Unit := fun dec =>
  match read dec with
  | (true, dec) => (.ok (), dec)
  | (false, dec) => (.error (wire dec.err), dec)

def attempt (read : Decoder → α × Decoder) : Parser Decoder ε α := fun dec =>
  match read dec with
  | (a, dec) => (.ok a, dec)

/-- Where the error is recorded already. -/
def stuck (wire : Option DecoderError → ε) : Parser Decoder ε α := fun dec =>
  (.error (wire dec.err), dec)

variable {wire : Option DecoderError → ε} {a : α}

theorem demand_returns_iff {read : Decoder → Option α × Decoder} :
    (demand wire read).Returns dec a next ↔ read dec = (some a, next) := by
  rw [Parser.Returns, demand]
  rcases read dec with ⟨_ | b, after⟩ <;> simp

theorem demand_returns {read : Decoder → Option α × Decoder} (h : read dec = (some a, next)) :
    (demand wire read).Returns dec a next :=
  demand_returns_iff.mpr h

theorem demand_fails {read : Decoder → Option α × Decoder} (h : (read dec).1 = none) :
    ∃ err next, demand wire read dec = (.error err, next) := by
  rcases hread : read dec with ⟨value, next⟩
  obtain rfl : value = none := by simpa [hread] using h
  exact ⟨_, _, by rw [demand, hread]⟩

theorem require_returns (h : read dec = (true, next)) :
    (require wire read).Returns dec () next := by
  rw [Parser.Returns, require, h]

theorem require_fails (h : (read dec).1 = false) :
    ∃ err next, require wire read dec = (.error err, next) := by
  rcases hread : read dec with ⟨found, next⟩
  obtain rfl : found = false := by simpa [hread] using h
  exact ⟨_, _, by rw [require, hread]⟩

theorem attempt_returns {read : Decoder → α × Decoder} (h : read dec = (a, next)) :
    (attempt read : Parser Decoder ε α).Returns dec a next := by
  rw [Parser.Returns, attempt, h]

end Methods

/-! ## Consuming pieces -/

/-- The octets are in front of a decoder that is not skipping a line. -/
structure Ready (options : Options) (dec : Decoder) (count : Nat)
    (rest : Bytes) : Prop extends Facing options dec count rest where
  reading : dec.discarding = false

section Ready

variable {options : Options} {dec : Decoder} {count : Nat} {bytes rest : Bytes}

theorem Ready.stay (h : Ready options dec count rest) : Ready options (dec.advance []) count rest :=
  ⟨h.toFacing.stay, h.reading⟩

end Ready

section Literals

variable {options : Options}

theorem Decoder.returnErr_discarding (dec : Decoder) (err : DecoderError) :
    (dec.returnErr err).discarding = dec.discarding := by
  unfold returnErr
  cases dec.err with
  | none | some _ => rfl

theorem Decoder.askLiteral_discarding (dec : Decoder) :
    dec.askLiteral.discarding = dec.discarding := by
  unfold askLiteral
  cases dec.literal with
  | none => rfl
  | some lit =>
    simp only
    split_ifs
    · rfl
    · rfl

theorem Decoder.copyLiteral_discarding (dec : Decoder) (lit : LiteralReader) :
    (dec.copyLiteral lit).2.discarding = dec.discarding := by
  unfold copyLiteral
  split_ifs
  · exact returnErr_discarding _ _
  · rfl

theorem Decoder.bufferLiteral_discarding (dec : Decoder) :
    (dec.bufferLiteral options).2.discarding = dec.discarding := by
  have heffect := @bufferLiteral_effect options dec
  generalize (dec.bufferLiteral options).2 = next at heffect ⊢
  cases heffect with
  | count hcall | text hcall => cases hcall
  | failed _ _ hreads | hostile _ _ hreads => exact hreads.discarding_eq
  | refused _ hread err =>
    exact (returnErr_discarding _ _).trans hread.reads.discarding_eq
  | copied hread =>
    rw [copyLiteral_discarding, askLiteral_discarding]
    exact hread.reads.discarding_eq

theorem Decoder.string_facing {settings : EncoderOptions} {dec : Decoder} {count : Nat}
    {s rest : Bytes} (hpasses : Passes settings options s)
    (h : Facing options dec ((settings.stringForm s).text.length + count)
      ((settings.stringForm s).bytes ++ rest)) :
    ∃ next, dec.string options = (some s, next) ∧ Facing options next count rest ∧
      next.discarding = dec.discarding := by
  have hnext : ∀ next : Decoder, Delivers (some s, next) s rest →
      next.readBytes = dec.readBytes + (settings.stringForm s).text.length →
      Facing options next count rest := by
    intro next hdelivers hread
    obtain ⟨-, hrest, herr, hclosed⟩ := hdelivers
    refine ⟨⟨herr, hclosed, fun hlimit => ?_⟩, hrest⟩
    have hwithin := h.within hlimit
    omega
  obtain ⟨_, hreads⟩ := @quoted_reads options dec false
  rcases string_delivers hpasses (h.toRoom.mono (Nat.le_add_right _ _)) h.rest_eq with
    ⟨next, hquoted, hdelivers, hread⟩ | ⟨middle, hquoted, next, hliteral, hdelivers, hread⟩
  · exact ⟨next, by simp [Decoder.string, hquoted], hnext next hdelivers hread,
      by simpa [hquoted] using hreads.discarding_eq⟩
  · have hkept := @bufferLiteral_discarding options middle
    rw [hliteral] at hkept
    exact ⟨next, by simp [Decoder.string, hquoted, hliteral], hnext next hdelivers hread,
      hkept.trans (by simpa [hquoted] using hreads.discarding_eq)⟩

end Literals

/-- With these pieces in front and the rest behind them, the pieces are read
and the value is returned. -/
def Consumes {ε α : Type} (options : Options) (p : Parser Decoder ε α)
    (forms : List StringForm) (a : α) (rest : Bytes) : Prop :=
  ∀ dec count, Facing options dec (counted forms + count) (joined forms ++ rest) →
    ∃ next, p.Returns dec a next ∧ Facing options next count rest ∧ next.discarding = dec.discarding

/-- With these pieces in front and the rest behind them, nothing is
returned. -/
def Refuses {ε α : Type} (options : Options) (p : Parser Decoder ε α)
    (forms : List StringForm) (rest : Bytes) : Prop :=
  ∀ dec count, Ready options dec (counted forms + count) (joined forms ++ rest) →
    ∃ err next, p dec = (.error err, next)

section Steps

variable {ε α β : Type} {options : Options} {rest : Bytes}
  {p : Parser Decoder ε α} {f : α → Parser Decoder ε β}
  {first second : List StringForm} {a : α} {b : β}

theorem Consumes.pure (a : α) : Consumes options (pure a : Parser Decoder ε α) [] a rest := by
  intro dec count h
  rw [counted_nil, Nat.zero_add] at h
  exact ⟨dec, Parser.returns_pure_iff.mpr ⟨rfl, rfl⟩, h, rfl⟩

theorem Consumes.ready {dec : Decoder} (h : Consumes options p first a rest) (count : Nat)
    (hready : Ready options dec (counted first + count) (joined first ++ rest)) :
    ∃ next, p.Returns dec a next ∧ Ready options next count rest := by
  obtain ⟨next, hreturns, hnext, hsame⟩ := h dec count hready.toFacing
  exact ⟨next, hreturns, hnext, hsame.trans hready.reading⟩

theorem Consumes.bind (hp : Consumes options p first a (joined second ++ rest))
    (hf : Consumes options (f a) second b rest) :
    Consumes options (p >>= f) (first ++ second) b rest := by
  intro dec count h
  rw [counted_append, joined_append, Nat.add_assoc, List.append_assoc] at h
  obtain ⟨middle, hfirst, hmiddle, hsame⟩ := hp dec _ h
  obtain ⟨next, hsecond, hnext, hkept⟩ := hf middle count hmiddle
  exact ⟨next, hfirst.bind hsecond, hnext, hkept.trans hsame⟩

theorem Consumes.next {form : StringForm} (hp : Consumes options p [form] a (joined second ++ rest))
    (hf : Consumes options (f a) second b rest) :
    Consumes options (p >>= f) (form :: second) b rest :=
  hp.bind hf

theorem Consumes.peek (hp : Consumes options p [] a (joined second ++ rest))
    (hf : Consumes options (f a) second b rest) :
    Consumes options (p >>= f) second b rest :=
  hp.bind hf

theorem Consumes.map (hp : Consumes options p first a rest) (g : α → β) :
    Consumes options (p >>= fun a => Pure.pure (g a)) first (g a) rest := by
  intro dec count h
  obtain ⟨next, hreturns, hnext⟩ := hp dec count h
  exact ⟨next, hreturns.bind (Parser.returns_pure_iff.mpr ⟨rfl, rfl⟩), hnext⟩

theorem Consumes.congr {other : List StringForm} (h : Consumes options p first a rest)
    (hjoined : joined other = joined first) (hcounted : counted other = counted first) :
    Consumes options p other a rest := by
  intro dec count hready
  rw [hjoined, hcounted] at hready
  exact h dec count hready

theorem Refuses.bind (hp : Consumes options p first a (joined second ++ rest))
    (hf : Refuses options (f a) second rest) :
    Refuses options (p >>= f) (first ++ second) rest := by
  intro dec count h
  rw [counted_append, joined_append, Nat.add_assoc, List.append_assoc] at h
  obtain ⟨middle, hfirst, hmiddle⟩ := hp.ready _ h
  obtain ⟨err, next, hsecond⟩ := hf middle count hmiddle
  exact ⟨err, next, (Parser.bind_of_returns hfirst).trans hsecond⟩

theorem Refuses.continued {forms : List StringForm} (hp : Refuses options p forms rest) :
    Refuses options (p >>= f) forms rest := by
  intro dec count h
  obtain ⟨err, next, hfails⟩ := hp dec count h
  exact ⟨err, next, Parser.bind_of_fails hfails⟩

theorem Refuses.start (hp : Refuses options p first (joined second ++ rest)) :
    Refuses options (p >>= f) (first ++ second) rest := by
  have hall : Refuses options p (first ++ second) rest := by
    intro dec count h
    rw [counted_append, joined_append, Nat.add_assoc, List.append_assoc] at h
    exact hp dec _ h
  exact Refuses.continued hall

theorem consumes_of_advance {s : Bytes}
    (h : ∀ dec count, Facing options dec (s.length + count) (s ++ rest) →
      p.Returns dec a (dec.advance s)) :
    Consumes options p [.atom s] a rest := by
  intro dec count hfacing
  rw [counted_singleton, joined_singleton, text_atom, bytes_atom] at hfacing
  exact ⟨_, h dec count hfacing, hfacing.advance, rfl⟩

theorem consumes_of_stay
    (h : ∀ dec count, Facing options dec count rest → p.Returns dec a (dec.advance [])) :
    Consumes options p [] a rest := by
  intro dec count hfacing
  rw [counted_nil, Nat.zero_add] at hfacing
  exact ⟨_, h dec count hfacing, hfacing.stay, rfl⟩

end Steps

/-! ## Behind an error -/

structure Broken (dec : Decoder) : Prop where
  failed : dec.err.isSome = true
  reading : dec.discarding = false

/-- Nothing is returned where an error has ended all reading. -/
def Stuck {ε α : Type} (p : Parser Decoder ε α) : Prop :=
  ∀ dec, Broken dec → ∃ err next, p dec = (.error err, next)

/-- With these pieces in front, an error ends all reading, and the value is
returned. -/
def Breaks {ε α : Type} (options : Options) (p : Parser Decoder ε α)
    (forms : List StringForm) (a : α) (rest : Bytes) : Prop :=
  ∀ dec count, Ready options dec (counted forms + count) (joined forms ++ rest) →
    ∃ next, p.Returns dec a next ∧ Broken next

section Broken

variable {options : Options} {dec : Decoder}

theorem Broken.readByte (h : Broken dec) : dec.readByte options = (none, dec) := by
  rw [Decoder.readByte, if_pos ⟨h.failed, h.reading⟩]

theorem Broken.acceptByte (h : Broken dec) (want : UInt8) :
    dec.acceptByte options want = (false, dec) := by
  rw [Decoder.acceptByte, h.readByte]

theorem Broken.func (h : Broken dec) (valid : UInt8 → Bool) :
    dec.func options valid = (none, dec) := by
  rw [Decoder.func, Decoder.readWhile, Decoder.readLoop, h.readByte]

end Broken

section Stuck

variable {ε α β : Type} {wire : Option DecoderError → ε} {options : Options}
  {rest : Bytes} {p : Parser Decoder ε α} {f : α → Parser Decoder ε β}
  {first second : List StringForm} {a : α}

theorem Stuck.bind (h : Stuck p) : Stuck (p >>= f) := by
  intro dec hdec
  obtain ⟨err, next, hfails⟩ := h dec hdec
  exact ⟨err, next, Parser.bind_of_fails hfails⟩

theorem stuck_attempt {read : Decoder → α × Decoder}
    (hread : ∀ dec, Broken dec → read dec = (a, dec)) (hf : Stuck (f a)) :
    Stuck (attempt read >>= f) := by
  intro dec hdec
  obtain ⟨err, next, hfails⟩ := hf dec hdec
  exact ⟨err, next, (Parser.bind_of_returns (attempt_returns (hread dec hdec))).trans hfails⟩

theorem stuck_require (hread : ∀ dec, Broken dec → (read dec).1 = false) :
    Stuck (require wire read) :=
  fun dec hdec => require_fails (hread dec hdec)

theorem Breaks.refuses (hp : Breaks options p first a (joined second ++ rest))
    (hf : Stuck (f a)) : Refuses options (p >>= f) (first ++ second) rest := by
  intro dec count h
  rw [counted_append, joined_append, Nat.add_assoc, List.append_assoc] at h
  obtain ⟨middle, hfirst, hmiddle⟩ := hp dec _ h
  obtain ⟨err, next, hsecond⟩ := hf middle hmiddle
  exact ⟨err, next, (Parser.bind_of_returns hfirst).trans hsecond⟩

end Stuck

/-! ## Accepting or refusing -/

/-- The pieces are read as the value if the condition holds, and refused
otherwise. -/
structure Decides {ε α : Type} (options : Options) (p : Parser Decoder ε α)
    (forms : List StringForm) (ok : Prop) (a : α) (rest : Bytes) : Prop where
  consumes : ok → Consumes options p forms a rest
  refuses : ¬ok → Refuses options p forms rest

section Decides

variable {ε α β : Type} {options : Options} {rest : Bytes}
  {p : Parser Decoder ε α} {f : α → Parser Decoder ε β}
  {first second : List StringForm} {ok more : Prop} {a : α} {b : β}

theorem Decides.congr (h : Decides options p first ok a rest)
    (hiff : ok ↔ more) : Decides options p first more a rest :=
  ⟨fun hmore => h.consumes (hiff.mpr hmore), fun hmore => h.refuses (mt hiff.mp hmore)⟩

theorem Consumes.decides (h : Consumes options p first a rest) :
    Decides options p first True a rest :=
  ⟨fun _ => h, fun hnot => absurd trivial hnot⟩

theorem Decides.bind (hp : Decides options p first ok a (joined second ++ rest))
    (hf : Decides options (f a) second more b rest) :
    Decides options (p >>= f) (first ++ second) (ok ∧ more) b rest where
  consumes := fun h => (hp.consumes h.1).bind (hf.consumes h.2)
  refuses := fun h => by
    by_cases hok : ok
    · exact .bind (hp.consumes hok) (hf.refuses fun hmore => h ⟨hok, hmore⟩)
    · exact .start (hp.refuses hok)

theorem Consumes.followed (hp : Consumes options p first a (joined second ++ rest))
    (hf : Decides options (f a) second more b rest) :
    Decides options (p >>= f) (first ++ second) more b rest :=
  (hp.decides.bind hf).congr (iff_of_eq (true_and more))

theorem Decides.after {form : StringForm} (hp : Consumes options p [form] a (joined second ++ rest))
    (hf : Decides options (f a) second more b rest) :
    Decides options (p >>= f) (form :: second) more b rest :=
  hp.followed hf

theorem Decides.next {form : StringForm}
    (hp : Decides options p [form] ok a (joined second ++ rest))
    (hf : Decides options (f a) second more b rest) :
    Decides options (p >>= f) (form :: second) (ok ∧ more) b rest :=
  hp.bind hf

theorem Consumes.lookahead (hp : Consumes options p [] a (joined second ++ rest))
    (hf : Decides options (f a) second more b rest) :
    Decides options (p >>= f) second more b rest :=
  hp.followed hf

theorem Decides.map (hp : Decides options p first ok a rest) (g : α → β) :
    Decides options (p >>= fun a => Pure.pure (g a)) first ok (g a) rest where
  consumes := fun h => (hp.consumes h).map g
  refuses := fun h => by
    have hrefuses := @Refuses.start _ _ _ options rest p (fun a => Pure.pure (g a)) first []
    rw [joined_nil, List.nil_append, List.append_nil] at hrefuses
    exact hrefuses (hp.refuses h)

theorem Decides.followed (hp : Decides options p first ok a (joined second ++ rest))
    (hf : Consumes options (f a) second b rest) :
    Decides options (p >>= f) (first ++ second) ok b rest :=
  (hp.bind hf.decides).congr (iff_of_eq (and_true ok))

end Decides

end GoImap.Wire

import GoImap.Server.Responses

/-!
# The output of a connection

Every response has an encoder of its own, but all of them write to the buffer
of the connection, which is flushed at the end of a line.  A response that fails
leaves what it has written in the buffer, and the next one sends it along.
-/

namespace GoImap.Server

open Wire

/-- What the client has received, and the buffer of the connection.  A panic
closes it. -/
structure Output where
  sent : Bytes := []
  buffered : Bytes := []
  closed : Bool := false

def bufferSize : Nat := 4096

/-- A buffer that overflows is sent, as often as it has to be.  The payload of
a literal may go past the buffer; here it goes through it. -/
def Output.write (out : Output) (bytes : Bytes) : Output :=
  let pending := out.buffered ++ bytes
  let kept :=
    if pending.length ≤ bufferSize then pending.length
    else (pending.length - 1) % bufferSize + 1
  { out with
    sent := out.sent ++ pending.take (pending.length - kept)
    buffered := pending.drop (pending.length - kept) }

theorem Output.write_total (out : Output) (bytes : Bytes) :
    (out.write bytes).sent ++ (out.write bytes).buffered = out.sent ++ (out.buffered ++ bytes) := by
  simp [Output.write]

def Output.flush (out : Output) : Output :=
  { out with sent := out.sent ++ out.buffered, buffered := [] }

/-- One response, with an encoder of its own; whether it may use raw UTF-8 is
found out for each. -/
def Output.respond (out : Output) (response : Bool × Response) : Output :=
  if out.closed then out
  else
    match newEncoder.writeLine (encoderOptions response.1) response.2.ops with
    | (enc, .done) => (out.write enc.written).flush
    | (enc, .failed _) => out.write enc.written
    | (enc, .panicked) => { out.write enc.written with closed := true }

def Output.respondAll (out : Output) (responses : List (Bool × Response)) : Output :=
  responses.foldl Output.respond out

def complete (response : Bool × Response) : Bytes :=
  match newEncoder.writeLine (encoderOptions response.1) response.2.ops with
  | (enc, .done) => if response.2.ops.all Op.filled then enc.written else []
  | _ => []

variable {response : Bool × Response}

theorem writeLine_encodable (h : response.2.Encodable) :
    ∃ line, newEncoder.writeLine (encoderOptions response.1) response.2.ops =
      (⟨line ++ [CR, LF], none, false⟩, .done) :=
  Encoder.writeLine_valid rfl [] fun op hop => ((sound_ops_iff response.2).mpr h op hop).1

theorem filled_encodable (h : response.2.Encodable) : response.2.ops.all Op.filled = true :=
  List.all_eq_true.mpr fun op hop => ((sound_ops_iff response.2).mpr h op hop).2

/-- A response that cannot be written fails, or has a literal that lacks
octets. -/
theorem complete_not_encodable (h : ¬response.2.Encodable) : complete response = [] := by
  rw [complete]
  split
  · next enc hline =>
      have hvalid : ∀ op ∈ response.2.ops, op.Valid := by
        by_contra hinvalid
        exact Encoder.writeLine_invalid rfl [] hinvalid (by
          rw [show (⟨[], none, false⟩ : Encoder) = newEncoder from rfl, hline])
      rw [if_neg]
      intro hfilled
      rw [← sound_ops_iff] at h
      exact h fun op hop =>
        ⟨hvalid op hop, List.all_eq_true.mp hfilled op hop⟩
  · rfl

theorem ops_head (response : Response) : ∃ s rest, response.ops = .text s :: rest ∧ s ≠ [] := by
  have hstar : ascii "*" ≠ [] := by decide
  cases response with
  | statusResp tag resp =>
    refine ⟨_, _, rfl, ?_⟩
    split_ifs with htag
    · exact hstar
    · exact htag
  | _ => exact ⟨_, _, rfl, hstar⟩

theorem writeLine_ne_nil (response : Bool × Response) :
    (newEncoder.writeLine (encoderOptions response.1) response.2.ops).1.written ≠ [] := by
  obtain ⟨s, rest, hops, hs⟩ := ops_head response.2
  have hline : newEncoder.writeLine (encoderOptions response.1) response.2.ops =
        Encoder.writeLine (encoderOptions response.1) ⟨s, none, false⟩ rest := by
    rw [hops]
    rfl
  have hadvances : Encoder.Advances ⟨s, none, false⟩
      (Encoder.writeLine (encoderOptions response.1) ⟨s, none, false⟩ rest).1 :=
    Encoder.writeLine_advances _ rest
  rw [hline]
  exact fun hnil => hs (List.prefix_nil.mp (hnil ▸ hadvances.grows))

theorem Output.respond_encodable (out : Output) (hopen : out.closed = false)
    (h : response.2.Encodable) :
    ∃ line, complete response = line ++ [CR, LF] ∧ out.respond response =
        ⟨out.sent ++ (out.buffered ++ complete response), [], false⟩ := by
  obtain ⟨line, hline⟩ := writeLine_encodable h
  have hcomplete : complete response = line ++ [CR, LF] := by
    rw [complete, hline]
    exact if_pos (filled_encodable h)
  have htotal := out.write_total (line ++ [CR, LF])
  rw [Output.respond, hopen, hline, hcomplete, ← htotal]
  simp [Output.flush, Output.write, hopen]

theorem Output.respond_total (out : Output) (response : Bool × Response)
    (hopen : out.closed = false) :
    ∃ bytes, bytes ≠ [] ∧ (out.respond response).sent ++ (out.respond response).buffered =
        out.sent ++ (out.buffered ++ bytes) := by
  have hwritten := writeLine_ne_nil response
  rw [Output.respond, hopen]
  cases hline : newEncoder.writeLine (encoderOptions response.1) response.2.ops with
  | mk enc outcome =>
    rw [hline] at hwritten
    refine ⟨enc.written, hwritten, ?_⟩
    rw [← out.write_total enc.written]
    cases outcome with
    | done => simp [Output.flush]
    | failed err | panicked => rfl

/-- The client has received the responses that were written to their end, and
nothing else. -/
def Atomic (responses : List (Bool × Response)) : Prop :=
  (Output.respondAll {} responses).sent = responses.flatMap complete

instance (responses : List (Bool × Response)) : Decidable (Atomic responses) :=
  inferInstanceAs (Decidable (_ = _))

theorem respondAll_encodable (out : Output) (hopen : out.closed = false)
    (hempty : out.buffered = []) {responses : List (Bool × Response)}
    (h : ∀ response ∈ responses, response.2.Encodable) :
    out.respondAll responses = ⟨out.sent ++ responses.flatMap complete, [], false⟩ := by
  induction responses generalizing out with
  | nil =>
    cases out
    simp_all [Output.respondAll]
  | cons response rest ih =>
    obtain ⟨hresponse, hrest⟩ := List.forall_mem_cons.mp h
    obtain ⟨line, -, hout⟩ := out.respond_encodable hopen hresponse
    rw [Output.respondAll, List.foldl_cons, hout]
    have hnext := ih ⟨out.sent ++ (out.buffered ++ complete response), [], false⟩ rfl rfl hrest
    rw [Output.respondAll] at hnext
    rw [hnext, hempty]
    simp

theorem responses_atomic (responses : List (Bool × Response)) :
    ((∀ response ∈ responses, response.2.Encodable) → ∀ shown, shown <+: responses →
        Atomic shown ∧ (Output.respondAll {} shown).buffered = [] ∧
        ∀ response ∈ shown, ∃ line, complete response = line ++ [CR, LF]) ∧
    ∀ response next : Bool × Response, ¬response.2.Encodable →
      next.2.Encodable → (Output.respond {} response).closed = false →
      ¬Atomic [response, next] := by
  refine ⟨?_, ?_⟩
  · intro h shown hshown
    have hencodable : ∀ response ∈ shown, response.2.Encodable :=
      fun response hresponse => h response (hshown.subset hresponse)
    have hout := respondAll_encodable {} rfl rfl hencodable
    refine ⟨?_, ?_, ?_⟩
    · rw [Atomic, hout]
      rfl
    · rw [hout]
    · intro response hresponse
      obtain ⟨line, hline, -⟩ := Output.respond_encodable {} rfl (hencodable response hresponse)
      exact ⟨line, hline⟩
  · intro response next hresponse hnext hopen hatomic
    have hcomplete := complete_not_encodable hresponse
    obtain ⟨bytes, hbytes, htotal⟩ := Output.respond_total {} response rfl
    obtain ⟨line, -, hout⟩ := Output.respond_encodable (Output.respond {} response) hopen hnext
    have hsent : (Output.respondAll {} [response, next]).sent = bytes ++ complete next := by
      rw [Output.respondAll, List.foldl_cons, List.foldl_cons, List.foldl_nil,
        hout, ← List.append_assoc, htotal]
      rfl
    rw [Atomic, hsent] at hatomic
    simp [hcomplete] at hatomic
    exact hbytes hatomic

/-- The backend leaves a field of STATUS out, and the command is refused. -/
def missingField : List (Bool × Response) :=
  [(false, .status { mailbox := inbox } { numMessages := true }), (false, .statusResp (ascii "a1")
      { type := ascii "NO", code := ascii "SERVERBUG", text := ascii "Internal server error" })]

theorem responses_atomic_missingField :
    Atomic missingField.tail ∧ (∀ response ∈ missingField.tail, response.2.Encodable) ∧
      ¬Atomic missingField := by
  have hrefusal : ∀ response ∈ missingField.tail, response.2.Encodable := by
    simp [missingField, Response.Encodable]
  have hmissing : ¬StatusData.Covers { mailbox := inbox } { numMessages := true } := by
    intro h
    cases h.numMessages rfl
  exact ⟨((responses_atomic _).1 hrefusal _ List.prefix_rfl).1, hrefusal,
    (responses_atomic []).2 _ _ hmissing trivial (by decide +kernel)⟩

/-- The tagged answer goes out in the middle of the line. -/
theorem missingField_not_atomic : (Output.respondAll {} missingField).sent =
        ascii "* STATUS INBOX (a1 NO [SERVERBUG] Internal server error" ++ [CR, LF] ∧
      ¬Atomic missingField := by
  decide +kernel

end GoImap.Server

import GoImap.Fetch.BodyMethods

/-!
# The fields of body structures on the wire

Each field is read back unless one of its strings is refused.  The reader of
parameters takes an empty name for no name, so it is left with a name without
a value unless an empty value puts it right again.
-/

namespace GoImap

open Wire Utf8 Parsing StringForm
open Decoder (Passes)
open Server (Starts starts_char starts_number listOps)

/-! ## What is received -/

section Received

variable [LowerCase] [MailText]

def Params.strings (params : Params) : List Bytes := params.entries.flatMap fun (k, v) => [k, v]

def Params.received (params : Params) : Params :=
  (params.strings.foldl Client.paramStep (.empty, [])).1

def Params.Paired (params : Params) : Prop :=
  (∃ entry ∈ params.entries, entry.1 = []) → ∃ entry ∈ params.entries, entry.2 = []

def Address.texts (addr : Address) : List Bytes :=
  [MailText.qEncode addr.name, addr.mailbox, addr.host]

def Address.received (addr : Address) : Address :=
  ⟨MailText.decodeText (MailText.qEncode addr.name), addr.mailbox, addr.host⟩

namespace Envelope

def dateText (envelope : Envelope) : Bytes :=
  match envelope.date with
  | none => []
  | some date => MailText.formatDate date

def inReplyToText (envelope : Envelope) : Bytes :=
  if envelope.inReplyTo = [] then []
  else [openAngle] ++ (ascii "> <").intercalate envelope.inReplyTo ++ [closeAngle]

def messageIDText (envelope : Envelope) : Bytes :=
  if envelope.messageID = [] then []
  else [openAngle] ++ envelope.messageID ++ [closeAngle]

def texts (envelope : Envelope) : List Bytes :=
  envelope.dateText :: MailText.qEncode envelope.subject ::
    (envelope.addressLists.flatMap (·.flatMap Address.texts) ++
      [envelope.inReplyToText, envelope.messageIDText])

def received (envelope : Envelope) : Envelope where
  date := MailText.parseDate envelope.dateText
  subject := MailText.decodeText (MailText.qEncode envelope.subject)
  sentFrom := envelope.sentFrom.map Address.received
  sender := Client.orNil ((envelope.sender.getD envelope.sentFrom).map Address.received)
  replyTo := Client.orNil ((envelope.replyTo.getD envelope.sentFrom).map Address.received)
  sentTo := envelope.sentTo.map Address.received
  cc := envelope.cc.map Address.received
  bcc := envelope.bcc.map Address.received
  inReplyTo := MailText.parseMsgIDList envelope.inReplyToText
  messageID := MailText.parseMsgID envelope.messageIDText

end Envelope

def BodyStructureDisposition.received (disp : BodyStructureDisposition) :
    BodyStructureDisposition :=
  ⟨disp.value, disp.params.received⟩

end Received

/-! ## What is accepted -/

section Readable

variable (settings : EncoderOptions) (options : Options)

def Params.Readable (params : Params) : Prop :=
  (∀ s ∈ params.strings, Passes settings options s) ∧ params.Paired

def BodyStructureDisposition.Readable (disp : BodyStructureDisposition) : Prop :=
  Passes settings options disp.value ∧ disp.params.Readable settings options

def ExtReadable (disposition : Option BodyStructureDisposition)
    (language : List Bytes) (location : Bytes) : Prop :=
  (∀ disp ∈ disposition, disp.Readable settings options) ∧
    (∀ s ∈ language, Passes settings options s) ∧
    Passes settings options location

end Readable

/-! ## Names and values -/

variable {entries : List (Bytes × Bytes)}

theorem Params.names_ne_nil {first : Bytes × Bytes} (h : (first :: entries).Pairwise (·.1 < ·.1)) :
    ∀ entry ∈ entries, entry.1 ≠ [] := by
  intro entry hentry hnil
  have hlt := (List.pairwise_cons.mp h).1 entry hentry
  rw [hnil] at hlt
  exact List.not_lt_nil _ hlt

section Pairing

variable [LowerCase] [MailText]

theorem paramStep_name {k : Bytes} (params : Params) :
    Client.paramStep (params, []) k = (params, k) := rfl

theorem paramStep_value {k : Bytes} (hk : k ≠ []) (params : Params) (v : Bytes) :
    Client.paramStep (params, k) v = (params.insert (toLower k) (MailText.decodeText v), []) := by
  simp [Client.paramStep, hk]

theorem foldl_paramStep (h : ∀ entry ∈ entries, entry.1 ≠ []) (params : Params) :
    (entries.flatMap fun (k, v) => [k, v]).foldl Client.paramStep (params, []) =
      (entries.foldl (fun params entry =>
        params.insert (toLower entry.1) (MailText.decodeText entry.2)) params,
        []) := by
  induction entries generalizing params with
  | nil => rfl
  | cons entry entries ih =>
    obtain ⟨hentry, hrest⟩ := List.forall_mem_cons.mp h
    simp only [List.flatMap_cons, List.cons_append,
      List.foldl_cons, paramStep_name, paramStep_value hentry]
    exact ih hrest _

theorem foldl_paramStep_waiting (h : ∀ entry ∈ entries, entry.1 ≠ [])
    {waiting : Bytes} (hwaiting : waiting ≠ []) (params : Params) :
    ((entries.flatMap fun (k, v) => [k, v]).foldl Client.paramStep (params, waiting)).2 = [] ↔
      ∃ entry ∈ entries, entry.2 = [] := by
  induction entries generalizing params waiting with
  | nil => simpa using hwaiting
  | cons entry entries ih =>
    obtain ⟨hentry, hrest⟩ := List.forall_mem_cons.mp h
    simp only [List.flatMap_cons, List.cons_append,
      List.foldl_cons, paramStep_value hwaiting, paramStep_name]
    by_cases hvalue : entry.2 = []
    · simp [hvalue, foldl_paramStep hrest]
    · simp [hvalue, ih hrest hvalue]

theorem Params.paired_iff (params : Params) :
    (params.strings.foldl Client.paramStep (.empty, [])).2 = [] ↔ params.Paired := by
  obtain ⟨entries, hsorted⟩ := params
  rw [Params.strings, Params.Paired]
  cases entries with
  | nil => simp
  | cons first entries =>
    have hrest := Params.names_ne_nil hsorted
    have hlater : ¬∃ entry ∈ entries, entry.1 = [] := by
      rintro ⟨entry, hentry, hnil⟩
      exact hrest entry hentry hnil
    by_cases hname : first.1 = []
    · simp only [List.flatMap_cons, List.cons_append, List.nil_append, List.foldl_cons, hname,
        paramStep_name, List.exists_mem_cons_iff, true_or, true_implies]
      by_cases hvalue : first.2 = []
      · simp [hvalue, foldl_paramStep hrest]
      · simp [hvalue, foldl_paramStep_waiting hrest hvalue]
    · have hall : ∀ entry ∈ first :: entries, entry.1 ≠ [] :=
        List.forall_mem_cons.mpr ⟨hname, hrest⟩
      simp only [foldl_paramStep hall, List.exists_mem_cons_iff, hname,
        hlater, or_self, false_implies]

theorem Params.received_eq {params : Params}
    (hnames : ∀ entry ∈ params.entries, entry.1 ≠ [] ∧ toLower entry.1 = entry.1)
    (hvalues : ∀ entry ∈ params.entries, MailText.decodeText entry.2 = entry.2) :
    params.received = params := by
  rw [Params.received, Params.strings, foldl_paramStep fun entry hentry => (hnames entry hentry).1]
  have hfold := List.foldl_ext (fun (made : Params) (entry : Bytes × Bytes) =>
      made.insert (toLower entry.1) (MailText.decodeText entry.2))
    (fun made entry => made.insert entry.1 entry.2) SortedMap.empty
    (fun made entry hentry => by
      rw [(hnames entry hentry).2, hvalues entry hentry])
  exact hfold.trans (SortedMap.foldl_insert params)

end Pairing

/-! ## Steps -/

def Ends (bytes : Bytes) : Prop :=
  ∃ byte tail, bytes = byte :: tail ∧ (byte = SP ∨ byte = closeParen)

section Steps

variable {ε α β : Type} {wire : Option DecoderError → ε} {options : Options}
  {rest : Bytes} {p : Parser Decoder ε α} {f : α → Parser Decoder ε β}
  {forms first second : List StringForm} {ok more : Prop} {a : α} {b : β}

theorem ends_space : Ends (joined (.atom [SP] :: forms) ++ rest) :=
  ⟨SP, _, rfl, .inl rfl⟩

theorem ends_close : Ends (joined (.atom [closeParen] :: forms) ++ rest) :=
  ⟨closeParen, _, rfl, .inr rfl⟩

theorem Wire.Block.before {bytes : Bytes} (h : Block options p forms ok a)
    (hends : Ends bytes) : Decides options p forms ok a bytes := by
  obtain ⟨byte, tail, rfl, hbyte⟩ := hends
  exact h.decides byte tail hbyte

theorem consumes_spBefore (h : Starts first) :
    Consumes options (attempt (·.sp options) : Parser Decoder ε Bool)
      [.atom [SP]] true (joined (first ++ second) ++ rest) := by
  obtain ⟨byte, tail, hjoined, hbyte, -⟩ := h
  rw [joined_append, hjoined]
  exact consumes_sp hbyte

theorem consumes_expectSPBefore (h : Starts first) :
    Consumes options (require wire (·.expectSP options)) [.atom [SP]] ()
      (joined (first ++ second) ++ rest) := by
  obtain ⟨byte, tail, hjoined, hbyte, -⟩ := h
  rw [joined_append, hjoined]
  exact consumes_expectSP hbyte

theorem Wire.Block.field (h : Block options p forms ok a) (hends : Ends (joined second ++ rest))
    (hf : Decides options (f a) second more b rest) :
    Decides options (do
        require wire (·.expectSP options)
        p >>= f)
      (.atom [SP] :: (forms ++ second)) (ok ∧ more) b rest :=
  (consumes_expectSPBefore h.starts).followed ((h.before hends).bind hf)

theorem Wire.Decides.reading {α : Type} {p : Client.Read α} {a : α}
    (place : String) (h : Decides options p forms ok a rest) :
    Decides options (Client.reading place p) forms ok a rest := by
  refine ⟨fun hok => (h.consumes hok).reading place, fun hnot => ?_⟩
  intro dec count hready
  obtain ⟨err, next, hfails⟩ := h.refuses hnot dec count hready
  exact ⟨_, next, by rw [Client.reading, hfails]⟩

theorem Wire.Block.reading {α : Type} {p : Client.Read α} {a : α}
    (place : String) (h : Block options p forms ok a) :
    Block options (Client.reading place p) forms ok a :=
  ⟨h.starts, fun byte rest hbyte => (h.decides byte rest hbyte).reading place⟩

theorem decides_pure (a : α) : Decides options (pure a : Parser Decoder ε α) [] True a rest :=
  (Consumes.pure a).decides

end Steps

section Forms

variable (settings : EncoderOptions)

@[simp] theorem form_space : Server.space.form settings = .atom [SP] := rfl

@[simp] theorem form_special (ch : UInt8) : (Server.special ch).form settings = .atom [ch] := rfl

@[simp] theorem form_nil : Op.nil.form settings = .atom (ascii "NIL") := rfl

@[simp] theorem form_string (s : Bytes) : (Op.string s).form settings = settings.stringForm s := rfl

@[simp] theorem form_number (size : UInt32) :
    (Server.number size).form settings = .atom (formatUint size.toNat) := rfl

theorem map_nListOps (items : List (List Op)) :
    (if items = [] then [Op.nil] else listOps items).map (Op.form settings) =
      nListForms (items.map (List.map (Op.form settings))) := by
  cases items with
  | nil => simp [nListForms]
  | cons item items => simp [nListForms, map_listOps]

end Forms

/-! ## Envelopes -/

theorem writesNString_inReplyTo (envelope : Envelope) :
    (Server.writeInReplyTo envelope.inReplyTo).WritesNString envelope.inReplyToText := by
  rw [Server.writeInReplyTo, Envelope.inReplyToText]
  split_ifs
  · exact .inr ⟨rfl, rfl⟩
  · exact .inl rfl

theorem writesNString_messageID (envelope : Envelope) :
    (Server.writeMessageID envelope.messageID).WritesNString envelope.messageIDText := by
  rw [Server.writeMessageID, Envelope.messageIDText]
  split_ifs
  · exact .inr ⟨rfl, rfl⟩
  · exact .inl rfl

section Envelopes

variable {options : Options} {settings : EncoderOptions} [MailText]

theorem block_address (hsides : options.side ≠ settings.side) (addr : Address) :
    Block options (Client.readAddress options) ((Server.writeAddress addr).map (Op.form settings))
      (∀ s ∈ addr.texts, Passes settings options s) addr.received := by
  refine Block.reading "address" ⟨starts_char (by decide) (by decide), fun byte rest hbyte => ?_⟩
  have hnil : Block options (demand Client.ReadError.wire
      (·.expectNString options)) [.atom (ascii "NIL")] True [] :=
    ⟨starts_nil, fun byte rest hbyte =>
      (consumes_orNIL_NIL (isAtomChar_of_ends hbyte)).decides⟩
  have hiff : (Passes settings options (MailText.qEncode addr.name) ∧ True ∧
      Passes settings options addr.mailbox ∧
      Passes settings options addr.host ∧ True) ↔ ∀ s ∈ addr.texts, Passes settings options s := by
    simp [Address.texts]
  refine Decides.congr (.after consumes_expectSpecial ?_) hiff
  refine .next ((block_nString hsides (writesNString _)).before ends_space) ?_
  refine hnil.field ends_space ?_
  refine (block_nString hsides (writesNString _)).field ends_space ?_
  refine (block_nString hsides (writesNString _)).field ends_close ?_
  exact .after consumes_expectSpecial (decides_pure _)

theorem block_addressList (hsides : options.side ≠ settings.side) (l : List Address) :
    Block options (Client.readAddressList options)
      ((Server.writeAddressList l).map (Op.form settings))
      (∀ s ∈ l.flatMap Address.texts, Passes settings options s)
      (l.map Address.received) := by
  have hforms : (Server.writeAddressList l).map (Op.form settings) = nListForms (l.map fun addr =>
        (Server.writeAddress addr).map (Op.form settings)) := by
    have hnil : l = [] ↔ l.map Server.writeAddress = [] := by simp
    rw [Server.writeAddressList, if_congr hnil rfl rfl, map_nListOps, List.map_map]
    rfl
  have hiff : (∀ s ∈ l.flatMap Address.texts, Passes settings options s) ↔
      ∀ addr ∈ l, ∀ s ∈ addr.texts, Passes settings options s := by
    simp only [List.mem_flatMap]
    exact ⟨fun h addr haddr s hs => h s ⟨addr, haddr, hs⟩,
      fun h s ⟨addr, haddr, hs⟩ => h addr haddr s hs⟩
  rw [hforms, hiff]
  exact block_nList fun addr _ => block_address hsides addr

theorem decides_addressField (hsides : options.side ≠ settings.side) {β : Type} {name : String}
    {l : List Address} {f : List Address → Client.Read β} {first second : List StringForm}
    {more : Prop} {b : β} {rest : Bytes} (hstarts : Starts first)
    (hf : Decides options (f (l.map Address.received)) (first ++ second) more b rest) :
    Decides options (Client.readAddressField options name >>= f)
      ((Server.writeAddressList l).map (Op.form settings) ++ ([.atom [SP]] ++ (first ++ second)))
      ((∀ s ∈ l.flatMap Address.texts, Passes settings options s) ∧ more) b
      rest := by
  have hends : Ends (joined [.atom [SP]] ++ (joined (first ++ second) ++ rest)) := ends_space
  have hlist := ((block_addressList hsides l).reading name).before hends
  have hspace : Consumes options (do
      require Client.ReadError.wire (·.expectSP options)
      pure (l.map Address.received)) [.atom [SP]] (l.map Address.received)
      (joined (first ++ second) ++ rest) :=
    (consumes_expectSPBefore hstarts).map fun _ => l.map Address.received
  rw [← List.append_assoc]
  exact (hlist.followed hspace).bind hf

theorem starts_addressList (l : List Address) :
    Starts ((Server.writeAddressList l).map (Op.form settings)) := by
  rw [Server.writeAddressList]
  split_ifs
  · exact starts_nil
  · exact starts_char (by decide) (by decide)

theorem writesNString_date (envelope : Envelope) :
    (Server.writeDate envelope.date).WritesNString envelope.dateText := by
  rw [Envelope.dateText]
  cases envelope.date with
  | none => exact .inr ⟨rfl, rfl⟩
  | some date => exact .inl rfl

theorem map_writeEnvelope (envelope : Option Envelope) :
    (Server.writeEnvelope envelope).map (Op.form settings) = [.atom [openParen]] ++
      ([(Server.writeDate (envelope.getD {}).date).form settings] ++
      ([.atom [SP]] ++
      ([(Server.writeNString (MailText.qEncode (envelope.getD {}).subject)).form settings] ++
      ([.atom [SP]] ++
      (((envelope.getD {}).addressLists.flatMap fun l =>
        (Server.writeAddressList l).map (Op.form settings) ++ [.atom [SP]]) ++
      ([(Server.writeInReplyTo (envelope.getD {}).inReplyTo).form settings] ++
      ([.atom [SP]] ++
      ([(Server.writeMessageID (envelope.getD {}).messageID).form settings] ++
      [.atom [closeParen]])))))))) := by
  simp [Server.writeEnvelope, Envelope.addressLists]

theorem block_envelope (hsides : options.side ≠ settings.side) (envelope : Option Envelope) :
    Block options (Client.readEnvelope options)
      ((Server.writeEnvelope envelope).map (Op.form settings))
      (∀ s ∈ (envelope.getD {}).texts, Passes settings options s)
      (envelope.getD {}).received := by
  refine ⟨starts_char (by decide) (by decide), fun byte rest hbyte => ?_⟩
  rw [map_writeEnvelope]
  generalize envelope.getD {} = envelope
  have hstart := @starts_addressList settings _
  have hiff : (Passes settings options envelope.dateText ∧
      Passes settings options (MailText.qEncode envelope.subject) ∧
      (∀ s ∈ envelope.sentFrom.flatMap Address.texts, Passes settings options s) ∧
      (∀ s ∈ (envelope.sender.getD envelope.sentFrom).flatMap Address.texts,
        Passes settings options s) ∧
      (∀ s ∈ (envelope.replyTo.getD envelope.sentFrom).flatMap Address.texts,
        Passes settings options s) ∧
      (∀ s ∈ envelope.sentTo.flatMap Address.texts, Passes settings options s) ∧
      (∀ s ∈ envelope.cc.flatMap Address.texts, Passes settings options s) ∧
      (∀ s ∈ envelope.bcc.flatMap Address.texts, Passes settings options s) ∧
      Passes settings options envelope.inReplyToText ∧
      Passes settings options envelope.messageIDText ∧ True) ↔
        ∀ s ∈ envelope.texts, Passes settings options s := by
    simp only [Envelope.texts, Envelope.addressLists, List.forall_mem_cons,
      List.forall_mem_append, List.flatMap_cons, List.flatMap_nil, and_assoc]
    simp
  refine Decides.congr ?_ hiff
  simp only [Envelope.addressLists, List.flatMap_cons, List.flatMap_nil,
    List.append_nil, List.append_assoc]
  refine consumes_expectSpecial.followed ?_
  refine ((block_nString hsides (writesNString_date envelope)).before ends_space).bind ?_
  refine (block_nString hsides (writesNString _)).field ends_space ?_
  refine (consumes_expectSPBefore (hstart _)).followed ?_
  refine decides_addressField hsides (hstart _) ?_
  refine decides_addressField hsides (hstart _) ?_
  refine decides_addressField hsides (hstart _) ?_
  refine decides_addressField hsides (hstart _) ?_
  refine decides_addressField hsides (hstart _) ?_
  refine decides_addressField hsides (starts_nString (writesNString_inReplyTo envelope)) ?_
  refine ((block_nString hsides (writesNString_inReplyTo envelope)).before ends_space).bind ?_
  refine (block_nString hsides (writesNString_messageID envelope)).field ends_close ?_
  exact consumes_expectSpecial.followed (decides_pure _)

end Envelopes

/-! ## Fields -/

section Fields

variable {options : Options} {settings : EncoderOptions}

theorem intercalate_entries (entries : List (Bytes × Bytes)) :
    [Server.space].intercalate (entries.map fun (k, v) =>
        [Op.string k, Server.space, Op.string v]) =
      [Server.space].intercalate ((entries.flatMap fun (k, v) => [k, v]).map ([Op.string ·])) := by
  induction entries with
  | nil => rfl
  | cons entry entries ih =>
    cases entries with
    | nil => simp [List.intercalate_cons_cons]
    | cons second entries =>
      simp only [List.map_cons, List.flatMap_cons, List.cons_append,
        List.nil_append, List.intercalate_cons_cons] at ih ⊢
      rw [ih]

theorem map_writeBodyFldParam (params : Params) :
    (Server.writeBodyFldParam params).map (Op.form settings) =
      nListForms (params.strings.map ([settings.stringForm ·])) := by
  have hlist : listOps (params.entries.map fun (k, v) =>
        [Op.string k, Server.space, Op.string v]) =
      listOps (params.strings.map ([Op.string ·])) := by
    rw [listOps, listOps, intercalate_entries, Params.strings]
  have hnil : params.entries = [] ↔ params.strings.map ([Op.string ·]) = [] := by
    rw [List.map_eq_nil_iff, Params.strings]
    cases params.entries with
    | nil | cons entry entries => simp
  rw [Server.writeBodyFldParam, hlist, if_congr hnil rfl rfl, map_nListOps, List.map_map]
  rfl

theorem block_lang (hsides : options.side ≠ settings.side) (language : List Bytes) :
    Block options (Client.readBodyFldLang options)
      ((Server.writeBodyFldLang language).map (Op.form settings))
      (∀ s ∈ language, Passes settings options s) language := by
  have hforms : (Server.writeBodyFldLang language).map (Op.form settings) =
      nListForms (language.map ([settings.stringForm ·])) := by
    have hnil : language = [] ↔ language.map ([Op.string ·]) = [] := by simp
    rw [Server.writeBodyFldLang, if_congr hnil rfl rfl, map_nListOps, List.map_map]
    rfl
  rw [hforms]
  refine ⟨starts_nListForms _, fun byte rest hbyte => ?_⟩
  cases language with
  | nil =>
    have hmiss : Consumes options (readList Client.ReadError.wire options
        (demand .wire (·.expectString options))) [] none
        (joined [.atom (ascii "NIL")] ++ byte :: rest) := by
      exact (consumes_noSpecial (by decide)).peek (.pure none)
    have hnil : Consumes options (Client.readBodyFldLang options) [.atom (ascii "NIL")] []
        (byte :: rest) :=
      hmiss.peek ((consumes_orNIL_NIL (isAtomChar_of_ends hbyte)).map fun s =>
        if s = [] then [] else [s])
    exact hnil.decides.congr (by simp)
  | cons first language =>
    have hlist : Decides options (readList Client.ReadError.wire options
        (demand .wire (·.expectString options)))
        (listForms ((first :: language).map ([settings.stringForm ·])))
        (∀ s ∈ first :: language, Passes settings options s)
        (some ((first :: language).map id)) (byte :: rest) :=
      decides_list fun s _ => block_expectString hsides
    rw [List.map_id] at hlist
    rw [nListForms, if_neg (by simp), ← List.append_nil (listForms _)]
    exact hlist.followed (.pure _)

variable [LowerCase] [MailText]

theorem block_param (hsides : options.side ≠ settings.side) (params : Params) :
    Block options (Client.readBodyFldParam options)
      ((Server.writeBodyFldParam params).map (Op.form settings))
      (params.Readable settings options) params.received := by
  rw [map_writeBodyFldParam]
  refine ⟨starts_nListForms _, fun byte rest hbyte => ?_⟩
  have hstrings : Block options (readNList Client.ReadError.wire options
      (demand .wire (·.expectStringAllowStrayQuotes options)))
      (nListForms (params.strings.map ([settings.stringForm ·])))
      (∀ s ∈ params.strings, Passes settings options s)
      (params.strings.map id) :=
    block_nList fun s _ => block_strayQuotes hsides
  rw [List.map_id] at hstrings
  have hpaired : Decides options (
      if (params.strings.foldl Client.paramStep (.empty, [])).2 = [] then
        pure params.received
      else .fail (.failed "in body-fld-param: key without value") :
        Client.Read Params) [] params.Paired params.received
      (byte :: rest) := by
    rw [← params.paired_iff]
    split_ifs with hnone
    · exact (decides_pure _).congr (iff_of_true trivial hnone)
    · exact ⟨fun h => absurd h hnone, fun _ dec _ _ => ⟨_, dec, rfl⟩⟩
  rw [← List.append_nil (nListForms _)]
  exact (hstrings.decides byte rest hbyte).bind hpaired

theorem block_dsp (hsides : options.side ≠ settings.side)
    (disposition : Option BodyStructureDisposition) :
    Block options (Client.readBodyFldDsp options)
      ((Server.writeBodyFldDsp disposition).map (Op.form settings))
      (∀ disp ∈ disposition, disp.Readable settings options)
      (disposition.map BodyStructureDisposition.received) := by
  cases disposition with
  | none =>
    refine ⟨starts_nil, fun byte rest hbyte => ?_⟩
    have hnil : Consumes options (Client.readBodyFldDsp options) [.atom (ascii "NIL")] none
        (byte :: rest) :=
      .peek (consumes_noSpecial (by decide))
        ((consumes_expectNIL (isAtomChar_of_ends hbyte)).map fun _ => none)
    exact hnil.decides.congr (by simp)
  | some disp =>
    refine ⟨starts_char (by decide) (by decide), fun byte rest hbyte => ?_⟩
    have hiff : (Passes settings options disp.value ∧
        disp.params.Readable settings options ∧ True) ↔
          ∀ other ∈ some disp, other.Readable settings options := by
      simp [BodyStructureDisposition.Readable]
    simp only [Server.writeBodyFldDsp, List.map_cons, List.map_append]
    refine Decides.congr (.after consumes_special ?_) hiff
    refine .next ((block_expectString hsides).before ends_space) ?_
    refine (block_param hsides disp.params).field ends_close ?_
    exact .after consumes_expectSpecial (decides_pure _)

theorem decides_extFields (hsides : options.side ≠ settings.side)
    (disposition : Option BodyStructureDisposition) (language : List Bytes) (location : Bytes)
    {byte : UInt8} {rest : Bytes} (hbyte : byte = SP ∨ byte = closeParen) :
    Decides options (Client.readExtFields options)
      (.atom [SP] :: (Server.writeExtFields disposition language location).map (Op.form settings))
      (ExtReadable settings options disposition language location)
      ⟨disposition.map BodyStructureDisposition.received, language, location⟩
      (byte :: rest) := by
  have hdsp := block_dsp hsides disposition
  have hlang := block_lang hsides language
  have hlocation : Block options (demand Client.ReadError.wire (·.expectNString options))
      [(Server.writeNString location).form settings]
      (Passes settings options location) location :=
    block_nString hsides (writesNString location)
  simp only [Server.writeExtFields, List.map_append, List.map_cons, ExtReadable]
  refine .after (consumes_spBefore hdsp.starts) ?_
  refine ((hdsp.reading "body-fld-dsp").before ends_space).bind ?_
  refine .after (consumes_spBefore hlang.starts) ?_
  refine ((hlang.reading "body-fld-lang").before ends_space).bind ?_
  refine .after (consumes_spBefore hlocation.starts) ?_
  exact (hlocation.decides byte rest hbyte).map _

end Fields

end GoImap

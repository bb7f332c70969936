import Mathlib.Data.Finmap
import Mathlib.Data.List.TakeWhile
import GoImap.MemServer.Session

/-!
# Annotations

`setMetadata` changes the annotations one by one, in the order in which the map
of entries is iterated.  A value that is too large, or too many annotations in
the end, is an error, and what has been changed by then stays.
-/

namespace GoImap.MemServer

abbrev Metadata := Finmap fun _ : Bytes => Bytes

/-- The entries of a map in the order of an iteration; nil removes a name. -/
abbrev MetadataEntries := AList fun _ : Bytes => Option Bytes

abbrev MetadataEntry := Sigma fun _ : Bytes => Option Bytes

structure UserMetadata where
  serverMetadata : Metadata
  mailboxes : Bytes → Option Metadata

def noSuchMailbox : ImapError where
  type := .no
  code := "NONEXISTENT"
  text := "No such mailbox"

def valueTooLarge : ImapError where
  type := .no
  code := "LIMIT"
  text := "Annotation value too large"

def tooManyAnnotations : ImapError where
  type := .no
  code := "TOOMANY"
  text := "Too many annotations"

def setMetadataLoop : List MetadataEntry → Metadata → Metadata × Option ImapError
  | [], target => (target, if target.keys.card > 100 then some tooManyAnnotations else none)
  | ⟨entry, none⟩ :: rest, target => setMetadataLoop rest (target.erase entry)
  | ⟨entry, some value⟩ :: rest, target =>
    if value.length > 10240 then (target, some valueTooLarge)
    else setMetadataLoop rest (target.insert entry value)

namespace UserMetadata

def target (user : UserMetadata) (mailboxName : Bytes) : Option Metadata :=
  if mailboxName = [] then some user.serverMetadata else user.mailboxes mailboxName

def setTarget (user : UserMetadata) (mailboxName : Bytes) (target : Metadata) : UserMetadata :=
  if mailboxName = [] then { user with serverMetadata := target }
  else { user with mailboxes := Function.update user.mailboxes mailboxName (some target) }

def setMetadata (user : UserMetadata) (mailboxName : Bytes) (entries : MetadataEntries) :
    UserMetadata × Option ImapError :=
  match user.target mailboxName with
  | none => (user, some noSuchMailbox)
  | some target =>
    let (target, err) := setMetadataLoop entries.entries target
    (user.setTarget mailboxName target, err)

theorem target_setTarget (user : UserMetadata) (mailboxName : Bytes) (target : Metadata) :
    (user.setTarget mailboxName target).target mailboxName = some target := by
  unfold setTarget UserMetadata.target
  split_ifs <;> simp

end UserMetadata

/-! ## What the loop does -/

def fitsLimit (entry : MetadataEntry) : Bool :=
  entry.2.all (·.length ≤ 10240)

def setEntry (target : Metadata) (entry : MetadataEntry) : Metadata :=
  match entry.2 with
  | none => target.erase entry.1
  | some value => target.insert entry.1 value

theorem setMetadataLoop_eq (l : List MetadataEntry) (target : Metadata) :
    setMetadataLoop l target = ((l.takeWhile fitsLimit).foldl setEntry target,
      if l.all fitsLimit then
        if ((l.takeWhile fitsLimit).foldl setEntry target).keys.card > 100 then
          some tooManyAnnotations
        else none
      else some valueTooLarge) := by
  induction l generalizing target with
  | nil => rfl
  | cons entry rest ih =>
    rcases entry with ⟨name, _ | value⟩
    · have hfits : fitsLimit ⟨name, none⟩ = true := rfl
      simp [setMetadataLoop, ih, hfits, setEntry]
    · have hfits : fitsLimit ⟨name, some value⟩ = decide (value.length ≤ 10240) := rfl
      by_cases hlarge : value.length > 10240
      · simp [setMetadataLoop, hlarge, hfits, Nat.not_le.mpr hlarge]
      · simp [setMetadataLoop, hlarge, ih, hfits, setEntry, Nat.not_lt.mp hlarge]

theorem lookup_setEntry (target : Metadata) (entry : MetadataEntry) (name : Bytes) :
    (setEntry target entry).lookup name =
      if name = entry.1 then entry.2 else target.lookup name := by
  rcases entry with ⟨key, _ | value⟩ <;> unfold setEntry <;> split_ifs with hname
  · rw [hname, Finmap.lookup_erase]
  · rw [Finmap.lookup_erase_ne hname]
  · rw [hname, Finmap.lookup_insert]
  · rw [Finmap.lookup_insert_of_ne _ hname]

theorem lookup_foldl {l : List MetadataEntry} (h : l.NodupKeys) (target : Metadata) (name : Bytes) :
    (l.foldl setEntry target).lookup name = (l.dlookup name).getD (target.lookup name) := by
  induction l generalizing target with
  | nil => rfl
  | cons entry rest ih =>
    obtain ⟨hfresh, hrest⟩ := List.nodupKeys_cons.mp h
    rw [List.foldl_cons, ih hrest, lookup_setEntry]
    split_ifs with hname
    · rw [hname, List.dlookup_eq_none.mpr hfresh, List.dlookup_cons_eq]
      rfl
    · rw [List.dlookup_cons_ne _ _ hname]

theorem foldl_eq_self_iff {l : List MetadataEntry} (h : l.NodupKeys) (target : Metadata) :
    l.foldl setEntry target = target ↔ ∀ entry ∈ l, target.lookup entry.1 = entry.2 := by
  constructor
  · intro hsame entry hentry
    rw [← hsame, lookup_foldl h, Option.mem_def.mp (List.mem_dlookup h hentry), Option.getD_some]
  · intro hall
    refine Finmap.ext_lookup fun name => ?_
    rw [lookup_foldl h]
    cases hfound : l.dlookup name with
    | none => rfl
    | some value => exact (hall _ (List.of_mem_dlookup hfound)).symm

/-! ## All or nothing -/

def namesAfter (target : Metadata) (entries : MetadataEntries) : Finset Bytes :=
  (target.keys ∪ entries.keys.toFinset).filter fun name =>
    ((entries.lookup name).getD (target.lookup name)).isSome

/-- An error leaves the annotations as they are, and success sets exactly the
entries, within the limits. -/
structure AllOrNothing (user : UserMetadata) (mailboxName : Bytes)
    (entries : MetadataEntries) : Prop where
  failed : (user.setMetadata mailboxName entries).2 ≠ none →
    (user.setMetadata mailboxName entries).1.target mailboxName = user.target mailboxName
  done : (user.setMetadata mailboxName entries).2 = none → ∃ target after,
    user.target mailboxName = some target ∧
      (user.setMetadata mailboxName entries).1.target mailboxName = some after ∧
      (∀ name, after.lookup name = (entries.lookup name).getD (target.lookup name)) ∧
      after.keys.card ≤ 100 ∧
      ∀ name value, entries.lookup name = some (some value) → value.length ≤ 10240

theorem keys_foldl (target : Metadata) (entries : MetadataEntries) :
    (entries.entries.foldl setEntry target).keys = namesAfter target entries := by
  ext name
  have hlookup := lookup_foldl entries.nodupKeys target name
  rw [Finmap.mem_keys, ← Finmap.lookup_isSome, hlookup, namesAfter, Finset.mem_filter,
    Finset.mem_union, Finmap.mem_keys, ← Finmap.lookup_isSome, List.mem_toFinset]
  refine ⟨fun hsome => ⟨?_, hsome⟩, fun h => h.2⟩
  cases hfound : entries.entries.dlookup name with
  | none =>
    rw [hfound] at hsome
    exact .inl hsome
  | some value => exact .inr (List.dlookup_isSome.mp (by rw [hfound]; rfl))

/--
The entries are set all or not at all exactly if the mailbox does not exist,
the entries in front of the first value that is too large are there already, or
all values are within the limit and so is the number of names.
-/
theorem setMetadata_allOrNothing_iff (user : UserMetadata) (mailboxName : Bytes)
    (entries : MetadataEntries) :
    AllOrNothing user mailboxName entries ↔ ∀ target, user.target mailboxName = some target →
      (∀ entry ∈ entries.entries.takeWhile fitsLimit, target.lookup entry.1 = entry.2) ∨
        (∀ entry ∈ entries.entries, fitsLimit entry = true) ∧
          (namesAfter target entries).card ≤ 100 := by
  cases htarget : user.target mailboxName with
  | none =>
    have hset : user.setMetadata mailboxName entries = (user, some noSuchMailbox) := by
      rw [UserMetadata.setMetadata, htarget]
    exact iff_of_true ⟨fun _ => by rw [hset], fun hdone => by simp [hset] at hdone⟩ (by simp)
  | some target =>
    rcases hloop : setMetadataLoop entries.entries target with ⟨after, err⟩
    have hset : user.setMetadata mailboxName entries = (user.setTarget mailboxName after, err) := by
      simp [UserMetadata.setMetadata, htarget, hloop]
    have hafter := user.target_setTarget mailboxName after
    have hfailed : err ≠ none → (AllOrNothing user mailboxName entries ↔ after = target) := by
      intro herr
      constructor
      · intro h
        simpa [hset, hafter, htarget] using h.failed (by simpa [hset] using herr)
      · rintro rfl
        exact ⟨fun _ => by rw [hset, hafter, htarget],
          fun hdone => absurd (by simpa [hset] using hdone) herr⟩
    have hnodup : (entries.entries.takeWhile fitsLimit).NodupKeys :=
      .sublist (List.takeWhile_sublist _) entries.nodupKeys
    rw [setMetadataLoop_eq, Prod.mk.injEq] at hloop
    obtain ⟨hloop, herr⟩ := hloop
    simp only [Option.some.injEq, forall_eq', ← foldl_eq_self_iff hnodup, hloop, ← List.all_eq_true]
    cases hall : entries.entries.all fitsLimit with
    | false =>
      rw [hall] at herr
      rw [hfailed (by simp [← herr])]
      simp
    | true =>
      have htake : entries.entries.takeWhile fitsLimit = entries.entries :=
        List.takeWhile_eq_self_iff.mpr (List.all_eq_true.mp hall)
      rw [htake] at hloop
      simp only [hall, if_true, htake, hloop] at herr
      rw [← keys_foldl, hloop]
      split_ifs at herr with hmany
      · rw [hfailed (by simp [← herr])]
        simp [Nat.not_le.mpr hmany]
      · refine iff_of_true ⟨fun hnone => absurd (by simp [hset, herr]) hnone, fun _ =>
          ⟨target, after, htarget, by rw [hset, hafter], ?_, Nat.not_lt.mp hmany, ?_⟩⟩
          (.inr ⟨rfl, Nat.not_lt.mp hmany⟩)
        · rw [← hloop]
          exact lookup_foldl entries.nodupKeys target
        · intro name value hvalue
          have hfits := List.all_eq_true.mp hall _ (List.of_mem_dlookup hvalue)
          simpa [fitsLimit] using hfits

def hugeValue : Bytes := List.replicate 10241 0

def hugeSecond : MetadataEntries :=
  ⟨[⟨[97], some []⟩, ⟨[98], some hugeValue⟩], by simp [List.NodupKeys]⟩

/-- The first entry stays although the second one is refused. -/
theorem setMetadata_keeps_first :
    let result := UserMetadata.setMetadata ⟨∅, fun _ => none⟩ [] hugeSecond
    result.2 = some valueTooLarge ∧ (result.1.target []).map (·.lookup [97]) = some (some []) := by
  have hlarge : hugeValue.length > 10240 := by
    simp only [hugeValue, List.length_replicate]
    decide
  simp only [UserMetadata.setMetadata, UserMetadata.target, if_true, setMetadataLoop, hugeSecond,
    if_pos hlarge]
  exact ⟨rfl, rfl⟩

end GoImap.MemServer

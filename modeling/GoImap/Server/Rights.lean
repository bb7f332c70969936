import GoImap.Basic

/-!
# Virtual rights

The rights `c` and `d` of the older ACL extension stand for groups of rights
that the session declares.  An answer names a virtual right if any member of
it is held, and a request that names it gets all members.  Answering and
requesting what was answered closes a set of rights under the two groups.
-/

namespace GoImap.Server

abbrev Right := UInt8

abbrev RightSet := List Right

def rightCreate : Right := 99

def rightDelete : Right := 100

def isVirtual (r : Right) : Bool := r == rightCreate || r == rightDelete

def containsRight (rs : RightSet) (r : Right) : Bool := rs.any (· == r)

def anyRightIn (members rs : RightSet) : Bool := members.any (containsRight rs)

def appendRights (keep : Right → Bool) (rs add : RightSet) : RightSet :=
  add.foldl (fun rs r => if keep r && !containsRight rs r then rs ++ [r] else rs) rs

def appendMissing (rs add : RightSet) : RightSet := appendRights (fun _ => true) rs add

structure VirtualRights where
  create : RightSet
  delete : RightSet

def newVirtualRights (create delete : RightSet) : VirtualRights :=
  let members := appendRights (!isVirtual ·) [] create
  { create := members
    delete := appendRights (fun r => !isVirtual r && !containsRight members r) [] delete }

def expandRight (named : Bool) (members : RightSet) (unsupported : String) (res : RightSet) :
    Except String RightSet :=
  if !named then .ok res
  else if members.length = 0 then .error unsupported
  else .ok (appendMissing res members)

def expandVirtualRights (rs : RightSet) (vr : VirtualRights) : Except String RightSet := do
  let res ← expandRight (containsRight rs rightCreate) vr.create "The c right is not supported"
    (rs.filter (!isVirtual ·))
  expandRight (containsRight rs rightDelete) vr.delete "The d right is not supported" res

def formatRightsWithCompat (rs : RightSet) (vr : VirtualRights) : Bytes :=
  rs ++ (if anyRightIn vr.create rs && !containsRight rs rightCreate then [rightCreate] else []) ++
    if anyRightIn vr.delete rs && !containsRight rs rightDelete then [rightDelete] else []

/-! ## Appending rights -/

variable {rs add members : RightSet} {r : Right} {vr : VirtualRights}

@[simp] theorem containsRight_eq : containsRight rs r = decide (r ∈ rs) := by
  rw [Bool.eq_iff_iff]
  simp [containsRight]

theorem anyRightIn_iff : anyRightIn members rs = true ↔ ∃ m ∈ members, m ∈ rs := by
  simp [anyRightIn]

theorem appendRights_eq (keep : Right → Bool) (rs add : RightSet) :
    ∃ added, appendRights keep rs add = rs ++ added ∧ added.Nodup ∧
      ∀ r, r ∈ added ↔ r ∈ add ∧ keep r = true ∧ r ∉ rs := by
  induction add generalizing rs with
  | nil => exact ⟨[], by simp [appendRights]⟩
  | cons first rest ih =>
    by_cases h : keep first = true ∧ first ∉ rs
    · obtain ⟨added, hadded, hnodup, hmem⟩ := ih (rs ++ [first])
      refine ⟨first :: added, ?_, List.nodup_cons.mpr ⟨by simp [hmem], hnodup⟩, ?_⟩
      · simpa [appendRights, h] using hadded
      · grind
    · obtain ⟨added, hadded, hnodup, hmem⟩ := ih rs
      refine ⟨added, ?_, hnodup, by grind⟩
      rw [appendRights, List.foldl_cons, if_neg (by simpa using h)]
      exact hadded

theorem appendRights_nil (keep : Right → Bool) (add : RightSet) :
    (appendRights keep [] add).Nodup ∧
      ∀ r, r ∈ appendRights keep [] add ↔ r ∈ add ∧ keep r = true := by
  obtain ⟨added, hadded, hnodup, hmem⟩ := appendRights_eq keep [] add
  rw [hadded, List.nil_append]
  exact ⟨hnodup, by simpa using hmem⟩

theorem expandRight_eq {named : Bool} (hmembers : named = true → members ≠ [])
    (unsupported : String) (res : RightSet) :
    ∃ added, expandRight named members unsupported res = .ok (res ++ added) ∧ added.Nodup ∧
      ∀ r, r ∈ added ↔ named = true ∧ r ∈ members ∧ r ∉ res := by
  cases named with
  | false => exact ⟨[], by simp [expandRight]⟩
  | true =>
    obtain ⟨added, hadded, hnodup, hmem⟩ := appendRights_eq (fun _ => true) res members
    refine ⟨added, ?_, hnodup, by simpa using hmem⟩
    simp [expandRight, appendMissing, hmembers, hadded]

/-! ## Declarations -/

def Plain (rs : RightSet) : Prop := ∀ r ∈ rs, isVirtual r = false

structure VirtualRights.Normal (vr : VirtualRights) : Prop where
  create_plain : Plain vr.create
  delete_plain : Plain vr.delete
  create_nodup : vr.create.Nodup
  delete_nodup : vr.delete.Nodup
  disjoint : vr.create.Disjoint vr.delete

/-- A declaration keeps what is not virtual, and a right declared for both is
a member of the first. -/
theorem mem_newVirtualRights (create delete : RightSet) (r : Right) :
    (r ∈ (newVirtualRights create delete).create ↔ r ∈ create ∧ isVirtual r = false) ∧
      (r ∈ (newVirtualRights create delete).delete ↔
        r ∈ delete ∧ isVirtual r = false ∧ r ∉ create) := by
  have hcreate : r ∈ (newVirtualRights create delete).create ↔
      r ∈ create ∧ isVirtual r = false := by
    simp [newVirtualRights, (appendRights_nil _ _).2]
  refine ⟨hcreate, ?_⟩
  have hdelete : r ∈ (newVirtualRights create delete).delete ↔ r ∈ delete ∧
      (!isVirtual r && !containsRight (newVirtualRights create delete).create r) = true :=
    (appendRights_nil _ _).2 r
  rw [hdelete, containsRight_eq, Bool.and_eq_true, Bool.not_eq_true', Bool.not_eq_true',
    decide_eq_false_iff_not, hcreate]
  tauto

theorem newVirtualRights_normal (create delete : RightSet) :
    (newVirtualRights create delete).Normal := by
  have hmem := mem_newVirtualRights create delete
  exact ⟨fun r hr => ((hmem r).1.mp hr).2, fun r hr => ((hmem r).2.mp hr).2.1,
    (appendRights_nil _ _).1, (appendRights_nil _ _).1,
    fun r hr hdelete => ((hmem r).2.mp hdelete).2.2 ((hmem r).1.mp hr).1⟩

/-! ## The closure -/

/-- What is requested by naming all rights of an answer. -/
def close (vr : VirtualRights) (rs : RightSet) : Except String RightSet :=
  expandVirtualRights (formatRightsWithCompat rs vr) vr

/-- The rights that a virtual right adds to those held. -/
def Implied (members rs : RightSet) (r : Right) : Prop := anyRightIn members rs = true ∧ r ∈ members

theorem close_eq (hrs : Plain rs) (vr : VirtualRights) :
    ∃ added, close vr rs = .ok (rs ++ added) ∧ added.Nodup ∧ added.Disjoint rs ∧
      ∀ r, r ∈ rs ++ added ↔ r ∈ rs ∨ Implied vr.create rs r ∨ Implied vr.delete rs r := by
  have hcreate : rightCreate ∉ rs := fun h => absurd (hrs _ h) (by decide)
  have hdelete : rightDelete ∉ rs := fun h => absurd (hrs _ h) (by decide)
  have hdiffer : rightCreate ≠ rightDelete := by decide
  have hfilter : (formatRightsWithCompat rs vr).filter (!isVirtual ·) = rs := by
    have hall : rs.filter (!isVirtual ·) = rs :=
      List.filter_eq_self.mpr fun r hr => by simp [hrs r hr]
    simp only [formatRightsWithCompat, List.filter_append, hall]
    split_ifs <;> simp [isVirtual]
  have hmembers : ∀ {members}, anyRightIn members rs = true → members ≠ [] := by
    rintro members h rfl
    cases h
  obtain ⟨first, hfirst, hnodup, hmem⟩ :=
    expandRight_eq (@hmembers vr.create) "The c right is not supported" rs
  obtain ⟨second, hsecond, hnodup', hmem'⟩ :=
    expandRight_eq (@hmembers vr.delete) "The d right is not supported" (rs ++ first)
  refine ⟨first ++ second, ?_, ?_, ?_, ?_⟩
  · have hc : containsRight (formatRightsWithCompat rs vr) rightCreate =
        anyRightIn vr.create rs := by
      simp [formatRightsWithCompat, hcreate, hdelete, hdiffer]
    have hd : containsRight (formatRightsWithCompat rs vr) rightDelete =
        anyRightIn vr.delete rs := by
      simp [formatRightsWithCompat, hcreate, hdelete, hdiffer.symm]
    rw [close, expandVirtualRights, hfilter, hc, hd, hfirst, ← List.append_assoc]
    exact hsecond
  · refine List.nodup_append.mpr ⟨hnodup, hnodup', ?_⟩
    grind
  · intro r hr
    grind
  · intro r
    simp only [List.mem_append, hmem, hmem', Implied]
    tauto

/-! ## Closed sets -/

def AllOrNone (members rs : RightSet) : Prop := members ⊆ rs ∨ members.Disjoint rs

theorem allOrNone_iff : AllOrNone members rs ↔ ∀ r, Implied members rs r → r ∈ rs := by
  constructor
  · rintro (h | h) r ⟨hany, hr⟩
    · exact h hr
    · obtain ⟨m, hm, hheld⟩ := anyRightIn_iff.mp hany
      exact absurd hheld (h hm)
  · intro h
    by_cases hany : anyRightIn members rs = true
    · exact .inl fun r hr => h r ⟨hany, hr⟩
    · exact .inr fun r hr hheld => hany (anyRightIn_iff.mpr ⟨r, hr, hheld⟩)

theorem Implied.mono {more : RightSet} (hsubset : rs ⊆ more) (h : Implied members rs r) :
    Implied members more r := by
  obtain ⟨m, hm, hheld⟩ := anyRightIn_iff.mp h.1
  exact ⟨anyRightIn_iff.mpr ⟨m, hm, hsubset hheld⟩, h.2⟩

theorem Implied.of_closed {others closed : RightSet} (hdisjoint : members.Disjoint others)
    (hmem : ∀ r, r ∈ closed ↔ r ∈ rs ∨ Implied members rs r ∨ Implied others rs r)
    (h : Implied members closed r) : Implied members rs r := by
  obtain ⟨m, hm, hheld⟩ := anyRightIn_iff.mp h.1
  rcases (hmem m).mp hheld with hheld | himplied | himplied
  · exact ⟨anyRightIn_iff.mpr ⟨m, hm, hheld⟩, h.2⟩
  · exact ⟨himplied.1, h.2⟩
  · exact absurd himplied.2 (hdisjoint hm)

/--
For every declaration, asking for what is answered succeeds and is a closure of
the rights held: it adds members of the virtual rights only, each once, keeps
inclusions, adds nothing the second time, and adds nothing at all exactly if of
each virtual right all members are held or none.
-/
theorem virtualRights_closure (create delete : RightSet) :
    let vr := newVirtualRights create delete
    vr.create.Nodup ∧ vr.delete.Nodup ∧ vr.create.Disjoint vr.delete ∧
    ∀ rs, Plain rs → ∃ added, close vr rs = .ok (rs ++ added) ∧ added.Nodup ∧ added.Disjoint rs ∧
      Plain (rs ++ added) ∧ (∀ r ∈ added, r ∈ vr.create ∨ r ∈ vr.delete) ∧
      (∀ more, Plain more → rs ⊆ more →
        ∃ closed, close vr more = .ok closed ∧ rs ++ added ⊆ closed) ∧
      (∃ again, close vr (rs ++ added) = .ok again ∧ ∀ r, r ∈ again ↔ r ∈ rs ++ added) ∧
      ((∀ r, r ∈ rs ++ added ↔ r ∈ rs) ↔ AllOrNone vr.create rs ∧ AllOrNone vr.delete rs) := by
  intro vr
  have hnormal : vr.Normal := newVirtualRights_normal create delete
  refine ⟨hnormal.create_nodup, hnormal.delete_nodup, hnormal.disjoint, fun rs hrs => ?_⟩
  obtain ⟨added, hclose, hnodup, hfresh, hmem⟩ := close_eq hrs vr
  have hplain : Plain (rs ++ added) := by
    intro r hr
    rcases (hmem r).mp hr with h | h | h
    · exact hrs r h
    · exact hnormal.create_plain r h.2
    · exact hnormal.delete_plain r h.2
  refine ⟨added, hclose, hnodup, hfresh, hplain, ?_, ?_, ?_, ?_⟩
  · intro r hr
    have hsome := (hmem r).mp (List.mem_append_right _ hr)
    exact (hsome.resolve_left (hfresh hr)).imp And.right And.right
  · intro more hmore hsubset
    obtain ⟨others, hclosed, -, -, hothers⟩ := close_eq hmore vr
    refine ⟨_, hclosed, fun r hr => ?_⟩
    rw [hmem] at hr
    rw [hothers]
    exact hr.imp (@hsubset r) (Or.imp (.mono hsubset) (.mono hsubset))
  · obtain ⟨others, hclosed, -, -, hothers⟩ := close_eq hplain vr
    refine ⟨_, hclosed, fun r => ?_⟩
    rw [hothers]
    refine ⟨?_, .inl⟩
    rintro (h | h | h)
    · exact h
    · exact (hmem r).mpr (.inr (.inl (h.of_closed hnormal.disjoint hmem)))
    · exact (hmem r).mpr (.inr (.inr (h.of_closed (fun _ hd hc => hnormal.disjoint hc hd)
        fun m => (hmem m).trans (or_congr_right or_comm))))
  · rw [allOrNone_iff, allOrNone_iff, ← forall_and]
    refine forall_congr' fun r => ?_
    rw [hmem]
    tauto

/-- With `k` all of `c` is given, so `x` is added. -/
theorem virtualRights_closure_firstFamily :
    Plain (ascii "lrk") ∧ close (newVirtualRights (ascii "kxc") (ascii "tek"))
      (ascii "lrk") = .ok (ascii "lrk" ++ ascii "x") ∧ Plain (ascii "lrk" ++ ascii "x") := by
  have hplain : Plain (ascii "lrk") := by
    unfold Plain
    decide +kernel
  obtain ⟨added, hclose, -, -, hclosed, -⟩ :=
    (virtualRights_closure (ascii "kxc") (ascii "tek")).2.2.2 _ hplain
  have hx : close (newVirtualRights (ascii "kxc") (ascii "tek")) (ascii "lrk") =
      .ok (ascii "lrk" ++ ascii "x") := by decide +kernel
  rw [hx, Except.ok.injEq, List.append_cancel_left_eq] at hclose
  rw [← hclose] at hclosed
  exact ⟨hplain, hx, hclosed⟩

end GoImap.Server

/-
  Objects, relations and users as strings (`pkg/tuple/tuple.go`).

  Tuples travel and are stored as strings.  The functions here take them apart and put
  them together, and say which strings are well formed.  A user that `IsValidUser`
  accepts is read back from its parts: `fromUserParts_toUserParts`.
-/

import OpenFGA.Lib.Cut

namespace OpenFGA.Tuple
open List

/-! ## Taking strings apart -/

def splitObject (object : String) : String × String :=
  match Cut.first ':' object.toList with
  | none => ("", object)
  | some (type, id) => (String.ofList type, String.ofList id)

def buildObject (objectType objectID : String) : String := objectType ++ ":" ++ objectID

def splitObjectRelation (objectRelation : String) : String × String :=
  match Cut.last '#' objectRelation.toList with
  | none => (objectRelation, "")
  | some (object, relation) => (String.ofList object, String.ofList relation)

def getType (objectID : String) : String := (splitObject objectID).1

def getRelation (objectRelation : String) : String := (splitObjectRelation objectRelation).2

/-- An `ObjectRelation` of the API. -/
structure ObjectRelation where
  object : String
  relation : String
deriving DecidableEq, Repr

/-- A tuple as it is written.  `condition` is the name of its condition; a tuple without
    one has the empty name, which no condition has. -/
structure Key where
  object : String
  relation : String
  user : String
  condition : String
  conditionContext : String
deriving DecidableEq, Repr

def getObjectRelationAsString (u : ObjectRelation) : String :=
  if u.relation ≠ "" then u.object ++ "#" ++ u.relation else u.object

def toUserPartsFromObjectRelation (u : ObjectRelation) : String × String × String :=
  ((splitObject u.object).1, (splitObject u.object).2, u.relation)

def toUserParts (user : String) : String × String × String :=
  let (userObject, userRelation) := splitObjectRelation user
  let (userObjectType, userObjectID) := splitObject userObject
  (userObjectType, userObjectID, userRelation)

def fromUserParts (userObjectType userObjectID userRelation : String) : String :=
  (if userObjectType = "" then userObjectID else userObjectType ++ ":" ++ userObjectID) ++
    if userRelation = "" then "" else "#" ++ userRelation

/-! ## Well-formed strings -/

def isControl (c : Char) : Bool := c.toNat < 0x20 || (0x7f ≤ c.toNat && c.toNat < 0xa0)

/-- The loop of `IsValidObject`; `ndx` is the position in the string. -/
def validObjectLoop (ndx state idLen : Nat) : List Char → Bool
  | [] => 0 < idLen
  | c :: cs =>
    if isControl c then false
    else if c = '#' ∨ c = ' ' then false
    else if c = ':' then
      if 0 < state ∨ ndx = 0 then false else validObjectLoop (ndx + 1) 1 idLen cs
    else validObjectLoop (ndx + 1) state (idLen + state) cs

def isValidObject (s : String) : Bool := validObjectLoop 0 0 0 s.toList

def isValidRelation (s : String) : Bool :=
  s ≠ "" && s.toList.all fun c => !isControl c && c ≠ '#' && c ≠ ':' && c ≠ '@' && c ≠ ' '

def isValidUserID (s : String) : Bool :=
  s ≠ "" && s.toList.all fun c => !isControl c && c ≠ '#' && c ≠ ':' && c ≠ ' '

/-- The loop of `IsValidUserset`. -/
def validUsersetLoop (ndx state idLen relLen : Nat) : List Char → Bool
  | [] => 0 < relLen
  | c :: cs =>
    if isControl c then false
    else if c = ':' then
      if 0 < state ∨ ndx = 0 then false else validUsersetLoop (ndx + 1) 1 idLen relLen cs
    else if c = '#' then
      if 1 < state ∨ idLen = 0 then false else validUsersetLoop (ndx + 1) 2 idLen relLen cs
    else if c = ' ' then false
    else if c = '*' then
      if 0 < state then false else validUsersetLoop (ndx + 1) state idLen relLen cs
    else if state = 1 then validUsersetLoop (ndx + 1) state (idLen + 1) relLen cs
    else if state = 2 then validUsersetLoop (ndx + 1) state idLen (relLen + 1) cs
    else validUsersetLoop (ndx + 1) state idLen relLen cs

def isValidUserset (s : String) : Bool := validUsersetLoop 0 0 0 0 s.toList

def isObjectRelation (userset : String) : Bool := isValidUserset userset

def isValidUser (user : String) : Bool :=
  user = "*" || isValidUserID user || isValidObject user || isValidUserset user

def isTypedWildcard (s : String) : Bool := (splitObject s).1 ≠ "" && (splitObject s).2 = "*"

def isWildcard (s : String) : Bool := s = "*" || isTypedWildcard s

/-- `UserType`. -/
inductive UserKind where
  | user
  | userSet
deriving DecidableEq, Repr

/-- The string a `UserType` is. -/
def UserKind.toString : UserKind → String
  | .user => "user"
  | .userSet => "userset"

def getUserTypeFromUser (user : String) : UserKind :=
  if isObjectRelation user || isWildcard user then .userSet else .user

/-! ## What the loops accept -/

/-- A character of a part: no loop stops at it, save at a star. -/
def isPlain (c : Char) : Bool := !isControl c && c ≠ '#' && c ≠ ':' && c ≠ ' '

lemma isPlain_iff {c} :
    isPlain c = true ↔ isControl c = false ∧ c ≠ '#' ∧ c ≠ ':' ∧ c ≠ ' ' := by
  simp [isPlain, and_assoc]

section
variable {ndx state idLen relLen : Nat} {part rest : List Char} {c : Char}

lemma exists_span (p : Char → Bool) (cs : List Char) :
    ∃ part, (∀ c ∈ part, p c = true) ∧
      (cs = part ∨ ∃ c rest, cs = part ++ c :: rest ∧ p c = false) := by
  refine ⟨cs.takeWhile p, fun c => mem_takeWhile_imp, ?_⟩
  have hhead := head?_dropWhile_not p cs
  have hsplit := takeWhile_append_dropWhile (p := p) (l := cs)
  cases hdrop : cs.dropWhile p with
  | nil => exact .inl (by rw [hdrop, append_nil] at hsplit; exact hsplit.symm)
  | cons c rest =>
    rw [hdrop] at hhead hsplit
    exact .inr ⟨c, rest, hsplit.symm, hhead⟩

lemma validObjectLoop_append (h : ∀ c ∈ part, isPlain c = true) :
    validObjectLoop ndx state idLen (part ++ rest) =
      validObjectLoop (ndx + part.length) state (idLen + state * part.length) rest := by
  induction part generalizing ndx idLen with
  | nil => rfl
  | cons c part ih =>
    obtain ⟨hc, hpart⟩ := forall_mem_cons.mp h
    obtain ⟨hctl, hhash, hcolon, hspace⟩ := isPlain_iff.mp hc
    rw [cons_append, validObjectLoop]
    simp only [hctl, hhash, hspace, hcolon, or_self, if_false, Bool.false_eq_true]
    rw [ih hpart, length_cons, Nat.mul_add_one]
    congr 1 <;> omega

lemma validObjectLoop_stop (h : isPlain c = false) :
    validObjectLoop ndx state idLen (c :: rest) =
      (decide (c = ':' ∧ state = 0 ∧ ndx ≠ 0) && validObjectLoop (ndx + 1) 1 idLen rest) := by
  rw [validObjectLoop]
  by_cases hcolon : c = ':'
  · subst hcolon
    by_cases hstop : 0 < state ∨ ndx = 0
    · simp [isControl, hstop]
      omega
    · simp [isControl, hstop]
      omega
  · rw [← Bool.not_eq_true, isPlain_iff] at h
    simp only [hcolon, false_and, decide_false, Bool.false_and, if_false]
    split_ifs with hctl hsep
    · rfl
    · rfl
    · exact absurd ⟨by simpa using hctl, fun hc => hsep (.inl hc), hcolon,
        fun hc => hsep (.inr hc)⟩ h

/-- A nonempty part of a string. -/
def Part (p : Char → Bool) (cs : List Char) : Prop := cs ≠ [] ∧ ∀ c ∈ cs, p c = true

lemma validObjectLoop_iff {cs} : validObjectLoop 0 0 0 cs = true ↔
    ∃ type id, cs = type ++ ':' :: id ∧ Part isPlain type ∧ Part isPlain id := by
  constructor
  · intro h
    obtain ⟨type, htype, rfl | ⟨c, rest, rfl, hc⟩⟩ := exists_span isPlain cs
    · rw [← append_nil cs, validObjectLoop_append htype] at h
      simp [validObjectLoop] at h
    rw [validObjectLoop_append htype, validObjectLoop_stop hc, Bool.and_eq_true,
      decide_eq_true_eq] at h
    obtain ⟨⟨rfl, -, hne⟩, h⟩ := h
    obtain ⟨id, hid, rfl | ⟨c, rest', rfl, hc⟩⟩ := exists_span isPlain rest
    · rw [← append_nil rest, validObjectLoop_append hid] at h
      refine ⟨type, rest, rfl, ⟨?_, htype⟩, ?_, hid⟩
      · rintro rfl
        exact hne rfl
      · rintro rfl
        simp [validObjectLoop] at h
    · simp [validObjectLoop_append hid, validObjectLoop_stop hc] at h
  · rintro ⟨type, id, rfl, ⟨htne, htype⟩, hine, hid⟩
    rw [validObjectLoop_append htype, validObjectLoop_stop rfl, ← append_nil id,
      validObjectLoop_append hid]
    simp [validObjectLoop, htne, length_pos_iff, hine]

/-- A plain character, but no star behind the type. -/
def passes (state : Nat) (c : Char) : Bool := isPlain c && (c ≠ '*' || state = 0)

lemma validUsersetLoop_append (h : ∀ c ∈ part, passes state c = true) :
    validUsersetLoop ndx state idLen relLen (part ++ rest) =
      validUsersetLoop (ndx + part.length) state (idLen + if state = 1 then part.length else 0)
        (relLen + if state = 2 then part.length else 0) rest := by
  induction part generalizing ndx idLen relLen with
  | nil => simp
  | cons c part ih =>
    obtain ⟨hc, hpart⟩ := forall_mem_cons.mp h
    simp only [passes, Bool.and_eq_true, Bool.or_eq_true, decide_eq_true_eq] at hc
    obtain ⟨hctl, hhash, hcolon, hspace⟩ := isPlain_iff.mp hc.1
    rw [cons_append, validUsersetLoop]
    simp only [hctl, hhash, hspace, hcolon, if_false, Bool.false_eq_true]
    rcases hc.2 with hstar | rfl
    · rcases eq_or_ne state 1 with rfl | hone
      · simp [hstar, ih hpart, Nat.add_assoc, Nat.add_comm 1]
      rcases eq_or_ne state 2 with rfl | htwo
      · simp [hstar, ih hpart, Nat.add_assoc, Nat.add_comm 1]
      · simp [hstar, hone, htwo, ih hpart, Nat.add_assoc, Nat.add_comm 1]
    · simp [ih hpart, Nat.add_assoc, Nat.add_comm 1]

lemma validUsersetLoop_stop (h : passes state c = false) :
    validUsersetLoop ndx state idLen relLen (c :: rest) =
      (decide (c = ':' ∧ state = 0 ∧ ndx ≠ 0) && validUsersetLoop (ndx + 1) 1 idLen relLen rest ||
        decide (c = '#' ∧ state ≤ 1 ∧ idLen ≠ 0) &&
          validUsersetLoop (ndx + 1) 2 idLen relLen rest) := by
  rw [validUsersetLoop]
  by_cases hcolon : c = ':'
  · subst hcolon
    by_cases hstop : 0 < state ∨ ndx = 0
    · have : ¬ (state = 0 ∧ ndx ≠ 0) := by omega
      simp [isControl, hstop, this]
    · have : state = 0 ∧ ndx ≠ 0 := by omega
      simp [isControl, this]
  by_cases hhash : c = '#'
  · subst hhash
    by_cases hstop : 1 < state ∨ idLen = 0
    · have : ¬ (state ≤ 1 ∧ idLen ≠ 0) := by omega
      simp [isControl, hstop, this]
    · have : state ≤ 1 ∧ idLen ≠ 0 := by omega
      simp [isControl, this]
  simp only [hcolon, hhash, false_and, decide_false, Bool.false_and, Bool.or_false, if_false]
  by_cases hstop : isControl c = true ∨ c = ' '
  · rcases hstop with hctl | rfl
    · simp [hctl]
    · simp [isControl]
  · rw [not_or, Bool.not_eq_true] at hstop
    have hplain : isPlain c = true := isPlain_iff.mpr ⟨hstop.1, hhash, hcolon, hstop.2⟩
    simp only [passes, hplain, Bool.true_and, Bool.or_eq_false_iff, decide_eq_false_iff_not,
      not_not] at h
    simp [h.1, Nat.pos_of_ne_zero h.2]

lemma validUsersetLoop_iff {cs} : validUsersetLoop 0 0 0 0 cs = true ↔
    ∃ type id relation, cs = type ++ ':' :: (id ++ '#' :: relation) ∧ Part (passes 0) type ∧
      Part (passes 1) id ∧ Part (passes 2) relation := by
  constructor
  · intro h
    obtain ⟨type, htype, rfl | ⟨c, rest, rfl, hc⟩⟩ := exists_span (passes 0) cs
    · rw [← append_nil cs, validUsersetLoop_append htype] at h
      simp [validUsersetLoop] at h
    simp only [validUsersetLoop_append htype, validUsersetLoop_stop hc, Bool.or_eq_true,
      Bool.and_eq_true, decide_eq_true_eq] at h
    obtain ⟨⟨rfl, -, htne⟩, h⟩ | h := h
    rotate_left
    · simp at h
    obtain ⟨id, hid, rfl | ⟨c, rest', rfl, hc⟩⟩ := exists_span (passes 1) rest
    · rw [← append_nil rest, validUsersetLoop_append hid] at h
      simp [validUsersetLoop] at h
    simp only [validUsersetLoop_append hid, validUsersetLoop_stop hc, Bool.or_eq_true,
      Bool.and_eq_true, decide_eq_true_eq] at h
    obtain h | ⟨⟨rfl, -, hine⟩, h⟩ := h
    · simp at h
    obtain ⟨relation, hrel, rfl | ⟨c, rest, rfl, hc⟩⟩ := exists_span (passes 2) rest'
    · rw [← append_nil rest', validUsersetLoop_append hrel] at h
      refine ⟨type, id, rest', rfl, ⟨?_, htype⟩, ⟨?_, hid⟩, ?_, hrel⟩
      · rintro rfl
        simp at htne
      · rintro rfl
        simp at hine
      · rintro rfl
        simp [validUsersetLoop] at h
    · simp [validUsersetLoop_append hrel, validUsersetLoop_stop hc] at h
  · rintro ⟨type, id, relation, rfl, ⟨htne, htype⟩, ⟨hine, hid⟩, hrne, hrel⟩
    rw [validUsersetLoop_append htype, validUsersetLoop_stop rfl, validUsersetLoop_append hid,
      validUsersetLoop_stop rfl, ← append_nil relation, validUsersetLoop_append hrel]
    simp [validUsersetLoop, htne, hine, length_pos_iff, hrne]

end

/-! ## Parts of well-formed strings -/

section
variable {s type id object relation user : String}

lemma splitObject_of_notMem (h : ':' ∉ s.toList) : splitObject s = ("", s) := by
  rw [splitObject, Cut.first_eq_none.mpr h]

lemma splitObject_buildObject (h : ':' ∉ type.toList) (id : String) :
    splitObject (buildObject type id) = (type, id) := by
  have hlist : (buildObject type id).toList = type.toList ++ ':' :: id.toList := by
    simp [buildObject]
  rw [splitObject, hlist, Cut.first_append h]
  simp

lemma eq_buildObject (h : (splitObject s).1 ≠ "") :
    s = buildObject (splitObject s).1 (splitObject s).2 := by
  cases hcut : Cut.first ':' s.toList with
  | none =>
    rw [splitObject, hcut] at h
    exact absurd rfl h
  | some p =>
    obtain ⟨hlist, -⟩ := Cut.first_eq_some.mp hcut
    have hsplit : splitObject s = (String.ofList p.1, String.ofList p.2) := by
      rw [splitObject, hcut]
    rw [hsplit, ← String.toList_inj, hlist]
    simp [buildObject]

lemma splitObjectRelation_of_notMem (h : '#' ∉ s.toList) : splitObjectRelation s = (s, "") := by
  rw [splitObjectRelation, Cut.last_eq_none.mpr h]

lemma splitObjectRelation_append (h : '#' ∉ relation.toList) (object : String) :
    splitObjectRelation (object ++ "#" ++ relation) = (object, relation) := by
  have hlist : (object ++ "#" ++ relation).toList = object.toList ++ '#' :: relation.toList := by
    simp
  rw [splitObjectRelation, hlist, Cut.last_append h]
  simp

lemma isValidUserID_iff : isValidUserID s = true ↔ Part isPlain s.toList := by
  simp [isValidUserID, Part, isPlain]

lemma isValidObject_iff : isValidObject s = true ↔
    ∃ type id, s = buildObject type id ∧ isValidUserID type = true ∧ isValidUserID id = true := by
  rw [isValidObject, validObjectLoop_iff]
  simp only [isValidUserID_iff]
  constructor
  · rintro ⟨type, id, hs, htype, hid⟩
    refine ⟨String.ofList type, String.ofList id, ?_, by simpa using htype, by simpa using hid⟩
    rw [← String.toList_inj, hs]
    simp [buildObject]
  · rintro ⟨type, id, rfl, htype, hid⟩
    exact ⟨_, _, by simp [buildObject], htype, hid⟩

lemma part_passes {state} (hstate : state ≠ 0) : Part (passes state) s.toList ↔
    isValidUserID s = true ∧ '*' ∉ s.toList := by
  rw [isValidUserID_iff, Part, Part, and_assoc]
  refine and_congr_right fun _ => ?_
  simp only [passes, hstate, decide_false, Bool.or_false, Bool.and_eq_true, decide_eq_true_eq,
    forall_and, ne_eq]
  refine and_congr_right fun _ => ⟨fun h hmem => h _ hmem rfl, fun h c hmem hc => h (hc ▸ hmem)⟩

lemma isValidUserset_iff : isValidUserset s = true ↔ ∃ type id relation,
    s = buildObject type id ++ "#" ++ relation ∧ isValidUserID type = true ∧
      (isValidUserID id = true ∧ '*' ∉ id.toList) ∧
        isValidUserID relation = true ∧ '*' ∉ relation.toList := by
  have hpasses : passes 0 = isPlain := by
    funext c
    simp [passes]
  rw [isValidUserset, validUsersetLoop_iff, hpasses]
  constructor
  · rintro ⟨type, id, relation, hs, htype, hid, hrel⟩
    refine ⟨String.ofList type, String.ofList id, String.ofList relation, ?_,
      isValidUserID_iff.mpr (by simpa using htype),
        (part_passes one_ne_zero).mp (by simpa using hid),
      (part_passes two_ne_zero).mp (by simpa using hrel)⟩
    rw [← String.toList_inj, hs]
    simp [buildObject]
  · rintro ⟨type, id, relation, rfl, htype, hid, hrel⟩
    exact ⟨_, _, _, by simp [buildObject], isValidUserID_iff.mp htype,
      (part_passes one_ne_zero).mpr hid, (part_passes two_ne_zero).mpr hrel⟩

lemma isValidRelation_iff :
    isValidRelation s = true ↔ isValidUserID s = true ∧ '@' ∉ s.toList := by
  simp only [isValidRelation, isValidUserID, Bool.and_eq_true, all_eq_true, decide_eq_true_eq,
    and_assoc, forall_and]
  have hat : (∀ c ∈ s.toList, c ≠ '@') ↔ '@' ∉ s.toList :=
    ⟨fun h hmem => h _ hmem rfl, fun h c hmem hc => h (hc ▸ hmem)⟩
  rw [hat]
  tauto

lemma notMem_of_isValidUserID (h : isValidUserID s = true) :
    ':' ∉ s.toList ∧ '#' ∉ s.toList ∧ s ≠ "" := by
  obtain ⟨hne, hplain⟩ := isValidUserID_iff.mp h
  refine ⟨fun hmem => ?_, fun hmem => ?_, by simpa using hne⟩
  · exact absurd (hplain _ hmem) (by decide)
  · exact absurd (hplain _ hmem) (by decide)

lemma exists_of_isValidObject (h : isValidObject s = true) :
    ∃ type id, s = buildObject type id ∧ type ≠ "" ∧ ':' ∉ type.toList ∧ '#' ∉ s.toList := by
  obtain ⟨type, id, rfl, htype, hid⟩ := isValidObject_iff.mp h
  obtain ⟨htc, hth, htne⟩ := notMem_of_isValidUserID htype
  obtain ⟨-, hih, -⟩ := notMem_of_isValidUserID hid
  exact ⟨type, id, rfl, htne, htc, by simp [buildObject, hth, hih]⟩

lemma hash_notMem (h : isValidObject s = true) : '#' ∉ s.toList := by
  obtain ⟨-, -, -, -, -, hh⟩ := exists_of_isValidObject h
  exact hh

lemma type_ne_empty (h : isValidObject s = true) : (splitObject s).1 ≠ "" := by
  obtain ⟨type, id, rfl, hne, htc, -⟩ := exists_of_isValidObject h
  rwa [splitObject_buildObject htc]

lemma id_ne_empty (h : isValidObject s = true) : (splitObject s).2 ≠ "" := by
  obtain ⟨type, id, rfl, htype, hid⟩ := isValidObject_iff.mp h
  rw [splitObject_buildObject (notMem_of_isValidUserID htype).1]
  exact (notMem_of_isValidUserID hid).2.2

lemma exists_of_isValidUserset (h : isValidUserset s = true) :
    ∃ type id relation, s = buildObject type id ++ "#" ++ relation ∧ type ≠ "" ∧
      ':' ∉ type.toList ∧ '#' ∉ (buildObject type id).toList ∧ '#' ∉ relation.toList ∧
      relation ≠ "" := by
  obtain ⟨type, id, relation, rfl, htype, ⟨hid, -⟩, hrel, -⟩ := isValidUserset_iff.mp h
  obtain ⟨htc, hth, htne⟩ := notMem_of_isValidUserID htype
  obtain ⟨-, hih, -⟩ := notMem_of_isValidUserID hid
  obtain ⟨-, hrh, hrne⟩ := notMem_of_isValidUserID hrel
  exact ⟨type, id, relation, rfl, htne, htc, by simp [buildObject, hth, hih], hrh, hrne⟩

lemma toUserParts_of_notMem (h : '#' ∉ user.toList) :
    toUserParts user = ((splitObject user).1, (splitObject user).2, "") := by
  rw [toUserParts, splitObjectRelation_of_notMem h]

lemma toUserParts_userset (htype : ':' ∉ type.toList) (hrel : '#' ∉ relation.toList) (id : String) :
    toUserParts (buildObject type id ++ "#" ++ relation) = (type, id, relation) := by
  rw [toUserParts, splitObjectRelation_append hrel]
  simp only [splitObject_buildObject htype]

lemma userset_id_ne_empty (h : isValidUserset s = true) : (toUserParts s).2.1 ≠ "" := by
  obtain ⟨type, id, relation, rfl, htype, ⟨hid, -⟩, hrel, -⟩ := isValidUserset_iff.mp h
  rw [toUserParts_userset (notMem_of_isValidUserID htype).1 (notMem_of_isValidUserID hrel).2.1]
  exact (notMem_of_isValidUserID hid).2.2

/-- A valid user is an id, an object or a userset. -/
lemma valid_user_cases (h : isValidUser user = true) :
    (':' ∉ user.toList ∧ '#' ∉ user.toList) ∨ isValidObject user = true ∨
      isValidUserset user = true := by
  simp only [isValidUser, Bool.or_eq_true, decide_eq_true_iff] at h
  rcases h with ((rfl | hid) | hobject) | huserset
  · exact .inl (by decide)
  · obtain ⟨hc, hh, -⟩ := notMem_of_isValidUserID hid
    exact .inl ⟨hc, hh⟩
  · exact .inr (.inl hobject)
  · exact .inr (.inr huserset)

lemma isTypedWildcard_iff : isTypedWildcard s = true ↔
    ∃ type, type ≠ "" ∧ ':' ∉ type.toList ∧ s = buildObject type "*" := by
  simp only [isTypedWildcard, Bool.and_eq_true, decide_eq_true_iff]
  constructor
  · rintro ⟨hne, hid⟩
    refine ⟨(splitObject s).1, hne, ?_, ?_⟩
    · cases hcut : Cut.first ':' s.toList with
      | none =>
        rw [splitObject, hcut] at hne
        exact absurd rfl hne
      | some p =>
        rw [splitObject, hcut]
        simpa using (Cut.first_eq_some.mp hcut).2
    · have hs := eq_buildObject hne
      rwa [hid] at hs
  · rintro ⟨type, hne, hc, rfl⟩
    rw [splitObject_buildObject hc]
    exact ⟨hne, rfl⟩

/-- A valid user of this kind is a userset, a typed wildcard or the wildcard. -/
lemma userSet_cases (h : getUserTypeFromUser user = .userSet) :
    isValidUserset user = true ∨ isTypedWildcard user = true ∨ user = "*" := by
  have hk : (isObjectRelation user || isWildcard user) = true := by
    by_contra hk
    rw [getUserTypeFromUser, if_neg hk] at h
    cases h
  simp only [isObjectRelation, isWildcard, Bool.or_eq_true, decide_eq_true_iff] at hk
  tauto

lemma user_id_ne_empty (h : isValidUser user = true) : (toUserParts user).2.1 ≠ "" := by
  rcases valid_user_cases h with ⟨hc, hh⟩ | hobject | huserset
  · rw [toUserParts_of_notMem hh, splitObject_of_notMem hc]
    rintro rfl
    exact absurd h (by decide)
  · rw [toUserParts_of_notMem (hash_notMem hobject)]
    exact id_ne_empty hobject
  · exact userset_id_ne_empty huserset

/-- The type of a user is in front of its first colon. -/
lemma toUserParts_type (h : isValidUser user = true) :
    (toUserParts user).1 = (splitObject user).1 := by
  rcases valid_user_cases h with ⟨-, hh⟩ | hobject | huserset
  · rw [toUserParts_of_notMem hh]
  · rw [toUserParts_of_notMem (hash_notMem hobject)]
  · obtain ⟨type, id, relation, rfl, -, htc, -, hrh, -⟩ := exists_of_isValidUserset huserset
    have hassoc : buildObject type id ++ "#" ++ relation =
        buildObject type (id ++ "#" ++ relation) := by simp [buildObject, String.append_assoc]
    rw [toUserParts_userset htc hrh, hassoc, splitObject_buildObject htc]

lemma prefix_iff (hne : type ≠ "") (htc : ':' ∉ type.toList) :
    (type ++ ":").toList <+: s.toList ↔ (splitObject s).1 = type := by
  constructor
  · rintro ⟨rest, hrest⟩
    have hs : s = buildObject type (String.ofList rest) := by
      rw [← String.toList_inj, ← hrest]
      simp [buildObject]
    rw [hs, splitObject_buildObject htc]
  · rintro rfl
    rw [eq_buildObject hne, splitObject_buildObject htc]
    exact ⟨(splitObject s).2.toList, by simp [buildObject]⟩

/-- A user has a relation exactly when it is a userset. -/
lemma relation_eq_empty (h : isValidUser user = true) :
    (toUserParts user).2.2 = "" ↔ '#' ∉ user.toList := by
  constructor
  · intro hrel
    rcases valid_user_cases h with ⟨-, hh⟩ | hobject | huserset
    · exact hh
    · exact hash_notMem hobject
    · obtain ⟨type, id, relation, rfl, -, htc, -, hrh, hne⟩ := exists_of_isValidUserset huserset
      rw [toUserParts_userset htc hrh] at hrel
      exact absurd hrel hne
  · intro hh
    rw [toUserParts_of_notMem hh]

theorem fromUserParts_toUserParts (h : isValidUser user = true) :
    fromUserParts (toUserParts user).1 (toUserParts user).2.1 (toUserParts user).2.2 = user := by
  rcases valid_user_cases h with ⟨hc, hh⟩ | hobject | huserset
  · rw [toUserParts_of_notMem hh, splitObject_of_notMem hc]
    simp [fromUserParts]
  · obtain ⟨type, id, rfl, hne, htc, hh⟩ := exists_of_isValidObject hobject
    rw [toUserParts_of_notMem hh, splitObject_buildObject htc]
    simp [fromUserParts, hne, buildObject]
  · obtain ⟨type, id, relation, rfl, hne, htc, -, hrh, hrne⟩ := exists_of_isValidUserset huserset
    rw [toUserParts_userset htc hrh]
    simp [fromUserParts, hne, hrne, buildObject, String.append_assoc]

lemma buildObject_splitObject (h : isValidObject object = true) :
    buildObject (splitObject object).1 (splitObject object).2 = object := by
  obtain ⟨type, id, rfl, -, htc, -⟩ := exists_of_isValidObject h
  rw [splitObject_buildObject htc]

/-! ## Usersets and their parts -/

/-- `IsValidUserset` accepts an object with a star at most in its type, and behind the hash what
    `IsValidUserID` accepts, without a star.  That is a relation unless it has an at; and an object
    with a relation is a valid user only as such a userset. -/
theorem isValidUserset_iff_parts (s : String) :
    (isValidUserset s = true ↔ ∃ o r, s = o ++ "#" ++ r ∧ isValidObject o = true ∧
      '*' ∉ (splitObject o).2.toList ∧ isValidUserID r = true ∧ '*' ∉ r.toList) ∧
    (isValidRelation s = true ↔ isValidUserID s = true ∧ '@' ∉ s.toList) ∧
    ∀ o r, s = o ++ "#" ++ r → isValidUser s = isValidUserset s := by
  refine ⟨?_, isValidRelation_iff, ?_⟩
  · rw [isValidUserset_iff]
    constructor
    · rintro ⟨type, id, relation, rfl, htype, ⟨hid, hstar⟩, hrel, hrstar⟩
      refine ⟨_, relation, rfl, isValidObject_iff.mpr ⟨type, id, rfl, htype, hid⟩, ?_, hrel, hrstar⟩
      rwa [splitObject_buildObject (notMem_of_isValidUserID htype).1]
    · rintro ⟨o, r, rfl, ho, hstar, hrel, hrstar⟩
      obtain ⟨type, id, rfl, htype, hid⟩ := isValidObject_iff.mp ho
      rw [splitObject_buildObject (notMem_of_isValidUserID htype).1] at hstar
      exact ⟨type, id, r, rfl, htype, ⟨hid, hstar⟩, hrel, hrstar⟩
  · rintro o r rfl
    have hhash : '#' ∈ (o ++ "#" ++ r).toList := by simp
    have hid : isValidUserID (o ++ "#" ++ r) = false := by
      by_contra h
      exact (notMem_of_isValidUserID (Bool.not_eq_false _ |>.mp h)).2.1 hhash
    have hobject : isValidObject (o ++ "#" ++ r) = false := by
      by_contra h
      exact hash_notMem (Bool.not_eq_false _ |>.mp h) hhash
    have hne : o ++ "#" ++ r ≠ "*" := fun h => absurd (h ▸ hhash) (by decide)
    simp [isValidUser, hid, hobject, hne]

/-- A relation with an at makes a userset, and an object with a star does not. -/
theorem isValidUserset_other_parts :
    (isValidUserset "group:1#a@b" = true ∧ ¬ ∃ o r, "group:1#a@b" = o ++ "#" ++ r ∧
      isValidObject o = true ∧ isTypedWildcard o = false ∧ isValidRelation r = true) ∧
    isValidUserset ("group:a*" ++ "#" ++ "member") = false ∧ isValidObject "group:a*" = true ∧
      isTypedWildcard "group:a*" = false ∧ isValidRelation "member" = true := by
  refine ⟨⟨by decide, ?_⟩, by decide⟩
  rintro ⟨o, r, hs, -, -, hr⟩
  have hhash := (notMem_of_isValidUserID (isValidRelation_iff.mp hr).1).2.1
  have hparts := splitObjectRelation_append hhash o
  rw [← hs, show splitObjectRelation "group:1#a@b" = ("group:1", "a@b") by decide] at hparts
  rw [← (Prod.mk.inj hparts).2] at hr
  exact absurd hr (by decide)

end

end OpenFGA.Tuple

/-
  The builder of cache keys (`pkg/storage/cache/keys`).

  A key is a sequence of tagged fields.  `Token` is what one call of an `Encode` method appends;
  the header of an array or a map is a token of its own, its elements follow.

  A protobuf value is written by a loop over a stack of frames, the fields of a struct in the
  order of their keys.  A nil list or struct is written as one without elements, and is one here.
-/

import OpenFGA.Lib.Wire
import OpenFGA.Storage.Write

namespace OpenFGA.Keys

open Wire List

/-! ## Tokens -/

inductive Token where
  | null
  | byte (b : UInt8)
  | bool (b : Bool)
  | uint64 (i : UInt64)
  | string (s : String)
  | bytes (bs : List UInt8)
  /-- `EncodeArrayHeader`. -/
  | array (n : Nat)
  /-- `EncodeMapHeader`. -/
  | map (n : Nat)
  /-- The markers of `EncodePair`. -/
  | pair
  | key
  | value
  | unset
deriving DecidableEq, Repr

namespace Token

def tag : Token → UInt8
  | .null => 0
  | .byte _ => 1
  | .bool _ => 2
  | .uint64 _ => 3
  | .string _ => 4
  | .bytes _ => 5
  | .array _ => 6
  | .map _ => 7
  | .pair => 8
  | .key => 9
  | .value => 10
  | .unset => 11

/-- The bytes of a string. -/
def utf8 (s : String) : List UInt8 := s.toByteArray.data.toList

def payload : Token → List UInt8
  | .null | .pair | .key | .value | .unset => []
  | .byte b => [b]
  | .bool b => [if b then 1 else 0]
  | .uint64 i => littleEndian 8 i.toNat
  | .string s => sized (utf8 s)
  | .bytes bs => sized bs
  | .array n | .map n => uvarint n

/-- What is appended to the buffer. -/
def encode (t : Token) : List UInt8 := t.tag :: t.payload

lemma utf8_injective : Function.Injective utf8 := by
  intro s t h
  exact String.toByteArray_inj.mp (ByteArray.ext (Array.toList_inj.mp h))

lemma delimited_encode : Delimited encode := by
  intro t t' r s h
  obtain ⟨htag, hrest⟩ := cons.inj h
  replace hrest : t.payload ++ r = t'.payload ++ s := hrest
  clear h
  -- the tags leave the tokens of one kind
  cases t <;> cases t' <;> simp only [tag] at htag <;>
    first | (exact absurd htag (by decide)) | simp only [payload] at hrest
  case null.null | pair.pair | key.key | value.value | unset.unset => exact ⟨rfl, hrest⟩
  case byte.byte b b' =>
    obtain ⟨rfl, htail⟩ := cons.inj hrest
    exact ⟨rfl, htail⟩
  case bool.bool b b' =>
    obtain ⟨hbool, htail⟩ := cons.inj hrest
    cases b <;> cases b' <;> first | exact ⟨rfl, htail⟩ | exact absurd hbool (by decide)
  case uint64.uint64 i i' =>
    have hlength : (littleEndian 8 i.toNat).length = (littleEndian 8 i'.toNat).length := by
      rw [length_littleEndian, length_littleEndian]
    obtain ⟨hbytes, htail⟩ := append_inj hrest hlength
    have htoNat := littleEndian_inj i.toNat_lt i'.toNat_lt hbytes
    exact ⟨congrArg Token.uint64 (UInt64.toNat_inj.mp htoNat), htail⟩
  case string.string s s' =>
    obtain ⟨hbytes, htail⟩ := delimited_sized _ _ _ _ hrest
    exact ⟨congrArg Token.string (utf8_injective hbytes), htail⟩
  case bytes.bytes bs bs' =>
    obtain ⟨rfl, htail⟩ := delimited_sized _ _ _ _ hrest
    exact ⟨rfl, htail⟩
  case array.array n n' =>
    obtain ⟨rfl, htail⟩ := delimited_uvarint _ _ _ _ hrest
    exact ⟨rfl, htail⟩
  case map.map n n' =>
    obtain ⟨rfl, htail⟩ := delimited_uvarint _ _ _ _ hrest
    exact ⟨rfl, htail⟩

end Token

/-- The buffer after a sequence of calls. -/
def bytes (ts : List Token) : List UInt8 := ts.flatMap Token.encode

lemma bytes_injective : Function.Injective bytes := fun _ _ h =>
  Token.delimited_encode.flatMap_injective (fun _ => cons_ne_nil _ _) h

def encodeArray {α : Type} (writeTo : α → List Token) (a : List α) : List Token :=
  .array a.length :: a.flatMap writeTo

/-! ## Protobuf values -/

/-- `structpb.Value`; a number is its bits. -/
inductive Value where
  | unset
  | null
  | bool (b : Bool)
  | number (bits : UInt64)
  | string (s : String)
  | list (values : List Value)
  | struct (fields : List (String × Value))

/-- The fields of a `structpb.Struct`. -/
abbrev Struct := List (String × Value)

namespace Value

@[elab_as_elim]
lemma inductionOn {P : Value → Prop} (v : Value) (hunset : P .unset) (hnull : P .null)
    (hbool : ∀ b, P (.bool b)) (hnumber : ∀ bits, P (.number bits)) (hstring : ∀ s, P (.string s))
    (hlist : ∀ values, (∀ v ∈ values, P v) → P (.list values))
    (hstruct : ∀ fields, (∀ p ∈ fields, P p.2) → P (.struct fields)) : P v :=
  @Value.rec P (fun vs => ∀ v ∈ vs, P v) (fun fs => ∀ p ∈ fs, P p.2) (fun p => P p.2)
    hunset hnull hbool hnumber hstring hlist hstruct nofun
    (fun _ _ hv hvs => forall_mem_cons.mpr ⟨hv, hvs⟩) nofun
    (fun _ _ hp hfs => forall_mem_cons.mpr ⟨hp, hfs⟩) (fun _ _ hv => hv) v

mutual
def size : Value → Nat
  | .unset | .null | .bool _ | .number _ | .string _ => 1
  | .list values => sizes values + 1
  | .struct fields => fieldSizes fields + 1

def sizes : List Value → Nat
  | [] => 0
  | v :: vs => v.size + sizes vs

def fieldSizes : List (String × Value) → Nat
  | [] => 0
  | p :: ps => p.2.size + fieldSizes ps
end

lemma sizes_eq (vs : List Value) : sizes vs = (vs.map size).sum := by
  induction vs with
  | nil => rfl
  | cons v vs ih => rw [sizes, ih, map_cons, sum_cons]

lemma fieldSizes_eq (fs : Struct) : fieldSizes fs = (fs.map fun p => p.2.size).sum := by
  induction fs with
  | nil => rfl
  | cons p fs ih => rw [fieldSizes, ih, map_cons, sum_cons]

end Value

/-- The fields in the order of their keys. -/
def sortFields (fields : Struct) : Struct := fields.mergeSort fun a b => decide (a.1 ≤ b.1)

/-- A value that is still to be written, with its key if it is a field of a struct. -/
structure Frame where
  key : Option String
  value : Value

namespace Frame

/-- The tag and the number of elements, or the whole value. -/
def token (f : Frame) : Token :=
  match f.value with
  | .bool b => .bool b
  | .null => .null
  | .string s => .string s
  | .number bits => .uint64 bits
  | .unset => .unset
  | .list values => .array values.length
  | .struct fields => .map fields.length

/-- What is written when the frame is popped. -/
def header (f : Frame) : List Token := f.key.toList.map .string ++ [f.token]

/-- What is pushed when the frame is popped; the first is on top. -/
def children (f : Frame) : List Frame :=
  match f.value with
  | .list values => values.map (Frame.mk none)
  | .struct fields => (sortFields fields).map fun p => ⟨some p.1, p.2⟩
  | _ => []

def size (f : Frame) : Nat := f.value.size

lemma sum_children_lt (f : Frame) : (f.children.map size).sum < f.size := by
  obtain ⟨key, value⟩ := f
  cases value with
  | list values =>
    have heq : (children ⟨key, .list values⟩).map size = values.map Value.size := by
      rw [children, map_map]
      rfl
    rw [heq, ← Value.sizes_eq]
    exact Nat.lt_succ_self _
  | struct fields =>
    have hperm : ((children ⟨key, .struct fields⟩).map size).Perm
        (fields.map fun p => p.2.size) := by
      rw [children, map_map]
      exact (mergeSort_perm _ _).map _
    rw [hperm.sum_nat, ← Value.fieldSizes_eq]
    exact Nat.lt_succ_self _
  | _ => exact Nat.zero_lt_one

end Frame

open Frame

/-- The loop of `PbValue.WriteTo`; the top of the stack is its head. -/
def walk : List Frame → List Token
  | [] => []
  | f :: stack => f.header ++ walk (f.children ++ stack)
termination_by stack => (stack.map size).sum
decreasing_by
  have hlt := f.sum_children_lt
  simp only [map_append, sum_append, map_cons, sum_cons]
  omega

def Value.writeTo (v : Value) : List Token := walk [⟨none, v⟩]

/-! ## What is written -/

namespace Value

mutual
/-- The value with the fields of each struct in the order of their keys.  Two values are equal if
    they have the same fields, in whatever order these are listed. -/
def canonical : Value → Value
  | .list values => .list (canonicals values)
  | .struct fields => .struct (sortFields (canonicalFields fields))
  | v => v

def canonicals : List Value → List Value
  | [] => []
  | v :: vs => v.canonical :: canonicals vs

def canonicalFields : Struct → Struct
  | [] => []
  | p :: ps => (p.1, p.2.canonical) :: canonicalFields ps
end

mutual
/-- A value, field by field in the order in which they are listed. -/
def tokens : Value → List Token
  | .bool b => [.bool b]
  | .null => [.null]
  | .string s => [.string s]
  | .number bits => [.uint64 bits]
  | .unset => [.unset]
  | .list values => .array values.length :: listTokens values
  | .struct fields => .map fields.length :: fieldTokens fields

def listTokens : List Value → List Token
  | [] => []
  | v :: vs => v.tokens ++ listTokens vs

def fieldTokens : Struct → List Token
  | [] => []
  | p :: ps => .string p.1 :: p.2.tokens ++ fieldTokens ps
end

lemma canonicals_eq (vs : List Value) : canonicals vs = vs.map canonical := by
  induction vs with
  | nil => rfl
  | cons v vs ih => rw [canonicals, ih, map_cons]

lemma canonicalFields_eq (fs : Struct) :
    canonicalFields fs = fs.map fun p => (p.1, p.2.canonical) := by
  induction fs with
  | nil => rfl
  | cons p fs ih => rw [canonicalFields, ih, map_cons]

lemma listTokens_eq (vs : List Value) : listTokens vs = vs.flatMap tokens := by
  induction vs with
  | nil => rfl
  | cons v vs ih => rw [listTokens, ih, flatMap_cons]

lemma fieldTokens_eq (fs : Struct) :
    fieldTokens fs = fs.flatMap fun p => .string p.1 :: p.2.tokens := by
  induction fs with
  | nil => rfl
  | cons p fs ih => rw [fieldTokens, ih, flatMap_cons]

/-- Sorting the fields does not look at their values. -/
lemma sortFields_map (f : Value → Value) (fs : Struct) :
    sortFields (fs.map fun p => (p.1, f p.2)) = (sortFields fs).map fun p => (p.1, f p.2) := by
  have hkeys : ∀ a ∈ fs, ∀ b ∈ fs, decide (a.1 ≤ b.1) =
      decide (((a.1, f a.2) : String × Value).1 ≤ ((b.1, f b.2) : String × Value).1) :=
    fun _ _ _ _ => rfl
  exact (map_mergeSort hkeys).symm

end Value

/-- What the loop writes for a frame and everything it pushes. -/
def Frame.tokens (f : Frame) : List Token := f.key.toList.map .string ++ f.value.canonical.tokens

lemma Frame.tokens_eq (f : Frame) : f.tokens = f.header ++ f.children.flatMap tokens := by
  obtain ⟨key, value⟩ := f
  cases value with
  | list values =>
    simp [tokens, header, token, children, Value.canonical, Value.tokens,
      Value.canonicals_eq, Value.listTokens_eq, flatMap_map]
  | struct fields =>
    have hlength : (sortFields fields).length = fields.length := (mergeSort_perm _ _).length_eq
    simp [tokens, header, token, children, Value.canonical, Value.tokens,
      Value.canonicalFields_eq, Value.sortFields_map, Value.fieldTokens_eq, flatMap_map, hlength]
  | _ => simp [tokens, header, token, children, Value.canonical, Value.tokens]

lemma walk_eq (stack : List Frame) : walk stack = stack.flatMap tokens := by
  induction stack using walk.induct with
  | case1 => rw [walk, flatMap_nil]
  | case2 f stack ih => rw [walk, ih, flatMap_append, ← append_assoc, ← f.tokens_eq, flatMap_cons]

lemma Value.writeTo_eq (v : Value) : v.writeTo = v.canonical.tokens := by
  rw [writeTo, walk_eq]
  simp [Frame.tokens]

/-- A value can be told from what is written for it, and from what follows. -/
lemma Value.delimited_tokens : Delimited tokens := by
  intro v
  induction v using inductionOn with
  | hlist values ih =>
    intro w r s h
    cases w <;> simp only [tokens, cons_append, cons.injEq, Token.array.injEq, reduceCtorEq,
      false_and] at h
    rw [listTokens_eq, listTokens_eq] at h
    obtain ⟨rfl, hrest⟩ := ReadsOff.flatMap ih h.1 h.2
    exact ⟨rfl, hrest⟩
  | hstruct fields ih =>
    intro w r s h
    cases w <;> simp only [tokens, cons_append, cons.injEq, Token.map.injEq, reduceCtorEq,
      false_and] at h
    have hfields : ∀ p ∈ fields,
        ReadsOff (fun p : String × Value => .string p.1 :: p.2.tokens) p := by
      intro p hp q r s hq
      simp only [cons_append, cons.injEq, Token.string.injEq] at hq
      obtain ⟨hvalue, hrest⟩ := ih p hp q.2 r s hq.2
      exact ⟨Prod.ext hq.1 hvalue, hrest⟩
    rw [fieldTokens_eq, fieldTokens_eq] at h
    obtain ⟨rfl, hrest⟩ := ReadsOff.flatMap hfields h.1 h.2
    exact ⟨rfl, hrest⟩
  | _ =>
    intro w r s h
    cases w <;> simp only [tokens, cons_append, nil_append, cons.injEq, Token.bool.injEq,
      Token.uint64.injEq, Token.string.injEq, reduceCtorEq, false_and, true_and] at h
    all_goals simp [h]

end OpenFGA.Keys

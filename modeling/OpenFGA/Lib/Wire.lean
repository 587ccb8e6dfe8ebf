/-
  OpenFGA.Lib.Wire

  Encodings that can be read off from the front.

  `f` is delimited if what was encoded and what is written behind it are both determined by the
  bytes.  Delimited encodings can be written one after the other.
-/

import Mathlib

namespace Wire
open List

/-! ## Delimited encodings -/

section
variable {α β : Type*} {f : α → List β} {a : α} {as bs : List α} {r s : List β}

/-- `a` and what follows it can be told from the bytes. -/
def ReadsOff (f : α → List β) (a : α) : Prop := ∀ b r s, f a ++ r = f b ++ s → a = b ∧ r = s

def Delimited (f : α → List β) : Prop := ∀ a, ReadsOff f a

theorem Delimited.injective (hf : Delimited f) : Function.Injective f := by
  intro a b h
  exact (hf a b [] [] (by rw [h])).1

/-- An encoding whose codes have one length is delimited. -/
lemma Delimited.of_length (n : Nat) (hlength : ∀ a, (f a).length = n) (hf : Function.Injective f) :
    Delimited f := by
  intro a b r s h
  have hsplit := append_inj h ((hlength a).trans (hlength b).symm)
  exact ⟨hf hsplit.1, hsplit.2⟩

/-- Two sequences of the same length. -/
lemma ReadsOff.flatMap (has : ∀ a ∈ as, ReadsOff f a) (hlength : as.length = bs.length)
    (h : as.flatMap f ++ r = bs.flatMap f ++ s) : as = bs ∧ r = s := by
  induction as generalizing bs with
  | nil =>
    cases length_eq_zero_iff.mp hlength.symm
    exact ⟨rfl, h⟩
  | cons a as ih =>
    cases bs with
    | nil => cases hlength
    | cons b bs =>
      simp only [flatMap_cons, append_assoc] at h
      obtain ⟨rfl, hrest⟩ := has a mem_cons_self b _ _ h
      obtain ⟨rfl, hr⟩ := ih (fun a ha => has a (mem_cons_of_mem _ ha)) (Nat.succ.inj hlength) hrest
      exact ⟨rfl, hr⟩

/-- Two sequences of any length, if no code is empty. -/
lemma Delimited.flatMap_injective (hf : Delimited f) (hne : ∀ a, f a ≠ [])
    (h : as.flatMap f = bs.flatMap f) : as = bs := by
  induction as generalizing bs with
  | nil =>
    cases bs with
    | nil => rfl
    | cons b bs => exact absurd (append_eq_nil_iff.mp h.symm).1 (hne b)
  | cons a as ih =>
    cases bs with
    | nil => exact absurd (append_eq_nil_iff.mp h).1 (hne a)
    | cons b bs =>
      obtain ⟨rfl, hrest⟩ := hf a b _ _ h
      rw [ih hrest]

end

/-! ## Numbers -/

/-- A number in base 128, lowest digit first; each byte but the last has its high bit set. -/
def uvarint (n : Nat) : List UInt8 :=
  if n < 128 then [UInt8.ofNat n] else UInt8.ofNat (n % 128 + 128) :: uvarint (n / 128)

lemma delimited_uvarint : Delimited uvarint := by
  intro n
  induction n using Nat.strongRecOn with
  | ind n ih =>
    intro m r s h
    rw [uvarint, uvarint.eq_def m] at h
    -- the high bit of the first byte tells whether there is another one
    split at h <;> split at h <;>
      simp only [cons_append, nil_append, cons.injEq, ← UInt8.toNat_inj,
        UInt8.toNat_ofNat'] at h
    · exact ⟨by omega, h.2⟩
    · omega
    · omega
    · obtain ⟨hdiv, hrest⟩ := ih (n / 128) (by omega) (m / 128) r s h.2
      exact ⟨by omega, hrest⟩

/-- The `k` lowest bytes of a number, lowest first. -/
def littleEndian : Nat → Nat → List UInt8
  | 0, _ => []
  | k + 1, n => UInt8.ofNat (n % 256) :: littleEndian k (n / 256)

lemma length_littleEndian (k n : Nat) : (littleEndian k n).length = k := by
  induction k generalizing n with
  | zero => rfl
  | succ k ih => rw [littleEndian, length_cons, ih]

lemma littleEndian_inj {k n m : Nat} (hn : n < 256 ^ k) (hm : m < 256 ^ k)
    (h : littleEndian k n = littleEndian k m) : n = m := by
  induction k generalizing n m with
  | zero => omega
  | succ k ih =>
    simp only [littleEndian, cons.injEq, ← UInt8.toNat_inj, UInt8.toNat_ofNat'] at h
    rw [Nat.pow_succ] at hn hm
    have hdiv := ih (by omega) (by omega) h.2
    omega

/-! ## Sized bytes -/

/-- Bytes behind their number. -/
def sized (bs : List UInt8) : List UInt8 := uvarint bs.length ++ bs

lemma delimited_sized : Delimited sized := by
  intro as bs r s h
  simp only [sized, append_assoc] at h
  obtain ⟨hlength, hrest⟩ := delimited_uvarint _ _ _ _ h
  exact append_inj hrest hlength

end Wire

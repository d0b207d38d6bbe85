/-
Octets and percent-encoding.

Facts about single octets are checked value by value, which `forall_octet` turns into facts about
all of them.  `percentEncode` writes the characters of a safe set for themselves and every other
octet as `%XX`; `percentDecode` reads complete triplets and anything else as it stands.  It undoes
the encoding for any safe set without the `%`.
-/
import Mathlib.Data.UInt
import Mathlib.Tactic.Common

namespace Octets

/-- What holds of the 256 values holds of every octet. -/
theorem forall_octet {p : UInt8 → Prop} (h : ∀ k < 256, p (UInt8.ofNat k)) (c : UInt8) : p c := by
  obtain ⟨k, hk, rfl⟩ : ∃ k < 256, c = UInt8.ofNat k :=
    ⟨c.toNat, UInt8.toNat_lt c, UInt8.ofNat_toNat.symm⟩
  exact h k hk

/-- A letter or a digit. -/
def isAlphanum (c : UInt8) : Bool :=
  (48 ≤ c && c ≤ 57) || (65 ≤ c && c ≤ 90) || (97 ≤ c && c ≤ 122)

/-- A character that no encoding needs to touch. -/
def isUnreserved (c : UInt8) : Bool := isAlphanum c || c == 45 || c == 46 || c == 95 || c == 126

/-! ### Hexadecimal digits -/

def upperHex (n : Nat) : UInt8 := if n < 10 then UInt8.ofNat (48 + n) else UInt8.ofNat (55 + n)

/-- The value of a digit, in either case. -/
def hexValue (c : UInt8) : Option Nat :=
  if 48 ≤ c ∧ c ≤ 57 then some (c.toNat - 48)
  else if 65 ≤ c ∧ c ≤ 70 then some (c.toNat - 55)
  else if 97 ≤ c ∧ c ≤ 102 then some (c.toNat - 87)
  else none

theorem hexValue_upperHex : ∀ n < 16, hexValue (upperHex n) = some n := by decide

theorem isAlphanum_of_hexValue : ∀ {c : UInt8}, (hexValue c).isSome → isAlphanum c = true := by
  have hall : ∀ c, (hexValue c).isSome → isAlphanum c = true := forall_octet (by decide +kernel)
  intro c h
  exact hall c h

/-! ### Percent-encoding -/

/-- One octet. -/
def percentByte (safe : UInt8 → Bool) (c : UInt8) : List UInt8 :=
  if safe c then [c] else [37, upperHex (c.toNat / 16), upperHex (c.toNat % 16)]

def percentEncode (safe : UInt8 → Bool) (s : List UInt8) : List UInt8 :=
  s.flatMap (percentByte safe)

/-- `none` where a `%` is not followed by two digits. -/
def percentDecode : List UInt8 → Option (List UInt8)
  | [] => some []
  | 37 :: a :: b :: s => do
      let i ← hexValue a
      let j ← hexValue b
      let out ← percentDecode s
      return UInt8.ofNat (i * 16 + j) :: out
  | c :: s => if c = 37 then none else (percentDecode s).map (c :: ·)

/-- Characters for themselves and complete triplets. -/
inductive Chars (p : UInt8 → Bool) : List UInt8 → Prop
  | nil : Chars p []
  | char {c : UInt8} {s : List UInt8} : p c = true → Chars p s → Chars p (c :: s)
  | triplet {a b : UInt8} {s : List UInt8} : (hexValue a).isSome → (hexValue b).isSome →
      Chars p s → Chars p (37 :: a :: b :: s)

theorem Chars.mono {p q : UInt8 → Bool} {s : List UInt8} (h : Chars p s)
    (hpq : ∀ c, p c = true → q c = true) : Chars q s := by
  induction h with
  | nil => exact .nil
  | char hc _ ih => exact .char (hpq _ hc) ih
  | triplet ha hb _ ih => exact .triplet ha hb ih

/-- Every character is one that stands for itself, a `%` or a digit. -/
theorem Chars.mem {p : UInt8 → Bool} {s : List UInt8} (h : Chars p s) {c : UInt8} (hc : c ∈ s) :
    p c = true ∨ c = 37 ∨ isAlphanum c = true := by
  induction h with
  | nil => cases hc
  | char hd _ ih =>
      rcases List.mem_cons.mp hc with rfl | hc
      · exact Or.inl hd
      · exact ih hc
  | triplet ha hb _ ih =>
      simp only [List.mem_cons] at hc
      rcases hc with rfl | rfl | rfl | hc
      · exact Or.inr (Or.inl rfl)
      · exact Or.inr (Or.inr (isAlphanum_of_hexValue ha))
      · exact Or.inr (Or.inr (isAlphanum_of_hexValue hb))
      · exact ih hc

theorem chars_percentEncode (safe : UInt8 → Bool) (s : List UInt8) :
    Chars safe (percentEncode safe s) := by
  induction s with
  | nil => exact .nil
  | cons c s ih =>
      have hc := UInt8.toNat_lt c
      show Chars safe (percentByte safe c ++ percentEncode safe s)
      unfold percentByte
      by_cases hsafe : safe c = true
      · rw [if_pos hsafe]
        exact .char hsafe ih
      · rw [if_neg hsafe]
        refine .triplet ?_ ?_ ih
        · rw [hexValue_upperHex _ (by omega)]
          rfl
        · rw [hexValue_upperHex _ (by omega)]
          rfl

theorem percentDecode_cons {c : UInt8} (h : c ≠ 37) (s : List UInt8) :
    percentDecode (c :: s) = (percentDecode s).map (c :: ·) := by
  rw [percentDecode]
  · rw [if_neg h]
  · rintro a b t rfl
    exact absurd rfl h

/-- **Decoding undoes encoding.** -/
theorem percentDecode_encode {safe : UInt8 → Bool} (hsafe : safe 37 = false) (s : List UInt8) :
    percentDecode (percentEncode safe s) = some s := by
  induction s with
  | nil => rfl
  | cons c s ih =>
      have hc := UInt8.toNat_lt c
      show percentDecode (percentByte safe c ++ percentEncode safe s) = _
      unfold percentByte
      by_cases h : safe c = true
      · have hne : c ≠ 37 := by
          rintro rfl
          rw [hsafe] at h
          cases h
        rw [if_pos h, List.singleton_append, percentDecode_cons hne, ih]
        rfl
      · have hbyte : UInt8.ofNat (c.toNat / 16 * 16 + c.toNat % 16) = c := by
          rw [show c.toNat / 16 * 16 + c.toNat % 16 = c.toNat by omega, UInt8.ofNat_toNat]
        rw [if_neg h]
        simp only [List.cons_append, List.nil_append, percentDecode,
          hexValue_upperHex _ (show c.toNat / 16 < 16 by omega),
          hexValue_upperHex _ (show c.toNat % 16 < 16 by omega), ih, Option.bind_eq_bind,
          Option.bind_some, hbyte]
        rfl

end Octets

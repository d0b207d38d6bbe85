/-
RFC 4648 base64 over byte strings.

`encode` writes the standard alphabet with padding and no line breaks, `decode`
reads it back.  Besides the round trip, what users of a variant alphabet need is
the shape of an encoded text: its length is a multiple of four, and it is a body
of alphabet characters followed by at most two `=`, so the padding can be cut off
and put back from the length alone.
-/
import Mathlib.Data.List.DropRight
import Mathlib.Data.UInt
import Mathlib.Tactic.IntervalCases

namespace Base64

/-- The padding character `=`. -/
def pad : UInt8 := 61

/-- The character for a six-bit value. -/
def symbol (n : Nat) : UInt8 :=
  if n < 26 then UInt8.ofNat (65 + n)
  else if n < 52 then UInt8.ofNat (71 + n)
  else if n < 62 then UInt8.ofNat (n - 4)
  else if n = 62 then 43
  else 47

/-- The six-bit value of a character of the alphabet. -/
def value (c : UInt8) : Option Nat :=
  if 65 ≤ c ∧ c ≤ 90 then some (c.toNat - 65)
  else if 97 ≤ c ∧ c ≤ 122 then some (c.toNat - 71)
  else if 48 ≤ c ∧ c ≤ 57 then some (c.toNat + 4)
  else if c = 43 then some 62
  else if c = 47 then some 63
  else none

theorem value_symbol : ∀ n < 64, value (symbol n) = some n := by decide

theorem symbol_ne_pad : ∀ n < 64, symbol n ≠ pad := by decide

/-- Base64 with padding. -/
def encode : List UInt8 → List UInt8
  | [] => []
  | [a] => [symbol (a.toNat / 4), symbol (a.toNat % 4 * 16), pad, pad]
  | [a, b] =>
      [symbol (a.toNat / 4), symbol (a.toNat % 4 * 16 + b.toNat / 16),
        symbol (b.toNat % 16 * 4), pad]
  | a :: b :: c :: rest =>
      symbol (a.toNat / 4) :: symbol (a.toNat % 4 * 16 + b.toNat / 16) ::
        symbol (b.toNat % 16 * 4 + c.toNat / 64) :: symbol (c.toNat % 64) :: encode rest

/-- Read base64 text: whole groups of four, padding only at the end. -/
def decode : List UInt8 → Option (List UInt8)
  | [] => some []
  | w :: x :: y :: z :: rest =>
      if rest = [] ∧ z = pad ∧ y = pad then do
        let w ← value w
        let x ← value x
        some [UInt8.ofNat (w * 4 + x / 16)]
      else if rest = [] ∧ z = pad then do
        let w ← value w
        let x ← value x
        let y ← value y
        some [UInt8.ofNat (w * 4 + x / 16), UInt8.ofNat (x % 16 * 16 + y / 4)]
      else do
        let w ← value w
        let x ← value x
        let y ← value y
        let z ← value z
        let tail ← decode rest
        some (UInt8.ofNat (w * 4 + x / 16) :: UInt8.ofNat (x % 16 * 16 + y / 4) ::
          UInt8.ofNat (y % 4 * 64 + z) :: tail)
  | _ => none

private theorem ofNat_eq {n : Nat} {b : UInt8} (h : n = b.toNat) : UInt8.ofNat n = b := by
  rw [h, UInt8.ofNat_toNat]

/-- **Reading undoes writing.** -/
theorem decode_encode (s : List UInt8) : decode (encode s) = some s := by
  induction s using encode.induct with
  | case1 => rfl
  | case2 a =>
      have ha := UInt8.toNat_lt a
      simp only [encode, decode, and_self, if_true]
      rw [value_symbol _ (by omega), value_symbol _ (by omega)]
      simp only [Option.bind_eq_bind, Option.bind_some]
      rw [ofNat_eq (b := a) (by omega)]
  | case3 a b =>
      have ha := UInt8.toNat_lt a
      have hb := UInt8.toNat_lt b
      have hy : symbol (b.toNat % 16 * 4) ≠ pad := symbol_ne_pad _ (by omega)
      simp only [encode, decode, hy, and_false, and_self, if_true, if_false]
      rw [value_symbol _ (by omega), value_symbol _ (by omega), value_symbol _ (by omega)]
      simp only [Option.bind_eq_bind, Option.bind_some]
      rw [ofNat_eq (b := a) (by omega), ofNat_eq (b := b) (by omega)]
  | case4 a b c rest ih =>
      have ha := UInt8.toNat_lt a
      have hb := UInt8.toNat_lt b
      have hc := UInt8.toNat_lt c
      have hz : symbol (c.toNat % 64) ≠ pad := symbol_ne_pad _ (by omega)
      simp only [encode, decode, hz, false_and, and_false, if_false]
      rw [value_symbol _ (by omega), value_symbol _ (by omega), value_symbol _ (by omega),
        value_symbol _ (by omega), ih]
      simp only [Option.bind_eq_bind, Option.bind_some]
      rw [ofNat_eq (b := a) (by omega), ofNat_eq (b := b) (by omega),
        ofNat_eq (b := c) (by omega)]

/-! ### The shape of an encoded text -/

theorem length_encode (s : List UInt8) : (encode s).length % 4 = 0 := by
  induction s using encode.induct with
  | case1 => rfl
  | case2 a => simp [encode]
  | case3 a b => simp [encode]
  | case4 a b c rest ih =>
      simp only [encode, List.length_cons]
      omega

theorem length_encode_eq (s : List UInt8) : (encode s).length = (s.length + 2) / 3 * 4 := by
  induction s using encode.induct with
  | case1 => rfl
  | case2 a => simp [encode]
  | case3 a b => simp [encode]
  | case4 a b c rest ih =>
      simp only [encode, List.length_cons, ih]
      omega

/-- Whole groups are encoded on their own. -/
theorem encode_append : ∀ {s : List UInt8}, s.length % 3 = 0 → ∀ t : List UInt8,
    encode (s ++ t) = encode s ++ encode t := by
  intro s
  induction s using encode.induct with
  | case1 => intro _ t; rfl
  | case2 a => intro h; simp at h
  | case3 a b => intro h; simp at h
  | case4 a b c rest ih =>
      intro h t
      have hrest : rest.length % 3 = 0 := by
        simp only [List.length_cons] at h
        omega
      simp only [List.cons_append, encode, ih hrest]

/-- A character of the standard alphabet. -/
def IsSymbol (c : UInt8) : Prop := ∃ n < 64, c = symbol n

/-- The text is a body of alphabet characters and a padding character for each byte that the last
group is short of. -/
theorem encode_padded (s : List UInt8) :
    ∃ body, encode s = body ++ List.replicate ((3 - s.length % 3) % 3) pad ∧
      ∀ c ∈ body, IsSymbol c := by
  induction s using encode.induct with
  | case1 => exact ⟨[], rfl, by simp⟩
  | case2 a =>
      have ha := UInt8.toNat_lt a
      refine ⟨[symbol (a.toNat / 4), symbol (a.toNat % 4 * 16)], rfl, ?_⟩
      intro c hc
      rcases List.mem_pair.mp hc with rfl | rfl
      · exact ⟨_, by omega, rfl⟩
      · exact ⟨_, by omega, rfl⟩
  | case3 a b =>
      have ha := UInt8.toNat_lt a
      have hb := UInt8.toNat_lt b
      refine ⟨[symbol (a.toNat / 4), symbol (a.toNat % 4 * 16 + b.toNat / 16),
        symbol (b.toNat % 16 * 4)], rfl, ?_⟩
      intro c hc
      simp only [List.mem_cons, List.not_mem_nil, or_false] at hc
      rcases hc with rfl | rfl | rfl
      · exact ⟨_, by omega, rfl⟩
      · exact ⟨_, by omega, rfl⟩
      · exact ⟨_, by omega, rfl⟩
  | case4 a b c rest ih =>
      have ha := UInt8.toNat_lt a
      have hb := UInt8.toNat_lt b
      have hc := UInt8.toNat_lt c
      obtain ⟨body, hbody, hsym⟩ := ih
      have hshort : (3 - (a :: b :: c :: rest).length % 3) % 3 = (3 - rest.length % 3) % 3 := by
        simp only [List.length_cons]
        omega
      refine ⟨symbol (a.toNat / 4) :: symbol (a.toNat % 4 * 16 + b.toNat / 16) ::
        symbol (b.toNat % 16 * 4 + c.toNat / 64) :: symbol (c.toNat % 64) :: body, ?_, ?_⟩
      · rw [hshort]
        simp [encode, hbody]
      intro d hd
      simp only [List.mem_cons] at hd
      rcases hd with rfl | rfl | rfl | rfl | hd
      · exact ⟨_, by omega, rfl⟩
      · exact ⟨_, by omega, rfl⟩
      · exact ⟨_, by omega, rfl⟩
      · exact ⟨_, by omega, rfl⟩
      · exact hsym d hd

/-- At most two padding characters. -/
theorem encode_shape (s : List UInt8) :
    ∃ body k, encode s = body ++ List.replicate k pad ∧ k ≤ 2 ∧ ∀ c ∈ body, IsSymbol c := by
  obtain ⟨body, hbody, hsym⟩ := encode_padded s
  exact ⟨body, _, hbody, by omega, hsym⟩

/-- RFC 4648 text: the standard alphabet, a length that is a multiple of four, and padding only
at the end. -/
def WellFormed (s : List UInt8) : Prop :=
  s.length % 4 = 0 ∧ ∃ body k, s = body ++ List.replicate k pad ∧ k ≤ 2 ∧ ∀ c ∈ body, IsSymbol c

theorem WellFormed.alphabet {s : List UInt8} (h : WellFormed s) {c : UInt8} (hc : c ∈ s) :
    c = pad ∨ IsSymbol c := by
  obtain ⟨-, body, k, rfl, -, hsym⟩ := h
  rcases List.mem_append.mp hc with hc | hc
  · exact Or.inr (hsym c hc)
  · exact Or.inl (List.eq_of_mem_replicate hc)

/-- What is encoded is well formed. -/
theorem encode_wellFormed (s : List UInt8) : WellFormed (encode s) :=
  ⟨length_encode s, encode_shape s⟩

private theorem symbol_ascii : ∀ n < 64, symbol n ≠ 0 ∧ symbol n < 128 := by decide

/-- An encoded text is ASCII without NULs. -/
theorem encode_ascii {s : List UInt8} {c : UInt8} (h : c ∈ encode s) : c ≠ 0 ∧ c < 128 := by
  obtain ⟨body, k, hbody, -, hsym⟩ := encode_shape s
  rw [hbody] at h
  rcases List.mem_append.mp h with hc | hc
  · obtain ⟨n, hn, rfl⟩ := hsym c hc
    exact symbol_ascii n hn
  · rw [List.eq_of_mem_replicate hc]
    decide

end Base64
